import SchemaLang.OrderedSet
import Mathlib.Data.List.Induction

/-!
# First occurrences

The set of a list has the elements of the list, each where it first occurs: it is the list without
its repetitions (`toList_ofList`).  Most of this is by induction on the end of the list, where the
set grows.

* `filter_toList_ofList`: to leave out some elements before or after makes no difference.
* `insertAll_toList_ofList`, `insertAll_flatMap_ofList`: repetitions among what is inserted make no
  difference.
-/

namespace SchemaLang.OrderedSet

variable {α : Type} [DecidableEq α]

theorem ofList_concat (l : List α) (a : α) : ofList (l ++ [a]) = (ofList l).insert a :=
  ofList_append l [a]

theorem toList_ofList_concat (l : List α) (a : α) :
    (ofList (l ++ [a])).toList =
      if a ∈ l then (ofList l).toList else (ofList l).toList ++ [a] := by
  rw [ofList_concat]
  split
  · next ha => rw [insert_of_mem (mem_ofList.2 ha)]
  · next ha => exact toList_insert_of_not_mem (mt mem_ofList.1 ha)

/-- **The set of a list is the list without its repetitions.** -/
theorem toList_ofList (l : List α) : (ofList l).toList = l.eraseDups := by
  induction l using List.reverseRecOn with
  | nil => rfl
  | append_singleton l a ih =>
    rw [toList_ofList_concat, List.eraseDups_append, ← ih]
    by_cases ha : a ∈ l
    · simp [List.removeAll, ha]
    · simp [List.removeAll, ha, List.eraseDups_cons]

theorem filter_toList_ofList (p : α → Bool) (l : List α) :
    (ofList l).toList.filter p = (ofList (l.filter p)).toList := by
  induction l using List.reverseRecOn with
  | nil => rfl
  | append_singleton l a ih =>
    rw [toList_ofList_concat, List.filter_append]
    by_cases hp : p a = true
    · have hmem : a ∈ l.filter p ↔ a ∈ l := by simp [hp]
      rw [List.filter_cons_of_pos hp, List.filter_nil, toList_ofList_concat, ← ih]
      by_cases ha : a ∈ l
      · rw [if_pos ha, if_pos (hmem.2 ha)]
      · rw [if_neg ha, if_neg (mt hmem.1 ha), List.filter_append, List.filter_cons_of_pos hp,
          List.filter_nil]
    · rw [List.filter_cons_of_neg hp, List.filter_nil, List.append_nil, ← ih]
      split
      · rfl
      · rw [List.filter_append, List.filter_cons_of_neg hp, List.filter_nil, List.append_nil]

theorem insertAll_toList_ofList (s : OrderedSet α) (l : List α) :
    s.insertAll (ofList l).toList = s.insertAll l := by
  induction l using List.reverseRecOn with
  | nil => rfl
  | append_singleton l a ih =>
    rw [toList_ofList_concat, insertAll_append]
    split
    · next ha =>
      have hmem : a ∈ s.insertAll l := mem_insertAll.2 (Or.inr ha)
      rw [ih]
      exact (insert_of_mem hmem).symm
    · rw [insertAll_append, ih]

theorem insertAll_flatMap_ofList {β : Type} {f : β → List α} (l : List β) (s : OrderedSet α) :
    s.insertAll (l.flatMap fun b => (ofList (f b)).toList) = s.insertAll (l.flatMap f) := by
  induction l generalizing s with
  | nil => rfl
  | cons b l ih =>
    rw [List.flatMap_cons, List.flatMap_cons, insertAll_append, insertAll_append,
      insertAll_toList_ofList, ih]

end SchemaLang.OrderedSet
