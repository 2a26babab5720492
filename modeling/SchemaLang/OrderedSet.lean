/-!
# Ordered sets

A finite set that remembers the order in which its elements came in: an element
stands where it was first inserted, and inserting it again changes nothing.  Tags
and super types are such sets.

The view is `toList`.

* `mem_insert`, `mem_insertAll`, `mem_ofList`: membership is that of a set.
* `insert_of_mem`: a repeated element changes nothing.
* `toList_insert_of_not_mem`, `toList_insertAll_of_new`: new elements go to the end.
-/

namespace SchemaLang

/-- A finite set with the order of first insertion. -/
structure OrderedSet (α : Type) where
  toList : List α
  nodup : toList.Nodup
deriving DecidableEq

namespace OrderedSet

variable {α : Type}

@[ext] theorem ext {s t : OrderedSet α} (h : s.toList = t.toList) : s = t := by
  cases s; cases t; cases h; rfl

instance : Membership α (OrderedSet α) := ⟨fun s a => a ∈ s.toList⟩

theorem mem_def {a : α} {s : OrderedSet α} : a ∈ s ↔ a ∈ s.toList := Iff.rfl

def empty : OrderedSet α := ⟨[], List.nodup_nil⟩

instance : EmptyCollection (OrderedSet α) := ⟨empty⟩

@[simp] theorem toList_empty : (∅ : OrderedSet α).toList = [] := rfl

variable [DecidableEq α]

instance (a : α) (s : OrderedSet α) : Decidable (a ∈ s) :=
  inferInstanceAs (Decidable (a ∈ s.toList))

/-- The set with `a`, which goes to the end when it is new. -/
def insert (s : OrderedSet α) (a : α) : OrderedSet α :=
  if h : a ∈ s.toList then s
  else
    ⟨s.toList ++ [a], by
      refine List.nodup_append.2 ⟨s.nodup, List.pairwise_singleton _ a, ?_⟩
      intro b hb c hc e
      exact h ((e.trans (List.mem_singleton.1 hc)) ▸ hb)⟩

def insertAll (s : OrderedSet α) (l : List α) : OrderedSet α := l.foldl insert s

/-- The set with the elements of `t`, in their order. -/
def union (s t : OrderedSet α) : OrderedSet α := s.insertAll t.toList

/-- The elements of a list, each where it first occurs. -/
def ofList (l : List α) : OrderedSet α := (∅ : OrderedSet α).insertAll l

theorem insert_of_mem {s : OrderedSet α} {a : α} (h : a ∈ s) : s.insert a = s :=
  dif_pos h

theorem toList_insert_of_not_mem {s : OrderedSet α} {a : α} (h : a ∉ s) :
    (s.insert a).toList = s.toList ++ [a] := by
  rw [insert, dif_neg fun hl => h (mem_def.2 hl)]

@[simp] theorem mem_insert {s : OrderedSet α} {a b : α} : b ∈ s.insert a ↔ b ∈ s ∨ b = a := by
  by_cases h : a ∈ s
  · rw [insert_of_mem h]
    exact ⟨Or.inl, fun hb => hb.elim id fun e => e ▸ h⟩
  · rw [mem_def, toList_insert_of_not_mem h, List.mem_append, List.mem_singleton]
    exact Iff.rfl

@[simp] theorem insertAll_nil (s : OrderedSet α) : s.insertAll [] = s := rfl

@[simp] theorem insertAll_cons (s : OrderedSet α) (a : α) (l : List α) :
    s.insertAll (a :: l) = (s.insert a).insertAll l := rfl

@[simp] theorem mem_insertAll {l : List α} : ∀ {s : OrderedSet α} {b : α},
    b ∈ s.insertAll l ↔ b ∈ s ∨ b ∈ l := by
  induction l with
  | nil => intro s b; simp
  | cons a l ih => intro s b; rw [insertAll_cons, ih, mem_insert, List.mem_cons, or_assoc]

theorem mem_ofList {l : List α} {b : α} : b ∈ ofList l ↔ b ∈ l := by
  rw [ofList, mem_insertAll, mem_def, toList_empty]
  simp

theorem insertAll_append (s : OrderedSet α) (l m : List α) :
    s.insertAll (l ++ m) = (s.insertAll l).insertAll m :=
  List.foldl_append

theorem ofList_append (l m : List α) : ofList (l ++ m) = (ofList l).insertAll m :=
  insertAll_append ∅ l m

theorem toList_insertAll_of_new {l : List α} (hl : l.Nodup) : ∀ {s : OrderedSet α},
    (∀ a ∈ l, a ∉ s) → (s.insertAll l).toList = s.toList ++ l := by
  induction l with
  | nil => intro s _; rw [insertAll_nil, List.append_nil]
  | cons a l ih =>
    intro s h
    rw [List.nodup_cons] at hl
    rw [insertAll_cons, ih hl.2, toList_insert_of_not_mem (h a List.mem_cons_self),
      List.append_cons s.toList a l]
    intro b hb hm
    rcases mem_insert.1 hm with hm | rfl
    · exact h b (List.mem_cons_of_mem a hb) hm
    · exact hl.1 hb

@[simp] theorem ofList_toList (s : OrderedSet α) : ofList s.toList = s :=
  ext (toList_insertAll_of_new s.nodup fun _ _ h => by cases h)

end OrderedSet
end SchemaLang
