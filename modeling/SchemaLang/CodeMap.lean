import SchemaLang.Code
import SchemaLang.Entries

/-!
# Code maps

A finite map keyed by codes, in ascending order of the codes as numbers.  It is
the index by which objects and properties are found from their codes.

The view is `entries`, a list whose codes ascend strictly.

* `get?_eq_some_iff`: finding is containing.
* `get?_insert`, `mem_entries_insert`: what inserting does to the view.
-/

namespace SchemaLang

namespace Entries

variable {α : Type}

/-- The entries with `a` at `code`, in the place that the order of codes gives. -/
def putAscending (code : Code) (a : α) : List (Code × α) → List (Code × α)
  | [] => [(code, a)]
  | (c, b) :: r =>
    if code < c then (code, a) :: (c, b) :: r
    else if code = c then (code, a) :: r
    else (c, b) :: putAscending code a r

def Ascending (entries : List (Code × α)) : Prop := entries.Pairwise fun x y => x.1 < y.1

theorem mem_of_mem_putAscending {code : Code} {a : α} {entries : List (Code × α)} {e : Code × α}
    (h : e ∈ putAscending code a entries) : e = (code, a) ∨ e ∈ entries := by
  induction entries with
  | nil => exact Or.inl (List.mem_singleton.1 h)
  | cons d r ih =>
    rw [putAscending] at h
    split at h
    · exact List.mem_cons.1 h
    · split at h
      · exact (List.mem_cons.1 h).imp id (List.mem_cons_of_mem d)
      · rcases List.mem_cons.1 h with rfl | h
        · exact Or.inr List.mem_cons_self
        · exact (ih h).imp id (List.mem_cons_of_mem d)

theorem lt_of_not_lt_of_ne {a b : Code} (h : ¬a < b) (hne : a ≠ b) : b < a := by
  rw [Int64.lt_iff_toInt_lt] at h ⊢
  have hi : a.toInt ≠ b.toInt := fun e => hne (Int64.toInt_inj.1 e)
  omega

theorem ascending_putAscending {code : Code} {a : α} {entries : List (Code × α)}
    (h : Ascending entries) : Ascending (putAscending code a entries) := by
  induction entries with
  | nil => exact List.pairwise_singleton _ _
  | cons d r ih =>
    obtain ⟨hd, hr⟩ := List.pairwise_cons.1 h
    rw [putAscending]
    split
    · next hlt =>
      refine List.pairwise_cons.2 ⟨fun e he => ?_, h⟩
      rcases List.mem_cons.1 he with rfl | he
      · exact hlt
      · exact Int64.lt_trans hlt (hd e he)
    · next hlt =>
      split
      · next heq => exact List.pairwise_cons.2 ⟨fun e he => heq ▸ hd e he, hr⟩
      · next hne =>
        refine List.pairwise_cons.2 ⟨fun e he => ?_, ih hr⟩
        rcases mem_of_mem_putAscending he with rfl | he
        · exact lt_of_not_lt_of_ne hlt hne
        · exact hd e he

theorem nodup_of_ascending {entries : List (Code × α)} (h : Ascending entries) :
    entries.Nodup :=
  List.Pairwise.imp
    (fun {x y : Code × α} (hlt : x.1 < y.1) (e : x = y) => Int64.lt_irrefl (e ▸ hlt)) h

theorem nodup_keys_of_ascending {entries : List (Code × α)} (h : Ascending entries) :
    (keys entries).Nodup := by
  rw [keys, List.Nodup, List.pairwise_map]
  exact List.Pairwise.imp
    (fun {x y : Code × α} (hlt : x.1 < y.1) (e : x.1 = y.1) => Int64.lt_irrefl (e ▸ hlt)) h

theorem get?_putAscending {code c : Code} {a : α} {entries : List (Code × α)}
    (h : Ascending entries) :
    get? c (putAscending code a entries) = if code = c then some a else get? c entries := by
  induction entries with
  | nil => rfl
  | cons d r ih =>
    obtain ⟨hd, hr⟩ := List.pairwise_cons.1 h
    rw [putAscending]
    split
    · rfl
    · split
      · next heq =>
        rw [get?_cons, get?_cons]
        by_cases hc : code = c
        · simp [hc]
        · rw [if_neg hc, if_neg hc, if_neg (heq ▸ hc)]
      · next hne =>
        rw [get?_cons, ih hr, get?_cons]
        by_cases hc : code = c
        · subst hc; simp [Ne.symm hne]
        · simp [hc]

end Entries

/-- A finite map keyed by codes, in ascending order of the codes. -/
structure CodeMap (α : Type) where
  entries : List (Code × α)
  ascending : Entries.Ascending entries
deriving DecidableEq

namespace CodeMap

variable {α : Type}

@[ext] theorem ext {m n : CodeMap α} (h : m.entries = n.entries) : m = n := by
  cases m; cases n; cases h; rfl

def empty : CodeMap α := ⟨[], List.Pairwise.nil⟩

instance : EmptyCollection (CodeMap α) := ⟨empty⟩

@[simp] theorem entries_empty : (∅ : CodeMap α).entries = [] := rfl

def codes (m : CodeMap α) : List Code := Entries.keys m.entries

def values (m : CodeMap α) : List α := m.entries.map Prod.snd

def get? (m : CodeMap α) (code : Code) : Option α := Entries.get? code m.entries

def contains (m : CodeMap α) (code : Code) : Bool := (m.get? code).isSome

def insert (m : CodeMap α) (code : Code) (a : α) : CodeMap α :=
  ⟨Entries.putAscending code a m.entries, Entries.ascending_putAscending m.ascending⟩

theorem nodup_codes (m : CodeMap α) : m.codes.Nodup :=
  Entries.nodup_keys_of_ascending m.ascending

/-- **Finding is containing.** -/
theorem get?_eq_some_iff {m : CodeMap α} {code : Code} {a : α} :
    m.get? code = some a ↔ (code, a) ∈ m.entries :=
  Entries.get?_eq_some_iff m.nodup_codes

theorem get?_eq_none_iff {m : CodeMap α} {code : Code} : m.get? code = none ↔ code ∉ m.codes :=
  Entries.get?_eq_none_iff

theorem get?_insert {m : CodeMap α} {code c : Code} {a : α} :
    (m.insert code a).get? c = if code = c then some a else m.get? c :=
  Entries.get?_putAscending m.ascending

@[simp] theorem get?_insert_self {m : CodeMap α} {code : Code} {a : α} :
    (m.insert code a).get? code = some a := by
  rw [get?_insert, if_pos rfl]

/-- An entry after an insertion is the inserted one or an older one at another
code. -/
theorem mem_entries_insert {m : CodeMap α} {code c : Code} {a b : α} :
    (c, b) ∈ (m.insert code a).entries ↔
      (c = code ∧ b = a) ∨ (c ≠ code ∧ (c, b) ∈ m.entries) := by
  rw [← get?_eq_some_iff, get?_insert, ← get?_eq_some_iff]
  by_cases h : code = c
  · subst h; simp [eq_comm]
  · simp [h, Ne.symm h]

theorem ext_mem {m n : CodeMap α} (h : ∀ e, e ∈ m.entries ↔ e ∈ n.entries) : m = n := by
  apply ext
  have hp : m.entries.Perm n.entries :=
    (List.perm_ext_iff_of_nodup (Entries.nodup_of_ascending m.ascending)
      (Entries.nodup_of_ascending n.ascending)).2 fun e => h e
  exact hp.eq_of_pairwise (fun a b _ _ hab hba => absurd (Int64.lt_trans hab hba) Int64.lt_irrefl)
    m.ascending n.ascending

end CodeMap
end SchemaLang
