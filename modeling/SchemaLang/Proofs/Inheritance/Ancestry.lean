import SchemaLang.Inheritance
import SchemaLang.Proofs.Declaration.Collection
import Mathlib.Logic.Relation

/-!
# Ancestry

The declared super types of the objects of a schema make a graph.  `Super` is its edge
relation, `Ancestor` its reflexive and transitive closure, and the schema is `Acyclic`
when no object is above itself.

An object is *grounded* when no chain of super types goes up from it for ever.  Since a
chain can only meet declared objects, and there are finitely many of them, the two
notions are one (`acyclic_iff_grounded`).  Induction over the ancestors of an object is
induction over its being grounded.
-/

namespace SchemaLang.Schema

open Relation (ReflTransGen TransGen)

variable {d s : Schema} {name t u : String}

def supers (d : Schema) (name : String) : List String :=
  match d.object? name with
  | some o => o.superTypes.toList.filter d.declares
  | none => []

/-- `t` is a declared super type of the object `name`. -/
def Super (d : Schema) (name t : String) : Prop := t ∈ d.supers name

/-- `a` is the object `name` itself or one of its direct or indirect declared super
types. -/
def Ancestor (d : Schema) (name a : String) : Prop := ReflTransGen d.Super name a

def Acyclic (d : Schema) : Prop := ∀ name, ¬TransGen d.Super name name

/-- No chain of super types goes up from the object for ever. -/
def Grounded (d : Schema) (name : String) : Prop := Acc (fun t n => d.Super n t) name

theorem supers_of_object {o : ObjectType} (h : d.object? name = some o) :
    d.supers name = o.superTypes.toList.filter d.declares := by
  rw [supers, h]

theorem supers_of_none (h : d.object? name = none) : d.supers name = [] := by
  rw [supers, h]

theorem own_of_none (h : d.object? name = none) : d.own name = [] := by
  rw [own, h]

theorem super_iff :
    d.Super name t ↔ ∃ o, d.object? name = some o ∧ t ∈ o.superTypes ∧ d.declares t = true := by
  rw [Super]
  cases h : d.object? name with
  | none => simp [supers_of_none h]
  | some o => simp [supers_of_object h, OrderedSet.mem_def]

theorem Super.declares_left (h : d.Super name t) : d.declares name = true := by
  obtain ⟨o, ho, _⟩ := super_iff.1 h
  exact declares_iff.2 ⟨o, ho⟩

theorem Super.declares_right (h : d.Super name t) : d.declares t = true := by
  obtain ⟨_, _, _, ht⟩ := super_iff.1 h
  exact ht

theorem Ancestor.refl (name : String) : d.Ancestor name name := ReflTransGen.refl

theorem ancestor_iff {a : String} :
    d.Ancestor name a ↔ a = name ∨ ∃ t, d.Super name t ∧ d.Ancestor t a := by
  constructor
  · exact fun h => h.cases_head.imp Eq.symm id
  · rintro (rfl | ⟨t, ht, ha⟩)
    · exact .refl a
    · exact .head ht ha

/-! ### Grounded objects -/

theorem grounded_iff : d.Grounded name ↔ ∀ t, d.Super name t → d.Grounded t :=
  ⟨fun h _ ht => h.inv ht, fun h => .intro name h⟩

theorem Grounded.of_ancestor {a : String} (h : d.Grounded name) (ha : d.Ancestor name a) :
    d.Grounded a := by
  induction ha with
  | refl => exact h
  | tail _ ht ih => exact grounded_iff.1 ih _ ht

theorem Grounded.not_transGen (h : d.Grounded name) : ¬TransGen d.Super name name := by
  induction h with
  | intro n _ ih =>
    intro hcycle
    obtain ⟨t, ht, hn⟩ := TransGen.head'_iff.1 hcycle
    exact ih t ht (TransGen.tail' hn ht)

theorem Grounded.not_ancestor (h : d.Grounded name) (ht : d.Super name t) :
    ¬d.Ancestor t name :=
  fun ha => h.not_transGen (TransGen.head' ht ha)

/-- From the top of an acyclic chain, the declared objects outside the chain bound
what is still above. -/
theorem Acyclic.grounded_of_path (h : d.Acyclic) {path : List String}
    (hp : ∀ m ∈ path, TransGen d.Super m name) : d.Grounded name := by
  induction hn : d.outside path using Nat.strongRecOn generalizing path name with
  | ind n ih =>
    subst hn
    refine grounded_iff.2 fun t ht => ?_
    obtain ⟨o, ho⟩ := declares_iff.1 ht.declares_left
    -- a name that is met again would be above itself
    have hfree : name ∉ path := fun hm => h name (hp name hm)
    have hpath : ∀ m ∈ name :: path, TransGen d.Super m t := fun m hm => by
      rcases List.mem_cons.1 hm with rfl | hm
      · exact .single ht
      · exact (hp m hm).tail ht
    exact ih _ (outside_cons_lt hfree ho) hpath rfl

/-- **A schema is acyclic exactly when all its objects are grounded.** -/
theorem acyclic_iff_grounded : d.Acyclic ↔ ∀ name, d.Grounded name :=
  ⟨fun h name =>
      have hnil : ∀ m ∈ ([] : List String), TransGen d.Super m name := fun m hm => by cases hm
      h.grounded_of_path hnil,
    fun h name => (h name).not_transGen⟩

end SchemaLang.Schema
