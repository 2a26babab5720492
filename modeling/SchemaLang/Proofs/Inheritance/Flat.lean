import SchemaLang.Proofs.Inheritance.Ancestry
import Mathlib.Data.List.Basic

/-!
# Flat lists of properties

What an object has in the end: its own properties, and after them, super type by super
type, what that super type has in the end, without what is in the list already.  This is
`Schema.flat`; it says nothing about the order in which objects are completed.

The recursion goes up the super types.  It is cut off where it meets an object twice on
one path, so that there is such a list in every schema; in an acyclic one it is never cut
off, and `flat_eq` is the recursion as it was just said.

* `mem_flat_iff`: the list has the own properties of all ancestors.
* `exists_flat_eq_append`, `filter_flat`: the object owns what it declared, which comes first.
* `flat_congr`: nothing but the ancestors of an object has a say in its list.
-/

namespace SchemaLang

def Property.joinNew (l m : List Property) : List Property := l ++ m.filter fun p => p ∉ l

namespace Property

variable {l m : List Property} {p : Property}

theorem mem_joinNew : p ∈ joinNew l m ↔ p ∈ l ∨ p ∈ m := by
  rw [joinNew, List.mem_append, List.mem_filter, decide_eq_true_eq]
  constructor
  · exact fun h => h.imp id And.left
  · rintro (h | h)
    · exact Or.inl h
    · by_cases hl : p ∈ l
      · exact Or.inl hl
      · exact Or.inr ⟨h, hl⟩

theorem joinNew_of_subset (h : ∀ p ∈ m, p ∈ l) : joinNew l m = l := by
  rw [joinNew, List.filter_eq_nil_iff.2 fun p hp => by simpa using h p hp, List.append_nil]

end Property

namespace Schema

variable {d : Schema} {name : String} {p : Property}

open Property (joinNew)

/-- The list that `flat` gives, cut off at the objects of a path. -/
def flatAlong (d : Schema) (path : List String) (name : String) : List Property :=
  if _ : name ∈ path then []
  else
    match _ : d.object? name with
    | none => []
    | some o =>
      (o.superTypes.toList.filter d.declares).foldl
        (fun l t => joinNew l (d.flatAlong (name :: path) t)) o.properties.values
termination_by d.outside path
decreasing_by exact outside_cons_lt ‹_› ‹_›

/-- **What an object has in the end**, as a list. -/
def flat (d : Schema) (name : String) : List Property := d.flatAlong [] name

/-- What the super types in `ts`, one after the other, leave of the list `l`. -/
def joinFlat (d : Schema) (l : List Property) (ts : List String) : List Property :=
  ts.foldl (fun l t => joinNew l (d.flat t)) l

theorem flatAlong_eq {path : List String} (h : name ∉ path) :
    d.flatAlong path name =
      (d.supers name).foldl (fun l t => joinNew l (d.flatAlong (name :: path) t))
        (d.own name) := by
  rw [flatAlong, dif_neg h]
  split
  · next hn => rw [supers_of_none hn, own_of_none hn]; rfl
  · next o ho => rw [supers_of_object ho, own_of_object ho]

/-- The path does not matter as long as it is not met. -/
theorem Grounded.flatAlong_eq_flatAlong (h : d.Grounded name) : ∀ {path path' : List String},
    (∀ m ∈ path, ¬d.Ancestor name m) → (∀ m ∈ path', ¬d.Ancestor name m) →
      d.flatAlong path name = d.flatAlong path' name := by
  induction h with
  | intro n hacc ih =>
    intro path path' hp hp'
    have hn : d.Grounded n := .intro n hacc
    -- going up from `n` keeps clear of the longer path, too, as `n` is not above itself
    have hstep : ∀ {path : List String}, (∀ m ∈ path, ¬d.Ancestor n m) →
        ∀ t, d.Super n t → ∀ m ∈ n :: path, ¬d.Ancestor t m := by
      intro path hp t ht m hm
      rcases List.mem_cons.1 hm with rfl | hm
      · exact hn.not_ancestor ht
      · exact fun ha => hp m hm (.head ht ha)
    rw [flatAlong_eq fun hm => hp n hm (.refl n), flatAlong_eq fun hm => hp' n hm (.refl n)]
    refine List.foldl_ext _ _ _ fun l t ht => ?_
    rw [ih t ht (hstep hp t ht) (hstep hp' t ht)]

/-- **The recursion of `flat`.** -/
theorem Grounded.flat_eq (h : d.Grounded name) :
    d.flat name = d.joinFlat (d.own name) (d.supers name) := by
  rw [flat, flatAlong_eq (by simp), joinFlat]
  refine List.foldl_ext _ _ _ fun l t ht => ?_
  have hone : ∀ m ∈ [name], ¬d.Ancestor t m := fun m hm => by
    rw [List.mem_singleton.1 hm]
    exact h.not_ancestor ht
  have hnil : ∀ m ∈ ([] : List String), ¬d.Ancestor t m := fun m hm => by cases hm
  rw [flat, (grounded_iff.1 h t ht).flatAlong_eq_flatAlong hone hnil]

/-! ### The properties in a flat list -/

theorem mem_joinFlat {l : List Property} {ts : List String} :
    p ∈ d.joinFlat l ts ↔ p ∈ l ∨ ∃ t ∈ ts, p ∈ d.flat t := by
  rw [joinFlat]
  induction ts generalizing l with
  | nil => simp
  | cons t ts ih =>
    rw [List.foldl_cons, ih, Property.mem_joinNew, or_assoc, List.exists_mem_cons_iff]

theorem Grounded.flat_subset {t : String} (h : d.Grounded name) (ht : d.Super name t) :
    ∀ p ∈ d.flat t, p ∈ d.flat name := fun p hp => by
  rw [h.flat_eq, mem_joinFlat]
  exact Or.inr ⟨t, ht, hp⟩

theorem Grounded.own_subset (h : d.Grounded name) : ∀ p ∈ d.own name, p ∈ d.flat name :=
  fun p hp => by
    rw [h.flat_eq, mem_joinFlat]
    exact Or.inl hp

/-- **A flat list has the own properties of all ancestors.** -/
theorem Grounded.mem_flat_iff (h : d.Grounded name) :
    p ∈ d.flat name ↔ ∃ a, d.Ancestor name a ∧ p ∈ d.own a := by
  induction h with
  | intro n hacc ih =>
    rw [Grounded.flat_eq (.intro n hacc), mem_joinFlat]
    constructor
    · rintro (hp | ⟨t, ht, hp⟩)
      · exact ⟨n, .refl n, hp⟩
      · obtain ⟨a, ha, hp⟩ := (ih t ht).1 hp
        exact ⟨a, .head ht ha, hp⟩
    · rintro ⟨a, ha, hp⟩
      rcases ancestor_iff.1 ha with rfl | ⟨t, ht, ha⟩
      · exact Or.inl hp
      · exact Or.inr ⟨t, ht, (ih t ht).2 ⟨a, ha, hp⟩⟩

theorem Declared.owner_of_mem_own (hd : d.Declared) (h : p ∈ d.own name) : p.owner = name := by
  cases ho : d.object? name with
  | none => rw [own_of_none ho] at h; cases h
  | some o =>
    rw [own_of_object ho] at h
    rw [(hd.object ho).owner p h, hd.name ho]

theorem exists_joinFlat_eq_append : ∀ (ts : List String) (l : List Property),
    ∃ r, d.joinFlat l ts = l ++ r ∧ ∀ p ∈ r, ∃ t ∈ ts, p ∈ d.flat t
  | [], l => ⟨[], (List.append_nil l).symm, by simp⟩
  | t :: ts, l => by
    obtain ⟨r, hr, hmem⟩ := exists_joinFlat_eq_append ts (joinNew l (d.flat t))
    refine ⟨(d.flat t).filter (fun p => p ∉ l) ++ r, ?_, fun p hp => ?_⟩
    · rw [joinFlat, List.foldl_cons, ← joinFlat, hr, joinNew, List.append_assoc]
    · rcases List.mem_append.1 hp with hp | hp
      · exact ⟨t, List.mem_cons_self, (List.mem_filter.1 hp).1⟩
      · obtain ⟨u, hu, hp⟩ := hmem p hp
        exact ⟨u, List.mem_cons_of_mem t hu, hp⟩

/-- **A flat list starts with what the object declared**, and the object owns nothing after it. -/
theorem Declared.exists_flat_eq_append (hd : d.Declared) (h : d.Grounded name) :
    ∃ inherited, d.flat name = d.own name ++ inherited ∧ ∀ p ∈ inherited, p.owner ≠ name := by
  obtain ⟨inherited, heq, hmem⟩ := exists_joinFlat_eq_append (d.supers name) (d.own name)
  refine ⟨inherited, by rw [h.flat_eq, heq], fun p hp howner => ?_⟩
  -- what comes from a super type is owned by an ancestor, which is not the object itself
  obtain ⟨t, ht, hp⟩ := hmem p hp
  obtain ⟨a, ha, hpa⟩ := (grounded_iff.1 h t ht).mem_flat_iff.1 hp
  rw [hd.owner_of_mem_own hpa] at howner
  exact h.not_ancestor ht (howner ▸ ha)

/-- **Of its flat list, an object owns what it declared.** -/
theorem Declared.filter_flat (hd : d.Declared) (h : d.Grounded name) :
    (d.flat name).filter (fun p => p.owner == name) = d.own name := by
  obtain ⟨inherited, heq, hforeign⟩ := hd.exists_flat_eq_append h
  rw [heq, List.filter_append,
    List.filter_eq_self.2 fun p hp => beq_iff_eq.2 (hd.owner_of_mem_own hp),
    List.filter_eq_nil_iff.2 fun p hp e => hforeign p hp (beq_iff_eq.1 e), List.append_nil]

/-! ### Flat lists in two schemas -/

/-- **What an object has in the end is a matter of its ancestors**: where they declare the same
properties and the same super types, the flat lists are the same. -/
theorem Grounded.flat_congr {d' : Schema} (h : d.Grounded name)
    (hsame : ∀ a, d.Ancestor name a → d'.own a = d.own a ∧ d'.supers a = d.supers a) :
    d'.Grounded name ∧ d'.flat name = d.flat name := by
  induction h with
  | intro n hacc ih =>
    have hg : d.Grounded n := .intro n hacc
    obtain ⟨hown, hsupers⟩ := hsame n (.refl n)
    have hstep : ∀ t, d.Super n t → d'.Grounded t ∧ d'.flat t = d.flat t := fun t ht =>
      ih t ht fun a ha => hsame a (.head ht ha)
    have hg' : d'.Grounded n := grounded_iff.2 fun t ht =>
      (hstep t (by rwa [Super, hsupers] at ht)).1
    refine ⟨hg', ?_⟩
    rw [hg.flat_eq, hg'.flat_eq, hown, hsupers, joinFlat, joinFlat]
    exact List.foldl_ext _ _ _ fun l t ht => by rw [(hstep t ht).2]

end Schema
end SchemaLang
