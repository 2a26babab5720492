import SchemaLang.Proofs.Inheritance.Takeover

/-!
# Schemas on the way

While objects are completed, the schema changes in few respects only.  The declared
schema `d` stays what it was in its codes, in its objects and their order, and in the
headers of the objects; what changes are the lists of properties, and the sub types.
`d.Partial s` says so of a schema `s` on the way, together with what the properties in it
are: each of them is an own property of its owner, so that two which are the same are
equal.

* `Partial.exists_inheritFrom`, `Partial.of_inheritFrom`: one super type is inherited
  from exactly when what shares a name or a code is one, and then one list of properties
  changes, to the joined list.
-/

namespace SchemaLang.Schema

open Property (joinNew OneByOne)

variable {d s s' : Schema} {name t m : String} {o : ObjectType} {p q : Property}

/-- **The schema `s` is on the way from `d`**: only lists of properties, and sub types,
have changed. -/
structure Partial (d s : Schema) : Prop where
  codes : s.codes = d.codes
  keys : s.objects.keys = d.objects.keys
  header : ∀ {n o}, s.object? n = some o → ∃ o', d.object? n = some o' ∧ o.header = o'.header
  holds : ∀ {n o}, s.object? n = some o → o.Holds o.properties.values
  genuine : ∀ n, ∀ p ∈ s.own n, p ∈ d.own p.owner

theorem Declared.partial_self (h : d.Declared) : d.Partial d where
  codes := rfl
  keys := rfl
  header := fun ho => ⟨_, ho, rfl⟩
  holds := fun ho => (h.object ho).holds
  genuine := fun n p hp => by
    rwa [h.owner_of_mem_own hp]

theorem Declared.eq_of_isSame (h : d.Declared) (hp : p ∈ d.own p.owner)
    (hq : q ∈ d.own q.owner) (hs : p.isSame q = true) : p = q := by
  obtain ⟨howner, hname⟩ := Property.isSame_iff.1 hs
  -- both are declared by one object, which has one property of a name
  rw [← howner] at hq
  cases ho : d.object? p.owner with
  | none => rw [own_of_none ho] at hp; cases hp
  | some o =>
    rw [own_of_object ho] at hp hq
    exact (h.object ho).holds.eq_of_name_eq hp hq hname

theorem own_setObject :
    (s.setObject name o).own m = if name = m then o.properties.values else s.own m := by
  rw [own, object?_setObject]
  by_cases h : name = m
  · rw [if_pos h, if_pos h]
  · rw [if_neg h, if_neg h, own]

theorem keys_setObject {o' : ObjectType} (h : s.object? name = some o') :
    (s.setObject name o).objects.keys = s.objects.keys :=
  OrderedMap.keys_insert_of_mem (mem_keys_iff.2 ⟨o', h⟩)

namespace Partial

theorem declares_iff (h : d.Partial s) : s.declares name = true ↔ d.declares name = true := by
  rw [declares, declares, OrderedMap.contains_iff_mem_keys, OrderedMap.contains_iff_mem_keys,
    h.keys]

theorem exists_object (h : d.Partial s) (hn : d.declares name = true) :
    ∃ o, s.object? name = some o :=
  Schema.declares_iff.1 (h.declares_iff.2 hn)

theorem header_eq {o' : ObjectType} (h : d.Partial s) (ho : s.object? name = some o)
    (ho' : d.object? name = some o') : o.header = o'.header := by
  obtain ⟨o'', ho'', hhead⟩ := h.header ho
  rw [hhead, Option.some.inj (ho'.symm.trans ho'')]

theorem exists_header_eq {o' : ObjectType} (h : d.Partial s) (ho' : d.object? name = some o') :
    ∃ o, s.object? name = some o ∧ o.header = o'.header := by
  obtain ⟨o, ho⟩ := h.exists_object (Schema.declares_iff.2 ⟨o', ho'⟩)
  exact ⟨o, ho, h.header_eq ho ho'⟩

theorem setObject {o' : ObjectType} (h : d.Partial s) (ho : s.object? name = some o)
    (hh : o'.header = o.header) {l : List Property} (hl : o'.Holds l)
    (hgen : ∀ p ∈ l, p ∈ d.own p.owner) : d.Partial (s.setObject name o') where
  codes := h.codes
  keys := (keys_setObject ho).trans h.keys
  header := by
    intro n a ha
    rw [object?_setObject] at ha
    split at ha
    · next e =>
      obtain ⟨b, hb, hob⟩ := h.header (e ▸ ho)
      cases ha
      exact ⟨b, hb, hh.trans hob⟩
    · exact h.header ha
  holds := by
    intro n a ha
    rw [object?_setObject] at ha
    split at ha
    · cases ha; rw [hl.values]; exact hl
    · exact h.holds ha
  genuine := by
    intro n p hp
    rw [own_setObject] at hp
    split at hp
    · rw [hl.values] at hp; exact hgen p hp
    · exact h.genuine n p hp

/-! ### Inheriting from one super type -/

theorem eq_of_isSame (h : d.Partial s) (hd : d.Declared) :
    ∀ p ∈ s.own name, ∀ q ∈ s.own t, p.isSame q = true → p = q :=
  fun p hp q hq => hd.eq_of_isSame (h.genuine name p hp) (h.genuine t q hq)

theorem inheritFrom_eq {st : ObjectType} (hne : name ≠ t) (ho : s.object? name = some o)
    (ht : s.object? t = some st) :
    (s.inheritFrom name t).result = (o.inherit st).result.bind fun o' =>
      .ok ((s.setObject t { st with subTypes := st.subTypes.insert name }).setObject name o') := by
  have ho' : (s.setObject t { st with subTypes := st.subTypes.insert name }).object? name =
      some o := by
    rw [object?_setObject, if_neg (Ne.symm hne)]; exact ho
  rw [inheritFrom, ht]
  dsimp only
  rw [ho']
  exact Logged.result_bind _ _

/-- **After a super type was inherited from,** one list of properties has been joined
with another. -/
theorem of_inheritFrom (h : d.Partial s) (hd : d.Declared) (hne : name ≠ t)
    (hname : d.declares name = true) (ht : d.declares t = true)
    (hs : (s.inheritFrom name t).result = .ok s') :
    d.Partial s' ∧ s'.own name = joinNew (s.own name) (s.own t) ∧
      ∀ m, m ≠ name → s'.own m = s.own m := by
  obtain ⟨o, ho⟩ := h.exists_object hname
  obtain ⟨st, hst⟩ := h.exists_object ht
  rw [inheritFrom_eq hne ho hst] at hs
  cases hinh : (o.inherit st).result with
  | error e => rw [hinh] at hs; cases hs
  | ok o' =>
    rw [hinh] at hs
    obtain rfl := Except.ok.inj hs
    have hsame : ∀ p ∈ s.own name, ∀ q ∈ s.own t, p.isSame q = true → p = q :=
      h.eq_of_isSame hd
    rw [own_of_object ho, own_of_object hst] at hsame
    obtain ⟨_, _, hl, hhead, _⟩ :=
      (ObjectType.inherit_eq_ok_iff (h.holds ho) (h.holds hst) hsame).1 hinh
    have hsub : d.Partial (s.setObject t { st with subTypes := st.subTypes.insert name }) :=
      h.setObject hst rfl ((h.holds hst).of_indexes_eq rfl rfl) fun p hp =>
        h.genuine t p (own_of_object hst ▸ hp)
    refine ⟨hsub.setObject (o := o) ?_ hhead hl fun p hp => ?_, ?_, fun m hm => ?_⟩
    · rw [object?_setObject, if_neg (Ne.symm hne)]; exact ho
    · rcases Property.mem_joinNew.1 hp with hp | hp
      · exact h.genuine name p (own_of_object ho ▸ hp)
      · exact h.genuine t p (own_of_object hst ▸ hp)
    · rw [own_setObject, if_pos rfl, hl.values, own_of_object ho, own_of_object hst]
    · rw [own_setObject, if_neg (Ne.symm hm), own_setObject]
      split
      · next e => rw [← e, own_of_object hst]
      · rfl

/-- A super type can be inherited from when what shares a name or a code is one. -/
theorem exists_inheritFrom (h : d.Partial s) (hd : d.Declared) (hne : name ≠ t)
    (hname : d.declares name = true) (ht : d.declares t = true)
    (hn : OneByOne Property.name (s.own name) (s.own t))
    (hc : OneByOne Property.code (s.own name) (s.own t)) :
    ∃ s', (s.inheritFrom name t).result = .ok s' := by
  obtain ⟨o, ho⟩ := h.exists_object hname
  obtain ⟨st, hst⟩ := h.exists_object ht
  have hsame : ∀ p ∈ s.own name, ∀ q ∈ s.own t, p.isSame q = true → p = q :=
    h.eq_of_isSame hd
  rw [own_of_object ho, own_of_object hst] at hsame hn hc
  obtain ⟨o', ho'⟩ := ObjectType.exists_inherit (h.holds ho) (h.holds hst) hsame hn hc
  rw [inheritFrom_eq hne ho hst, ho']
  exact ⟨_, rfl⟩

end Partial
end SchemaLang.Schema
