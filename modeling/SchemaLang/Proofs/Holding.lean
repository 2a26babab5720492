import SchemaLang.Proofs.Placing
import Mathlib.Data.List.Nodup

/-!
# What an object holds

An object type keeps its properties twice, under their names and under their
codes.  `o.Holds l` says that both indexes come from one list `l`: the first one in
the order of `l`, the second one in the order of the codes.

Everything that is looked up in such an object is then a statement about `l`, which is
the list of its values (`Holds.values`).

* `Holds.property?_eq_some_iff`, `Holds.propertyByCode?_eq_some_iff`: finding is
  being in the list.
* `Holds.pairwise_apart`: no two properties of the list share a name or a code.
* `Holds.insertProperty`, `Holds.insertProperties`: inserting a property is `place` on
  the list, provided that it agrees with what is there.
-/

namespace SchemaLang

namespace ObjectType

def insertProperties (o : ObjectType) (ps : List Property) : ObjectType :=
  ps.foldl insertProperty o

/-- The object has exactly the properties of `l`, under their names in the order of
`l`, and under their codes. -/
structure Holds (o : ObjectType) (l : List Property) : Prop where
  byName : o.properties.entries = l.map fun p => (p.name, p)
  byCode : ∀ c p, (c, p) ∈ o.propertiesByCode.entries ↔ p ∈ l ∧ p.code = c

theorem property?_eq_some_iff_of_byName {o : ObjectType} {l : List Property} {p : Property}
    (h : o.properties.entries = l.map fun p => (p.name, p)) {name : String} :
    o.property? name = some p ↔ p ∈ l ∧ p.name = name := by
  rw [property?, OrderedMap.get?_eq_some_iff, h, List.mem_map]
  constructor
  · rintro ⟨q, hq, e⟩
    cases e
    exact ⟨hq, rfl⟩
  · rintro ⟨hp, rfl⟩
    exact ⟨p, hp, rfl⟩

theorem propertyByCode?_eq_some_iff_of_byCode {o : ObjectType} {l : List Property} {p : Property}
    (h : ∀ c p, (c, p) ∈ o.propertiesByCode.entries ↔ p ∈ l ∧ p.code = c) {code : Code} :
    o.propertyByCode? code = some p ↔ p ∈ l ∧ p.code = code := by
  rw [propertyByCode?, CodeMap.get?_eq_some_iff, h]

namespace Holds

variable {o : ObjectType} {l ps : List Property} {p q : Property}

theorem values (h : o.Holds l) : o.properties.values = l := by
  rw [OrderedMap.values, h.byName, List.map_map]
  exact List.map_id l

theorem nodup_names (h : o.Holds l) : (l.map Property.name).Nodup := by
  have hd := o.properties.nodup_keys
  rwa [Entries.keys, h.byName, List.map_map] at hd

theorem nodup (h : o.Holds l) : l.Nodup :=
  (List.pairwise_map.1 h.nodup_names).imp fun hne e => hne (congrArg Property.name e)

/-! #### Looking up -/

theorem property?_eq_some_iff (h : o.Holds l) {name : String} :
    o.property? name = some p ↔ p ∈ l ∧ p.name = name :=
  property?_eq_some_iff_of_byName h.byName

theorem propertyByCode?_eq_some_iff (h : o.Holds l) {code : Code} :
    o.propertyByCode? code = some p ↔ p ∈ l ∧ p.code = code :=
  propertyByCode?_eq_some_iff_of_byCode h.byCode

theorem property?_eq_none_iff (h : o.Holds l) {name : String} :
    o.property? name = none ↔ ∀ p ∈ l, p.name ≠ name := by
  rw [Option.eq_none_iff_forall_not_mem]
  exact ⟨fun hn p hp e => hn p (h.property?_eq_some_iff.2 ⟨hp, e⟩),
    fun hn p hp => hn p (h.property?_eq_some_iff.1 hp).1 (h.property?_eq_some_iff.1 hp).2⟩

theorem propertyByCode?_eq_none_iff (h : o.Holds l) {code : Code} :
    o.propertyByCode? code = none ↔ ∀ p ∈ l, p.code ≠ code := by
  rw [Option.eq_none_iff_forall_not_mem]
  exact ⟨fun hn p hp e => hn p (h.propertyByCode?_eq_some_iff.2 ⟨hp, e⟩),
    fun hn p hp =>
      hn p (h.propertyByCode?_eq_some_iff.1 hp).1 (h.propertyByCode?_eq_some_iff.1 hp).2⟩

theorem eq_of_name_eq (h : o.Holds l) (hp : p ∈ l) (hq : q ∈ l) (e : p.name = q.name) : p = q :=
  Option.some.inj <|
    (h.property?_eq_some_iff.2 ⟨hp, e⟩).symm.trans (h.property?_eq_some_iff.2 ⟨hq, rfl⟩)

theorem eq_of_code_eq (h : o.Holds l) (hp : p ∈ l) (hq : q ∈ l) (e : p.code = q.code) : p = q :=
  Option.some.inj <|
    (h.propertyByCode?_eq_some_iff.2 ⟨hp, e⟩).symm.trans
      (h.propertyByCode?_eq_some_iff.2 ⟨hq, rfl⟩)

theorem agrees (h : o.Holds l) (hp : p ∈ l) (hq : q ∈ l) : p.Agrees q :=
  ⟨fun e => congrArg _ (h.eq_of_name_eq hp hq e), fun e => congrArg _ (h.eq_of_code_eq hp hq e)⟩

/-- **No two properties of an object share a name or a code.** -/
theorem pairwise_apart (h : o.Holds l) : l.Pairwise Property.Apart :=
  h.nodup.imp_of_mem fun hp hq hne =>
    ⟨fun e => hne (h.eq_of_name_eq hp hq e), fun e => hne (h.eq_of_code_eq hp hq e)⟩

theorem filter_name (h : o.Holds l) (hp : p ∈ l) : l.filter (fun q => q.name = p.name) = [p] := by
  have heq : l.filter (fun q => q.name = p.name) = l.filter (fun q => q = p) :=
    List.filter_congr fun q hq => decide_eq_decide.2
      ⟨fun e => h.eq_of_name_eq hq hp e, fun e => congrArg Property.name e⟩
  rw [heq, List.filter_eq, List.count_eq_one_of_mem h.nodup hp, List.replicate_one]

/-! #### Building -/

theorem of_indexes_eq {o' : ObjectType} (h : o.Holds l) (hn : o'.properties = o.properties)
    (hc : o'.propertiesByCode = o.propertiesByCode) : o'.Holds l :=
  ⟨by rw [hn]; exact h.byName, by rw [hc]; exact h.byCode⟩

theorem nil (hn : o.properties = ∅) (hc : o.propertiesByCode = ∅) : o.Holds [] :=
  ⟨by rw [hn]; rfl, by rw [hc]; intro c p; simp⟩

theorem indexes_eq {o' : ObjectType} (h : o.Holds l) (h' : o'.Holds l) :
    o.properties = o'.properties ∧ o.propertiesByCode = o'.propertiesByCode :=
  ⟨OrderedMap.ext (h.byName.trans h'.byName.symm),
    CodeMap.ext_mem fun e => (h.byCode e.1 e.2).trans (h'.byCode e.1 e.2).symm⟩

/-- **Inserting a property is `place` on the list,** when the property of its name and
the property of its code are the same one. -/
theorem insertProperty (h : o.Holds l) (hp : ∀ q ∈ l, q.Agrees p) :
    (o.insertProperty p).Holds (Property.place p l) := by
  refine ⟨?_, fun c r => ?_⟩
  · change Entries.put p.name p o.properties.entries = _
    rw [h.byName, Property.put_entries]
  · change (c, r) ∈ (o.propertiesByCode.insert p.code p).entries ↔ _
    rw [CodeMap.mem_entries_insert, h.byCode, Property.mem_place h.nodup_names]
    constructor
    · rintro (⟨rfl, rfl⟩ | ⟨hc, hr, rfl⟩)
      · exact ⟨Or.inl rfl, rfl⟩
      · exact ⟨Or.inr ⟨hr, fun e => hc ((hp r hr).1 e)⟩, rfl⟩
    · rintro ⟨rfl | ⟨hr, hn⟩, rfl⟩
      · exact Or.inl ⟨rfl, rfl⟩
      · exact Or.inr ⟨fun e => hn ((hp r hr).2 e), hr, rfl⟩

theorem insertProperty_of_apart (h : o.Holds l) (hp : ∀ q ∈ l, q.Apart p) :
    (o.insertProperty p).Holds (l ++ [p]) := by
  rw [← Property.place_of_new fun q hq => (hp q hq).1]
  exact h.insertProperty fun q hq => (hp q hq).agrees

/-- What agrees with the properties agrees with them after one more was placed, if it
agrees with that one. -/
theorem agrees_place_iff (h : o.Holds l) (hp : ∀ r ∈ l, r.Agrees p)
    (hpq : p.Agrees q) : (∀ r ∈ Property.place p l, r.Agrees q) ↔ ∀ r ∈ l, r.Agrees q := by
  constructor
  · intro hall r hr
    by_cases hn : r.name = p.name
    · -- `p` has replaced `r`, but both have the same name and the same code
      have hc := (hp r hr).1 hn
      rw [Property.Agrees, hn, hc]
      exact hpq
    · exact hall r ((Property.mem_place h.nodup_names).2 (Or.inr ⟨hr, hn⟩))
  · intro hall r hr
    rcases Property.mem_of_mem_place hr with rfl | hr
    · exact hpq
    · exact hall r hr

/-- Several properties are inserted by `placeAll`. -/
theorem insertProperties (h : o.Holds l) (hl : ∀ q ∈ l, ∀ p ∈ ps, q.Agrees p)
    (hps : ps.Pairwise Property.Apart) :
    (ObjectType.insertProperties o ps).Holds (Property.placeAll ps l) := by
  induction ps generalizing o l with
  | nil => exact h
  | cons p ps ih =>
    obtain ⟨hp, hps⟩ := List.pairwise_cons.1 hps
    have hlp : ∀ q ∈ l, q.Agrees p := fun q hq => hl q hq p List.mem_cons_self
    have hrest : ∀ q ∈ ps, ∀ r ∈ Property.place p l, r.Agrees q := fun q hq =>
      (h.agrees_place_iff hlp (hp q hq).agrees).2 fun r hr => hl r hr q (List.mem_cons_of_mem p hq)
    exact ih (h.insertProperty hlp) (fun r hr q hq => hrest q hq r hr) hps

theorem insertProperties_of_apart (h : o.Holds l) (hl : ∀ q ∈ l, ∀ p ∈ ps, q.Apart p)
    (hps : ps.Pairwise Property.Apart) : (ObjectType.insertProperties o ps).Holds (l ++ ps) := by
  rw [← Property.placeAll_of_apart hl hps]
  exact h.insertProperties (fun q hq p hp => (hl q hq p hp).agrees) hps

end Holds
end ObjectType
end SchemaLang
