import SchemaLang.Proofs.Declaration.Determined
import SchemaLang.Proofs.Inheritance.Resolution

/-!
# The indexes of a compiled schema

Everything in a schema is stored twice: the objects under their names and, by name, under their
codes; the properties of an object under their names and under their codes; and a property that
is inherited stands in its owner as well.  In a compiled schema all of these agree.

* `Schema.Indexed`: the two indexes of the objects agree.  This is so at every moment of resolving
  inheritance (`Partial.indexed`), since only lists of properties and sub types change.
* `ObjectType.Indexed`: the two indexes of the properties of an object agree.  This is what it
  means that they come from one list (`Holds.indexed`).
* `Schema.Shared`: a property is the very one that its owner has, and the owner is the object
  itself or an ancestor.  This holds in the end, when all lists are flat.
-/

namespace SchemaLang

/-! ### Indexes that agree -/

/-- Both indexes of the object have the same properties, each under its own name and under its own
code. -/
structure ObjectType.Indexed (o : ObjectType) : Prop where
  name : ∀ n p, (n, p) ∈ o.properties.entries → p.name = n
  code : ∀ c p, (c, p) ∈ o.propertiesByCode.entries → p.code = c
  same : ∀ p, p ∈ o.properties.values ↔ p ∈ o.propertiesByCode.values
  property?_iff : ∀ n p, o.property? n = some p ↔ o.propertyByCode? p.code = some p ∧ p.name = n

/-- **An object that holds a list of properties has indexes that agree.** -/
theorem ObjectType.Holds.indexed {o : ObjectType} {l : List Property} (h : o.Holds l) :
    o.Indexed where
  name := fun n p hp => (h.property?_eq_some_iff.1 (OrderedMap.get?_eq_some_iff.2 hp)).2
  code := fun c p hp => ((h.byCode c p).1 hp).2
  same := by
    intro p
    rw [h.values, CodeMap.values, List.mem_map]
    constructor
    · exact fun hp => ⟨(p.code, p), (h.byCode p.code p).2 ⟨hp, rfl⟩, rfl⟩
    · rintro ⟨e, he, rfl⟩
      exact ((h.byCode e.1 e.2).1 he).1
  property?_iff := by
    intro n p
    rw [h.property?_eq_some_iff, h.propertyByCode?_eq_some_iff]
    exact ⟨fun hp => ⟨⟨hp.1, rfl⟩, hp.2⟩, fun hp => ⟨hp.1.1, hp.2⟩⟩

namespace Schema

variable {d s : Schema} {name : String} {p : Property}

/-- Each object stands under its own name, and the index of codes has the code and the name of
each object and nothing else; no two objects share a code. -/
structure Indexed (s : Schema) : Prop where
  name : ∀ n o, (n, o) ∈ s.objects.entries → o.name = n
  codes : ∀ c n, (c, n) ∈ s.codes.entries ↔ ∃ o ∈ s.objectList, o.code = c ∧ o.name = n
  nodup_codes : (s.objectList.map ObjectType.code).Nodup
  objectByCode?_iff : ∀ c o, s.objectByCode? c = some o ↔ o ∈ s.objectList ∧ o.code = c

theorem Named.indexed (h : s.Named)
    (hcodes : ∀ {c n}, s.codes.get? c = some n ↔ ∃ o, s.object? n = some o ∧ o.code = c) :
    s.Indexed := by
  have hbyCode : ∀ c o, s.objectByCode? c = some o ↔ o ∈ s.objectList ∧ o.code = c := by
    intro c o
    rw [objectByCode?, Option.bind_eq_some_iff]
    constructor
    · rintro ⟨n, hn, ho⟩
      obtain ⟨o', ho', hc⟩ := hcodes.1 hn
      obtain rfl : o = o' := Option.some.inj (ho.symm.trans ho')
      exact ⟨mem_objectList_iff.2 ⟨n, ho⟩, hc⟩
    · rintro ⟨ho, hc⟩
      exact ⟨o.name, hcodes.2 ⟨o, h.object?_name ho, hc⟩, h.object?_name ho⟩
  refine ⟨fun n o ho => h n o (OrderedMap.get?_eq_some_iff.2 ho), fun c n => ?_, ?_, hbyCode⟩
  · rw [← CodeMap.get?_eq_some_iff, hcodes]
    constructor
    · rintro ⟨o, ho, hc⟩
      exact ⟨o, mem_objectList_iff.2 ⟨n, ho⟩, hc, h n o ho⟩
    · rintro ⟨o, ho, hc, rfl⟩
      exact ⟨o, h.object?_name ho, hc⟩
  · -- two objects of one code would both be found under it
    refine List.Nodup.map_on (fun a ha b hb e => ?_) h.nodup_objectList
    have hfind := (hbyCode b.code a).2 ⟨ha, e⟩
    exact Option.some.inj (hfind.symm.trans ((hbyCode b.code b).2 ⟨hb, rfl⟩))

/-! ### On the way -/

namespace Partial

theorem named (h : d.Partial s) (hd : d.Declared) : s.Named := fun _ _ => h.name_eq hd

theorem codes_get? (h : d.Partial s) (hd : d.Declared) {c : Code} {n : String} :
    s.codes.get? c = some n ↔ ∃ o, s.object? n = some o ∧ o.code = c := by
  rw [h.codes, hd.code]
  constructor
  · rintro ⟨o', ho', hc⟩
    obtain ⟨o, ho, hhead⟩ := h.exists_header_eq ho'
    exact ⟨o, ho, (ObjectType.header_eq_iff.1 hhead).2.1.trans hc⟩
  · rintro ⟨o, ho, hc⟩
    obtain ⟨o', ho', hhead⟩ := h.header ho
    exact ⟨o', ho', (ObjectType.header_eq_iff.1 hhead).2.1.symm.trans hc⟩

/-- **The indexes of the objects agree at every moment.** -/
theorem indexed (h : d.Partial s) (hd : d.Declared) : s.Indexed :=
  (h.named hd).indexed (h.codes_get? hd)

theorem supers_eq (h : d.Partial s) : s.supers name = d.supers name := by
  have hdeclares : s.declares = d.declares := funext fun n =>
    Bool.eq_iff_iff.2 h.declares_iff
  cases ho : s.object? name with
  | none =>
    have hnone : d.object? name = none := by
      rw [object?_eq_none_iff, ← h.keys, ← object?_eq_none_iff]
      exact ho
    rw [supers_of_none ho, supers_of_none hnone]
  | some o =>
    obtain ⟨o', ho', hhead⟩ := h.header ho
    rw [supers_of_object ho, supers_of_object ho', (ObjectType.header_eq_iff.1 hhead).2.2,
      hdeclares]

theorem super_eq (h : d.Partial s) : s.Super = d.Super := by
  funext n t
  rw [Super, Super, h.supers_eq]

theorem ancestor_iff (h : d.Partial s) {a : String} : s.Ancestor name a ↔ d.Ancestor name a := by
  rw [Ancestor, Ancestor, h.super_eq]

end Partial

/-! ### In the end -/

/-- Each property of an object is the very one that its owner has, under its name and under its
code, and the owner is the object itself or one of its direct or indirect super types.  Two
properties of one owner and one name are one, wherever they stand. -/
structure Shared (s : Schema) : Prop where
  owner : ∀ o ∈ s.objectList, ∀ p ∈ o.properties.values,
    ∃ w ∈ s.objectList, w.name = p.owner ∧ s.Ancestor o.name w.name ∧
      w.property? p.name = some p ∧ w.propertyByCode? p.code = some p
  one : ∀ o ∈ s.objectList, ∀ o' ∈ s.objectList,
    ∀ p ∈ o.properties.values, ∀ q ∈ o'.properties.values,
      p.owner = q.owner → p.name = q.name → p = q

/-- **With flat lists everywhere, properties are shared.** -/
theorem Partial.shared (h : d.Partial s) (hd : d.Declared) (hg : ∀ n, d.Grounded n)
    (hflat : ∀ n o, s.object? n = some o → o.Holds (d.flat n)) : s.Shared := by
  have hnamed := h.named hd
  have hancestor : ∀ {o}, o ∈ s.objectList → ∀ p ∈ o.properties.values,
      d.Ancestor o.name p.owner ∧ p ∈ d.own p.owner := by
    intro o ho p hp
    rw [(hflat _ o (hnamed.object?_name ho)).values] at hp
    obtain ⟨a, ha, hpa⟩ := (hg o.name).mem_flat_iff.1 hp
    rw [hd.owner_of_mem_own hpa]
    exact ⟨ha, hpa⟩
  refine ⟨fun o ho p hp => ?_, fun o ho o' ho' p hp q hq howner hname => ?_⟩
  · obtain ⟨ha, hown⟩ := hancestor ho p hp
    have hdeclares : d.declares p.owner = true := by
      by_contra hn
      have hnone : d.object? p.owner = none := by
        rw [← Option.not_isSome_iff_eq_none]
        exact hn
      rw [own_of_none hnone] at hown
      cases hown
    obtain ⟨w, hw⟩ := h.exists_object hdeclares
    have hl := hflat _ w hw
    have hmem : p ∈ d.flat p.owner := (hg p.owner).own_subset p hown
    refine ⟨w, mem_objectList_iff.2 ⟨_, hw⟩, hnamed _ w hw, ?_,
      hl.property?_eq_some_iff.2 ⟨hmem, rfl⟩, hl.propertyByCode?_eq_some_iff.2 ⟨hmem, rfl⟩⟩
    rw [hnamed _ w hw, h.ancestor_iff]
    exact ha
  · exact hd.eq_of_isSame (hancestor ho p hp).2 (hancestor ho' q hq).2
      (Property.isSame_iff.2 ⟨howner, hname⟩)

end Schema

open Outline (Node)

variable {options : Options} {nodes : List Node} {s : Schema}

/-- **All indexes of a compiled schema agree,** and a property that is inherited is the very one
of its owner. -/
theorem compile_indexes (h : (compile options nodes).result = .ok s) :
    s.Indexed ∧ (∀ o ∈ s.objectList, o.Indexed) ∧ s.Shared := by
  obtain ⟨d, hdecl, _, hs⟩ := compile_eq_ok_iff.1 h
  have hd := declared_of_declareAll hdecl
  obtain ⟨hp, hacyclic, _, hflat⟩ := hd.of_resolve hs
  refine ⟨hp.indexed hd, fun o ho => ?_, hp.shared hd (Schema.acyclic_iff_grounded.1 hacyclic) hflat⟩
  obtain ⟨n, hn⟩ := Schema.mem_objectList_iff.1 ho
  exact (hflat n o hn).indexed

/-- The diamond, with the property at its top declared a second time by another type. -/
def redeclaredDiamond : List Node :=
  diamond ++ [{ words := ["top", "1"], line := "top 1", lineNumber := 8
                children := [⟨["id", "int", "1", "renewed"], [], "id int 1 renewed", 9⟩] }]

theorem redeclaredDiamond_indexed : ∃ s, (compile {} redeclaredDiamond).result = .ok s ∧
    (s.Indexed ∧ (∀ o ∈ s.objectList, o.Indexed) ∧ s.Shared) ∧
    s.codes.entries = [(1, "top"), (2, "left"), (3, "right"), (4, "bottom")] ∧
    (s.object? "bottom").map (fun o => o.propertiesByCode.entries.map fun e =>
      (e.1, e.2.owner, e.2.name)) =
        some [(1, "top", "id"), (2, "left", "l"), (3, "right", "r")] := by
  have hindexes : (compile {} redeclaredDiamond).result.toOption.map (fun s =>
      (s.codes.entries, (s.object? "bottom").map fun o => o.propertiesByCode.entries.map fun e =>
        (e.1, e.2.owner, e.2.name))) =
      some ([(1, "top"), (2, "left"), (3, "right"), (4, "bottom")],
        some [(1, "top", "id"), (2, "left", "l"), (3, "right", "r")]) := by decide +kernel
  cases hs : (compile {} redeclaredDiamond).result with
  | error e => rw [hs] at hindexes; cases hindexes
  | ok s =>
    rw [hs] at hindexes
    obtain ⟨hcodes, hbottom⟩ := Prod.mk.inj (Option.some.inj hindexes)
    exact ⟨s, rfl, compile_indexes hs, hcodes, hbottom⟩

end SchemaLang
