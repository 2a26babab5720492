import SchemaLang.Proofs.Declaration.Extension
import SchemaLang.Proofs.Inheritance.SubTypes

/-!
# One more object

A declared schema gets one more object, and no other object has it for a super type.  Then nobody
comes up to it from an old object: the old objects keep their ancestors, their own properties and
so their flat lists.  Inheritance is resolved to what it was resolved to before, but that the super
types of the new object know it (`Extends.resolve`).

* `compile_insert_unrelated`: to put a node of an unrelated object into an outline, anywhere,
  extends the compiled schema and changes nothing else.
-/

namespace SchemaLang

namespace Schema

variable {d d' s s' : Schema} {name n m t a : String} {b : ObjectType}

namespace Extends

/-! ### Old objects keep their ancestors -/

theorem object?_eq_none (h : d.Extends name d') : d.object? name = none := by
  rw [object?_eq_none_iff, ← h.keys]
  simp

theorem ne_of_declares (h : d.Extends name d') (hn : d.declares n = true) : n ≠ name := by
  rintro rfl
  obtain ⟨o, ho⟩ := declares_iff.1 hn
  rw [h.object?_eq_none] at ho
  cases ho

theorem declares_eq (h : d.Extends name d') (hn : n ≠ name) : d'.declares n = d.declares n :=
  congrArg Option.isSome (h.object n hn)

theorem own_eq (h : d.Extends name d') (hn : n ≠ name) : d'.own n = d.own n := by
  rw [own, own, h.object n hn]

theorem supers_eq (h : d.Extends name d') (hn : n ≠ name) : d'.supers n = d.supers n := by
  cases ho : d.object? n with
  | none => rw [supers_of_none ho, supers_of_none ((h.object n hn).trans ho)]
  | some o =>
    rw [supers_of_object ho, supers_of_object ((h.object n hn).trans ho)]
    refine List.filter_congr fun t ht => h.declares_eq ?_
    -- the new object is no super type of an old one
    rintro rfl
    exact h.unnamed n o ho ht

theorem ne_of_ancestor (h : d.Extends name d') (hn : n ≠ name) (ha : d.Ancestor n a) :
    a ≠ name := by
  rcases ha.cases_tail with rfl | ⟨_, _, ha⟩
  · exact hn
  · exact h.ne_of_declares (Super.declares_right ha)

/-- **The old flat lists stay.** -/
theorem flat_eq (h : d.Extends name d') (hg : d.Grounded n) (hn : n ≠ name) :
    d'.flat n = d.flat n := by
  refine (hg.flat_congr fun a ha => ?_).2
  have ha := h.ne_of_ancestor hn ha
  exact ⟨h.own_eq ha, h.supers_eq ha⟩

/-- **An old object has one more sub type** if it is a super type of the new object. -/
theorem super_iff (h : d.Extends name d') (hb : d'.object? name = some b)
    (ht : d.declares t = true) :
    d'.Super m t ↔ d.Super m t ∨ (m = name ∧ t ∈ b.superTypes) := by
  by_cases hm : m = name
  · subst hm
    have hold : ¬d.Super m t := fun hs => h.ne_of_declares hs.declares_left rfl
    have hdeclares : d'.declares t = true := (h.declares_eq (h.ne_of_declares ht)).trans ht
    rw [Schema.super_iff, hb]
    simp [hold, hdeclares]
  · rw [Super, Super, h.supers_eq hm]
    simp [hm]

end Extends

/-! ### In the end -/

/-- The second schema has the objects of the first one in their order and, somewhere among them, one
more.  Of the old objects, the super types of the new one have come to know it, and nothing else has
changed. -/
structure ExtendedBy (name : String) (superTypes : OrderedSet String) (s s' : Schema) : Prop where
  keys : s'.objects.keys.filter (fun n => n ≠ name) = s.objects.keys
  new : s'.declares name = true
  object : ∀ n o, s.object? n = some o →
    ∃ subTypes, s'.object? n = some { o with subTypes := subTypes } ∧ name ∉ o.subTypes ∧
      ∀ t, t ∈ subTypes ↔ t ∈ o.subTypes ∨ (t = name ∧ n ∈ superTypes)

/-- **What a schema with one more object is resolved to.** -/
theorem Extends.resolve (h : d.Extends name d') (hb : d'.object? name = some b) (hd : d.Declared)
    (hd' : d'.Declared) (hs : d.resolve.result = .ok s) (hs' : d'.resolve.result = .ok s') :
    s.ExtendedBy name b.superTypes s' := by
  obtain ⟨hp, hacyclic, _, hflat⟩ := hd.of_resolve hs
  obtain ⟨hp', _, _, hflat'⟩ := hd'.of_resolve hs'
  refine ⟨by rw [hp.keys, hp'.keys, h.keys], hp'.declares_iff.2 h.new, fun n o ho => ?_⟩
  obtain ⟨o₀, ho₀, hhead⟩ := hp.header ho
  have hn : d.declares n = true := declares_iff.2 ⟨o₀, ho₀⟩
  have hne : n ≠ name := h.ne_of_declares hn
  have ho₀' : d'.object? n = some o₀ := (h.object n hne).trans ho₀
  obtain ⟨o', ho', hhead'⟩ := hp'.exists_header_eq ho₀'
  have hl : o'.Holds (d.flat n) :=
    h.flat_eq (acyclic_iff_grounded.1 hacyclic n) hne ▸ hflat' n o' ho'
  have hsame : o' = { o with subTypes := o'.subTypes } :=
    hl.ext ((hflat n o ho).of_indexes_eq rfl rfl) (hhead'.trans hhead.symm) rfl
  refine ⟨o'.subTypes, ho'.trans (congrArg some hsame), fun hmem => ?_, fun t => ?_⟩
  · exact h.ne_of_declares ((hd.mem_subTypes_iff hs ho).1 hmem).declares_left rfl
  · rw [hd'.mem_subTypes_iff hs' ho', hd.mem_subTypes_iff hs ho, h.super_iff hb hn]

end Schema

open Outline (Node)

variable {options : Options} {before after : List Node} {node : Node} {name : String}
  {s s' : Schema}

/-- **A node of an unrelated object extends the schema** by that object, wherever it stands.  The
super types that it lists come to know the object as their sub type, and nothing else changes. -/
theorem compile_insert_unrelated (hname : node.name? = some name)
    (hkept : ¬(options.skipDerived = true ∧ node.Derived))
    (hnew : Outline.Unrelated name (options.declared (before ++ after)))
    (hs : (compile options (before ++ after)).result = .ok s)
    (hs' : (compile options (before ++ node :: after)).result = .ok s') :
    s.ExtendedBy name (OrderedSet.ofList (node.words.drop 2)) s' ∧
      ∃ b o, ObjectType.ofNode options node = .ok b ∧ s'.object? name = some o ∧
        o.header = b.header ∧ o.ownProperties = b.properties.values := by
  obtain ⟨d, hdecl, _, hs⟩ := compile_eq_ok_iff.1 hs
  obtain ⟨d', hdecl', _, hs'⟩ := compile_eq_ok_iff.1 hs'
  obtain ⟨b, hb, h, hobject⟩ := extends_of_declareAll hname hkept hnew hdecl hdecl'
  have hd' := declared_of_declareAll hdecl'
  obtain ⟨_, _, _, hsuper, _⟩ := ObjectType.ofNode_eq_ok_iff.1 hb
  refine ⟨hsuper ▸ h.resolve hobject (declared_of_declareAll hdecl) hd' hs hs', b, ?_⟩
  obtain ⟨hp, _⟩ := hd'.of_resolve hs'
  obtain ⟨o, ho, hhead⟩ := hp.exists_header_eq hobject
  refine ⟨o, hb, ho, hhead, ?_⟩
  rw [hd'.ownProperties_of_resolve hs' ho, Schema.own_of_object hobject]

/-- An object beside the diamond, with the smallest code, which inherits from its top. -/
def besideDiamond : Node :=
  { words := ["beside", "0", "top", "nowhere"], line := "beside 0 top nowhere", lineNumber := 5
    children := [⟨["b", "left", "4", "new"], [], "b left 4 new", 6⟩] }

theorem besideDiamond_extends : ∃ s s',
    (compile {} (diamond.take 2 ++ diamond.drop 2)).result = .ok s ∧
      (compile {} (diamond.take 2 ++ besideDiamond :: diamond.drop 2)).result = .ok s' ∧
        s.ExtendedBy "beside" (OrderedSet.ofList ["top", "nowhere"]) s' := by
  have hok : (compile {} (diamond.take 2 ++ diamond.drop 2)).result.toOption.isSome := by
    decide +kernel
  have hok' :
      (compile {} (diamond.take 2 ++ besideDiamond :: diamond.drop 2)).result.toOption.isSome := by
    decide +kernel
  have hnew :
      Outline.Unrelated "beside" (Options.declared {} (diamond.take 2 ++ diamond.drop 2)) := by
    simp [Outline.Unrelated, Options.declared, diamond, Node.name?]
  cases hs : (compile {} (diamond.take 2 ++ diamond.drop 2)).result with
  | error e => rw [hs] at hok; cases hok
  | ok s =>
    cases hs' : (compile {} (diamond.take 2 ++ besideDiamond :: diamond.drop 2)).result with
    | error e => rw [hs'] at hok'; cases hok'
    | ok s' => exact ⟨s, s', rfl, rfl, (compile_insert_unrelated rfl (by decide) hnew hs hs').1⟩

end SchemaLang
