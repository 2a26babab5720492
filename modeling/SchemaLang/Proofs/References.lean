import SchemaLang.Proofs.Declaration.Determined
import SchemaLang.Proofs.Inheritance.Resolution

/-!
# Which references are checked

The references of a schema are checked after all blocks are merged and before anything is
inherited.  So what counts is what the merging leaves: of the lines that define one property of one
object, the last one, in the place of the first.  These references are read off the blocks here
(`Outline.references`), without a word about merging, and the check looks at them in this order.

* `Schema.Collects.references_eq`: the references of a merged schema are those of its blocks.
* `Schema.checkReferences_eq_missingObjectType_iff`: the reference that is reported is the first
  one whose target is not declared.
* `Schema.Declared.mem_keys_of_resolve`: inheriting brings no reference that was not checked.
-/

namespace SchemaLang

open Outline (Node)
open ObjectType (blocksOf propertiesOf)

/-! ### The references of an outline -/

namespace Outline

def Node.definition? (line : Node) : Option (String × TypeExpr) :=
  match line.words with
  | name :: typeText :: _ => some (name, TypeExpr.ofText typeText)
  | _ => none

def objectNames (nodes : List Node) : List String := (nodes.filterMap Node.name?).eraseDups

def definitions (blocks : List Node) : List (String × TypeExpr) :=
  blocks.flatMap fun block => block.children.filterMap Node.definition?

def definitionsOf (nodes : List Node) (object : String) : List (String × TypeExpr) :=
  definitions (nodes.filter fun node => node.name? = some object)

/-- The type that a property of an object has in the end: the last one it is given. -/
def lastType? (nodes : List Node) (object property : String) : Option TypeExpr :=
  ((definitionsOf nodes object).filter fun d => d.1 = property).getLast?.map Prod.snd

/-- **The references of an outline**: objects and properties stand where their names first occur,
and only the last type of a property counts. -/
def references (nodes : List Node) : List Reference :=
  (objectNames nodes).flatMap fun object =>
    ((definitionsOf nodes object).map Prod.fst).eraseDups.flatMap fun property =>
      (lastType? nodes object property).toList.flatMap fun type =>
        type.references.map fun target => ⟨object, property, target⟩

theorem exists_lastType?_of_mem_references {nodes : List Node} {r : Reference}
    (h : r ∈ references nodes) :
    ∃ type, lastType? nodes r.object r.property = some type ∧ r.target ∈ type.references := by
  simp only [references, List.mem_flatMap, List.mem_map, Option.mem_toList] at h
  obtain ⟨object, _, property, _, type, htype, target, htarget, rfl⟩ := h
  exact ⟨type, htype, htarget⟩

end Outline

/-! ### What merging leaves -/

theorem Property.definition?_of_ofNode {options : Options} {owner : String} {line : Node}
    {p : Property} (h : ofNode options owner line = .ok p) :
    line.definition? = some (p.name, p.type) := by
  obtain ⟨_, hname, htype, _⟩ := ofNode_eq_ok_iff.1 h
  obtain ⟨words, children, text, lineNumber⟩ := line
  match words with
  | [] => cases hname
  | [_] => cases htype
  | name :: typeText :: _ =>
    obtain rfl : name = p.name := Option.some.inj hname
    rw [Node.definition?, ← (Option.some.inj htype : TypeExpr.ofText typeText = p.type)]

theorem ObjectType.definitions_eq {options : Options} {blocks : List Node} {bs : List ObjectType}
    (h : blocks.map (ofNode options) = bs.map .ok) :
    Outline.definitions blocks = (propertiesOf bs).map fun p => (p.name, p.type) := by
  rw [propertiesOf, List.map_flatMap]
  refine flatMap_eq_flatMap_of_map_eq (fun block b hb => ?_) h
  obtain ⟨_, _, _, _, _, ps, hf, _, hholds⟩ := ofNode_eq_ok_iff.1 hb
  rw [hholds.values]
  exact filterMap_eq_map_of_map_eq (fun _ _ hp => Property.definition?_of_ofNode hp) hf

namespace Schema

variable {options : Options} {nodes : List Node} {d s : Schema} {bs : List ObjectType}
  {object : String} {p : Property}

namespace Collects

theorem definitionsOf_eq (hbs : nodes.map (ObjectType.ofNode options) = bs.map .ok) :
    Outline.definitionsOf nodes object =
      (propertiesOf (blocksOf bs object)).map fun p => (p.name, p.type) :=
  ObjectType.definitions_eq (ObjectType.map_ofNode_filter_name hbs object)

theorem keys_eq (h : d.Collects bs) (hbs : nodes.map (ObjectType.ofNode options) = bs.map .ok) :
    d.objects.keys = Outline.objectNames nodes := by
  rw [h.names, OrderedSet.toList_ofList, Outline.objectNames,
    filterMap_eq_map_of_map_eq (fun _ _ hb => (ObjectType.ofNode_eq_ok_iff.1 hb).2.1) hbs]

theorem map_name_own (h : d.Collects bs)
    (hbs : nodes.map (ObjectType.ofNode options) = bs.map .ok) :
    (d.own object).map Property.name =
      ((Outline.definitionsOf nodes object).map Prod.fst).eraseDups := by
  rw [h.properties, Property.map_name_placeAll, OrderedSet.toList_ofList, definitionsOf_eq hbs,
    List.map_map]
  rfl

/-- **A property has the last type that it is given.** -/
theorem lastType?_eq (h : d.Collects bs)
    (hbs : nodes.map (ObjectType.ofNode options) = bs.map .ok) (hp : p ∈ d.own object) :
    Outline.lastType? nodes object p.name = some p.type := by
  rw [h.properties, Property.mem_placeAll_nil_iff] at hp
  have hfilter : (Outline.definitionsOf nodes object).filter (fun e => e.1 = p.name) =
      ((propertiesOf (blocksOf bs object)).filter fun q => q.name = p.name).map
        fun q => (q.name, q.type) := by
    rw [definitionsOf_eq hbs, List.filter_map]
    rfl
  rw [Outline.lastType?, hfilter, List.getLast?_map, hp]
  rfl

theorem references_own (h : d.Collects bs)
    (hbs : nodes.map (ObjectType.ofNode options) = bs.map .ok) :
    ((d.own object).flatMap fun p => p.type.references.map (Reference.mk object p.name)) =
      ((Outline.definitionsOf nodes object).map Prod.fst).eraseDups.flatMap fun property =>
        (Outline.lastType? nodes object property).toList.flatMap fun type =>
          type.references.map (Reference.mk object property) := by
  rw [← h.map_name_own hbs, List.flatMap_map]
  refine List.flatMap_congr fun p hp => ?_
  rw [h.lastType?_eq hbs hp, Option.toList_some, List.flatMap_singleton]

/-- **The references of a merged schema are those of its blocks.** -/
theorem references_eq (h : d.Collects bs)
    (hbs : nodes.map (ObjectType.ofNode options) = bs.map .ok) :
    d.references = Outline.references nodes := by
  rw [Outline.references, ← h.keys_eq hbs, OrderedMap.keys, Entries.keys, List.flatMap_map,
    Schema.references, objectList, OrderedMap.values, List.flatMap_map]
  refine List.flatMap_congr fun e he => ?_
  have ho : d.object? e.1 = some e.2 := OrderedMap.get?_eq_some_iff.2 he
  rw [← h.references_own hbs, own_of_object ho, (h.declared.object ho).holds.byName,
    List.flatMap_map, h.declared.name ho]

end Collects

/-! ### The check -/

/-- **The reference that is reported** is the first one whose target is not declared. -/
theorem checkReferences_eq_missingObjectType_iff {object property target : String} :
    s.checkReferences = .error (.missingObjectType object property target) ↔
      ∃ earlier later, s.references = earlier ++ ⟨object, property, target⟩ :: later ∧
        (∀ r ∈ earlier, r.target ∈ s.objects.keys) ∧ target ∉ s.objects.keys := by
  have hfind : s.checkReferences = .error (.missingObjectType object property target) ↔
      (s.references.find? fun r => !s.declares r.target) = some ⟨object, property, target⟩ := by
    rw [checkReferences]
    split
    · next r hr => cases r; simp [hr]
    · next hr => simp [hr]
  simp only [hfind, List.find?_eq_some_iff_append, Bool.not_eq_true', Bool.not_not,
    ← Bool.not_eq_true, declares, OrderedMap.contains_iff_mem_keys]
  constructor
  · rintro ⟨hr, earlier, later, heq, hearlier⟩
    exact ⟨earlier, later, heq, hearlier, hr⟩
  · rintro ⟨earlier, later, heq, hearlier, hr⟩
    exact ⟨hr, earlier, later, heq, hearlier⟩

theorem checkReferences_eq_ok_iff_forall : s.checkReferences = .ok () ↔
    ∀ o ∈ s.objectList, ∀ p ∈ o.properties.values, ∀ t ∈ p.type.references,
      s.declares t = true := by
  rw [checkReferences_eq_ok_iff]
  simp only [references, OrderedMap.values, List.forall_mem_flatMap, List.forall_mem_map]

theorem checkReferences_eq_ok_iff_own (h : d.Named) : d.checkReferences = .ok () ↔
    ∀ n, ∀ p ∈ d.own n, ∀ t ∈ p.type.references, d.declares t = true := by
  rw [checkReferences_eq_ok_iff_forall]
  constructor
  · intro hall n p hp
    cases ho : d.object? n with
    | none => rw [own_of_none ho] at hp; cases hp
    | some o =>
      rw [own_of_object ho] at hp
      exact hall o (mem_objectList_iff.2 ⟨n, ho⟩) p hp
  · intro hall o ho p hp
    apply hall o.name p
    rw [own_of_object (h.object?_name ho)]
    exact hp

theorem exists_missingObjectType_iff :
    (∃ object property target,
      s.checkReferences = .error (.missingObjectType object property target)) ↔
        ∃ o ∈ s.objectList, ∃ p ∈ o.properties.values, ∃ t ∈ p.type.references,
          t ∉ s.objects.keys := by
  have hnot : (∃ object property target,
      s.checkReferences = .error (.missingObjectType object property target)) ↔
        ¬s.checkReferences = .ok () := by
    rw [checkReferences]
    split
    · next r _ => simp
    · next => simp
  rw [hnot, checkReferences_eq_ok_iff_forall]
  simp only [declares, OrderedMap.contains_iff_mem_keys]
  push Not
  rfl

/-- **What is inherited was checked**, because it is a property of the object that owns it. -/
theorem Declared.mem_keys_of_resolve (hd : d.Declared) (hrefs : d.checkReferences = .ok ())
    (hs : d.resolve.result = .ok s) {o : ObjectType} (ho : o ∈ s.objectList)
    (hp : p ∈ o.properties.values) {t : String} (ht : t ∈ p.type.references) :
    t ∈ s.objects.keys := by
  obtain ⟨hpartial, hacyclic, _, hflat⟩ := hd.of_resolve hs
  obtain ⟨n, hn⟩ := mem_objectList_iff.1 ho
  rw [(hflat n o hn).values] at hp
  obtain ⟨a, _, hown⟩ := (acyclic_iff_grounded.1 hacyclic n).mem_flat_iff.1 hp
  rw [hpartial.keys, ← OrderedMap.contains_iff_mem_keys]
  exact (checkReferences_eq_ok_iff_own hd.named).1 hrefs a p hown t ht

end Schema

/-! ### Compiling -/

variable {options : Options} {nodes : List Node} {d : Schema}

theorem compile_eq_missingObjectType_iff (h : (declareAll options nodes).result = .ok d)
    {object property target : String} :
    (compile options nodes).result = .error (.missingObjectType object property target) ↔
      d.checkReferences = .error (.missingObjectType object property target) := by
  have hcompile : (compile options nodes).result =
      d.checkReferences.bind fun _ => d.resolve.result := by
    simp only [compile, Logged.result_bind, Logged.liftM_eq_ofExcept, Logged.result_ofExcept,
      Logged.result_tell, h, Except.bind]
  rw [hcompile]
  cases hrefs : d.checkReferences with
  | error e => simp only [Except.bind, Except.error.injEq]
  | ok _ =>
    constructor
    · intro he
      -- the errors of inheriting are of another kind
      cases Schema.resolve_error_kind he
    · intro he; cases he

/-- **The check of references is exact, and inheriting keeps what it found.**

A missing object type is reported exactly for the first reference of the outline whose target is
not declared, and something is reported exactly when some property that merging leaves has such a
reference.  A reference that is not in the last type of its property is never reported.  In a
compiled schema, all references of all properties, inherited ones among them, lead to objects. -/
theorem compile_checks_references (h : (declareAll options nodes).result = .ok d) :
    (∀ object property target,
      (compile options nodes).result = .error (.missingObjectType object property target) ↔
        ∃ earlier later, Outline.references (options.declared nodes) =
            earlier ++ ⟨object, property, target⟩ :: later ∧
          (∀ r ∈ earlier, r.target ∈ Outline.objectNames (options.declared nodes)) ∧
          target ∉ Outline.objectNames (options.declared nodes)) ∧
    ((∃ object property target,
      (compile options nodes).result = .error (.missingObjectType object property target)) ↔
        ∃ o ∈ d.objectList, ∃ p ∈ o.properties.values, ∃ target ∈ p.type.references,
          target ∉ d.objects.keys) ∧
    (∀ object property target type,
      Outline.lastType? (options.declared nodes) object property = some type →
        target ∉ type.references →
          (compile options nodes).result ≠ .error (.missingObjectType object property target)) ∧
    ∀ s, (compile options nodes).result = .ok s →
      ∀ o ∈ s.objectList, ∀ p ∈ o.properties.values, ∀ target ∈ p.type.references,
        target ∈ s.objects.keys := by
  obtain ⟨bs, hbs, hcollects⟩ := collects_of_declareAll h
  have hrefs := hcollects.references_eq hbs
  have hkeys := hcollects.keys_eq hbs
  have hfirst : ∀ object property target,
      (compile options nodes).result = .error (.missingObjectType object property target) ↔
        ∃ earlier later, d.references = earlier ++ ⟨object, property, target⟩ :: later ∧
          (∀ r ∈ earlier, r.target ∈ d.objects.keys) ∧ target ∉ d.objects.keys := by
    intro object property target
    rw [compile_eq_missingObjectType_iff h, Schema.checkReferences_eq_missingObjectType_iff]
  refine ⟨?_, ?_, ?_, ?_⟩
  · rw [← hrefs, ← hkeys]
    exact hfirst
  · simp only [compile_eq_missingObjectType_iff h]
    exact Schema.exists_missingObjectType_iff
  · intro object property target type htype hnot herror
    obtain ⟨earlier, later, heq, _⟩ := (hfirst object property target).1 herror
    have hmem : ⟨object, property, target⟩ ∈ d.references := by rw [heq]; simp
    rw [hrefs] at hmem
    obtain ⟨type', htype', htarget⟩ := Outline.exists_lastType?_of_mem_references hmem
    obtain rfl : type = type' := Option.some.inj (htype.symm.trans htype')
    exact hnot htarget
  · intro s hs o ho p hp target ht
    obtain ⟨d', hdecl, hchecked, hresolve⟩ := compile_eq_ok_iff.1 hs
    exact (declared_of_declareAll hdecl).mem_keys_of_resolve hchecked hresolve ho hp ht

/-- Of the two types of `home`, the second one counts, though it comes after `twin`. -/
def movedHome : List Node :=
  [{ words := ["user", "1"], line := "user 1", lineNumber := 1
     children := [⟨["home", "Lost", "1"], [], "home Lost 1", 2⟩,
       ⟨["friends", "set:user", "2"], [], "friends set:user 2", 3⟩] },
   { words := ["city", "2"], line := "city 2", lineNumber := 4
     children := [⟨["twin", "Nowhere", "1"], [], "twin Nowhere 1", 5⟩] },
   { words := ["user", "1"], line := "user 1", lineNumber := 6
     children := [⟨["home", "city:list:Gone", "1"], [], "home city:list:Gone 1", 7⟩] }]

theorem movedHome_references : ∃ d, (declareAll {} movedHome).result = .ok d ∧
    (compile {} movedHome).result = .error (.missingObjectType "user" "home" "Gone") ∧
    (compile {} movedHome).result ≠ .error (.missingObjectType "user" "home" "Lost") := by
  have hok : (declareAll {} movedHome).result.toOption.isSome := by decide +kernel
  cases h : (declareAll {} movedHome).result with
  | error e => rw [h] at hok; cases hok
  | ok d =>
    obtain ⟨hfirst, _, hreplaced, _⟩ := compile_checks_references h
    refine ⟨d, rfl, (hfirst _ _ _).2 ⟨[⟨"user", "home", "city"⟩],
      [⟨"user", "friends", "user"⟩, ⟨"city", "twin", "Nowhere"⟩], ?_, ?_, ?_⟩,
      hreplaced _ _ _ (TypeExpr.ofText "city:list:Gone") ?_ ?_⟩
    · decide +kernel
    · decide +kernel
    · decide +kernel
    · decide +kernel
    · decide +kernel

end SchemaLang
