import SchemaLang.Proofs.Inheritance.Indexing

/-!
# Where an object comes from

An object is declared in one block or in several, the nodes of its name.  What they make of it is
read off their words here, without a word about merging or inheriting (`ObjectType.MergesFrom`):
the super types and the names of the own properties stand where they first occur, and a property is
what the last block that declares it says.  An earlier block has no say in the type and the tags of
such a property, only in its place.

* `exists_last_block`: of the blocks that declare a name, the last one has the property.
* `compile_merges`: each object of a compiled schema comes from its blocks in this way.
-/

namespace SchemaLang

open Outline (Node)
open ObjectType (blocksOf propertiesOf superTypesOf)

/-! ### What blocks say -/

namespace Outline.Node

def propertyNames (block : Node) : List String := block.children.filterMap Node.name?

/-- The words of the line are the name, the type, the code and the tags of the property. -/
structure Spells (line : Node) (p : Property) : Prop where
  name : line.name? = some p.name
  type : line.words[1]?.map TypeExpr.ofText = some p.type
  code : line.propertyCode? = some p.code
  tags : p.tags.toList = (line.words.drop 3).eraseDups

end Outline.Node

/-- **What the blocks of an object make of it.**  The words after the name and the code of a block
are super types, and its lines are properties of the object, which come before all that it
inherits. -/
structure ObjectType.MergesFrom (o : ObjectType) (n : String) (blocks : List Node) : Prop where
  name : o.name = n
  code : ∀ block ∈ blocks, block.objectCode? = some o.code
  superTypes : o.superTypes.toList = (blocks.flatMap fun block => block.words.drop 2).eraseDups
  names : o.ownProperties.map Property.name = (blocks.flatMap Node.propertyNames).eraseDups
  last_block : ∀ p ∈ o.ownProperties, p.owner = n ∧ ∃ block line,
    (blocks.filter fun block => p.name ∈ block.propertyNames).getLast? = some block ∧
      (block.children.filter fun line => line.name? = some p.name) = [line] ∧ line.Spells p
  own_first : ∃ inherited, o.properties.values = o.ownProperties ++ inherited ∧
    ∀ p ∈ inherited, p.owner ≠ n

namespace ObjectType

variable {options : Options} {block : Node} {blocks : List Node} {b : ObjectType}
  {bs : List ObjectType} {p : Property}

theorem propertyNames_of_ofNode (h : ofNode options block = .ok b) :
    block.propertyNames = b.properties.values.map Property.name := by
  obtain ⟨_, _, _, _, _, ps, hf, _, hb⟩ := ofNode_eq_ok_iff.1 h
  rw [hb.values]
  exact filterMap_eq_map_of_map_eq (fun _ _ hp => (Property.ofNode_eq_ok_iff.1 hp).2.1) hf

theorem exists_line (h : ofNode options block = .ok b) (hp : p ∈ b.properties.values) :
    ∃ line, (block.children.filter fun line => line.name? = some p.name) = [line] ∧
      line.Spells p := by
  obtain ⟨_, _, _, _, _, ps, hf, _, hb⟩ := ofNode_eq_ok_iff.1 h
  rw [hb.values] at hp
  have hlines : (block.children.filter fun line => line.name? = some p.name).map
      (Property.ofNode options b.name) = (ps.filter fun q => q.name = p.name).map .ok :=
    map_filter_eq_of_map_eq (fun line q hq => by simp [(Property.ofNode_eq_ok_iff.1 hq).2.1]) hf
  rw [hb.filter_name hp, List.map_singleton, List.map_eq_singleton_iff] at hlines
  obtain ⟨line, hline, hspelled⟩ := hlines
  obtain ⟨_, hname, htype, hcode, htags, _⟩ := Property.ofNode_eq_ok_iff.1 hspelled
  exact ⟨line, hline, hname, htype, hcode, by rw [htags, OrderedSet.toList_ofList]⟩

theorem ofList_superTypesOf (h : blocks.map (ofNode options) = bs.map .ok) :
    OrderedSet.ofList (superTypesOf bs) =
      OrderedSet.ofList (blocks.flatMap fun block => block.words.drop 2) := by
  have hnodes : (blocks.flatMap fun block => (OrderedSet.ofList (block.words.drop 2)).toList) =
      superTypesOf bs :=
    flatMap_eq_flatMap_of_map_eq (fun _ _ hb => by rw [(ofNode_eq_ok_iff.1 hb).2.2.2.1]) h
  rw [← hnodes]
  exact OrderedSet.insertAll_flatMap_ofList blocks ∅

theorem map_name_propertiesOf (h : blocks.map (ofNode options) = bs.map .ok) :
    (propertiesOf bs).map Property.name = blocks.flatMap Node.propertyNames := by
  rw [propertiesOf, List.map_flatMap]
  exact (flatMap_eq_flatMap_of_map_eq (fun _ _ hb => propertyNames_of_ofNode hb) h).symm

/-- **The last block that declares a name has the property.** -/
theorem exists_last_block (hbs : ∀ b ∈ bs, b.Declared)
    (hp : p ∈ Property.placeAll (propertiesOf bs) []) :
    ∃ b, (bs.filter fun b => p.name ∈ b.properties.values.map Property.name).getLast? = some b ∧
      p ∈ b.properties.values := by
  induction bs using List.reverseRecOn with
  | nil => cases hp
  | append_singleton bs b ih =>
    have hb : (b.properties.values.map Property.name).Nodup :=
      (hbs b (by simp)).holds.nodup_names
    rw [propertiesOf, List.flatMap_append, List.flatMap_singleton, ← propertiesOf,
      Property.placeAll_append, Property.mem_placeAll hb Property.nodup_map_name_placeAll] at hp
    rw [List.filter_append]
    rcases hp with hp | ⟨hp, hnot⟩
    · have hmem : p.name ∈ b.properties.values.map Property.name := List.mem_map_of_mem hp
      refine ⟨b, ?_, hp⟩
      rw [List.filter_cons_of_pos (by simpa using hmem), List.filter_nil, List.getLast?_concat]
    · -- the last block has no say, and so the block is among the earlier ones
      rw [List.filter_cons_of_neg (by simpa using hnot), List.filter_nil, List.append_nil]
      exact ih (fun b hb => hbs b (List.mem_append_left _ hb)) hp

theorem exists_last_line (h : blocks.map (ofNode options) = bs.map .ok)
    (hp : p ∈ Property.placeAll (propertiesOf bs) []) :
    ∃ block line, (blocks.filter fun block => p.name ∈ block.propertyNames).getLast? = some block ∧
      (block.children.filter fun line => line.name? = some p.name) = [line] ∧ line.Spells p := by
  have hbs : ∀ b ∈ bs, b.Declared := fun b hb => by
    obtain ⟨_, _, hofNode⟩ := exists_mem_of_map_eq h hb
    exact declared_of_ofNode hofNode
  obtain ⟨b, hb, hpb⟩ := exists_last_block hbs hp
  have hfilter : (blocks.filter fun block => p.name ∈ block.propertyNames).map (ofNode options) =
      (bs.filter fun b => p.name ∈ b.properties.values.map Property.name).map .ok :=
    map_filter_eq_of_map_eq (fun _ _ hb => by rw [propertyNames_of_ofNode hb]) h
  have hlast := congrArg List.getLast? hfilter
  rw [List.getLast?_map, List.getLast?_map, hb, Option.map_some, Option.map_eq_some_iff] at hlast
  obtain ⟨block, hblock, hofNode⟩ := hlast
  obtain ⟨line, hline, hspells⟩ := exists_line hofNode hpb
  exact ⟨block, line, hblock, hline, hspells⟩

end ObjectType

/-! ### What a compiled schema has -/

variable {options : Options} {nodes : List Node} {d s : Schema} {bs : List ObjectType}

theorem Schema.Collects.mergesFrom (h : d.Collects bs)
    (hbs : (options.declared nodes).map (ObjectType.ofNode options) = bs.map .ok)
    (hs : d.resolve.result = .ok s) {n : String} {o : ObjectType} (ho : s.object? n = some o) :
    o.MergesFrom n ((options.declared nodes).filter fun node => node.name? = some n) := by
  have hd := h.declared
  obtain ⟨hp, hacyclic, _, hflat⟩ := hd.of_resolve hs
  obtain ⟨o₀, ho₀, hhead⟩ := hp.header ho
  obtain ⟨_, hcode, hsuper⟩ := ObjectType.header_eq_iff.1 hhead
  have hblocks := ObjectType.map_ofNode_filter_name hbs n
  have hown : o.ownProperties = Property.placeAll (propertiesOf (blocksOf bs n)) [] := by
    rw [hd.ownProperties_of_resolve hs ho, h.properties]
  refine ⟨hp.name_eq hd ho, fun block hblock => ?_, ?_, ?_, fun p hpo => ⟨?_, ?_⟩, ?_⟩
  · obtain ⟨b, hb, hofNode⟩ := exists_of_mem_of_map_eq hblocks hblock
    obtain ⟨hmem, rfl⟩ := ObjectType.mem_blocksOf.1 hb
    rw [(ObjectType.ofNode_eq_ok_iff.1 hofNode).2.2.1, hcode, h.code b hmem o₀ ho₀]
  · rw [hsuper, h.superTypes n o₀ ho₀, ObjectType.ofList_superTypesOf hblocks,
      OrderedSet.toList_ofList]
  · rw [hown, Property.map_name_placeAll, ObjectType.map_name_propertiesOf hblocks,
      OrderedSet.toList_ofList]
  · rw [hd.ownProperties_of_resolve hs ho] at hpo
    exact hd.owner_of_mem_own hpo
  · exact ObjectType.exists_last_line hblocks (hown ▸ hpo)
  · obtain ⟨inherited, heq, hforeign⟩ :=
      hd.exists_flat_eq_append (Schema.acyclic_iff_grounded.1 hacyclic n)
    refine ⟨inherited, ?_, hforeign⟩
    rw [(hflat n o ho).values, heq, hd.ownProperties_of_resolve hs ho]

/-- **Each object of a compiled schema is merged from its blocks**, and it stands where the first of
them stands among all first blocks. -/
theorem compile_merges (h : (compile options nodes).result = .ok s) :
    s.objects.keys = ((options.declared nodes).filterMap Node.name?).eraseDups ∧
      ∀ n o, s.object? n = some o →
        o.MergesFrom n ((options.declared nodes).filter fun node => node.name? = some n) := by
  obtain ⟨d, hdecl, _, hs⟩ := compile_eq_ok_iff.1 h
  obtain ⟨bs, hbs, hcollects⟩ := collects_of_declareAll hdecl
  obtain ⟨hp, _⟩ := hcollects.declared.of_resolve hs
  refine ⟨?_, fun n o ho => hcollects.mergesFrom hbs hs ho⟩
  rw [hp.keys, hcollects.names, OrderedSet.toList_ofList,
    filterMap_eq_map_of_map_eq (fun _ _ hb => (ObjectType.ofNode_eq_ok_iff.1 hb).2.1) hbs]

theorem redeclaredDiamond_merges : ∃ s, (compile {} redeclaredDiamond).result = .ok s ∧
    (s.objects.keys = ((Options.declared {} redeclaredDiamond).filterMap Node.name?).eraseDups ∧
    ∀ n o, s.object? n = some o →
      o.MergesFrom n ((Options.declared {} redeclaredDiamond).filter fun node =>
        node.name? = some n)) ∧
    s.objects.keys = ["top", "left", "right", "bottom"] ∧
    (s.object? "top").map (fun o => o.properties.values.map fun p =>
      (p.name, p.type, p.tags.toList)) = some [("id", .primitive .int, ["renewed"])] := by
  have hmerged : (compile {} redeclaredDiamond).result.toOption.map (fun s =>
      (s.objects.keys, (s.object? "top").map fun o => o.properties.values.map fun p =>
        (p.name, p.type, p.tags.toList))) =
      some (["top", "left", "right", "bottom"],
        some [("id", .primitive .int, ["renewed"])]) := by decide +kernel
  cases hs : (compile {} redeclaredDiamond).result with
  | error e => rw [hs] at hmerged; cases hmerged
  | ok s =>
    rw [hs] at hmerged
    obtain ⟨hkeys, htop⟩ := Prod.mk.inj (Option.some.inj hmerged)
    exact ⟨s, rfl, compile_merges hs, hkeys, htop⟩

end SchemaLang
