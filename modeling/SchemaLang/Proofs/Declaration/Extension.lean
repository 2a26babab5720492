import SchemaLang.Proofs.Declaration.Acceptance
import SchemaLang.Proofs.Declaration.Determined
import SchemaLang.Proofs.FirstOccurrences

/-!
# One more declaration

A node is put into an outline, anywhere, and no other node declares its object or has it for a
super type.  Then the declarations add up to what they added up to before and to one more object,
the block of the node (`extends_of_declareAll`).
-/

namespace SchemaLang

open Outline (Node)
open ObjectType (blocksOf superTypesOf propertiesOf)

namespace Schema

variable {name : String} {d d' s : Schema} {as bs cs : List ObjectType} {b : ObjectType}

/-- The second schema has the objects of the first one in their order, and somewhere among them one
more, which none of them has for a super type. -/
structure Extends (name : String) (d d' : Schema) : Prop where
  keys : d'.objects.keys.filter (fun n => n ≠ name) = d.objects.keys
  new : d'.declares name = true
  object : ∀ n, n ≠ name → d'.object? n = d.object? n
  unnamed : ∀ n o, d.object? n = some o → name ∉ o.superTypes

theorem Collects.object?_of_blocksOf (h : s.Collects bs) (hblocks : blocksOf bs name = [b]) :
    s.object? name = some b := by
  obtain ⟨hb, rfl⟩ := ObjectType.mem_blocksOf.1 (hblocks ▸ List.mem_singleton_self b)
  obtain ⟨o, ho, hcode⟩ := h.exists_object hb
  rw [ho]
  refine congrArg some ?_
  have hown : o.properties.values = b.properties.values := by
    rw [← own_of_object ho, h.properties, hblocks, propertiesOf, List.flatMap_singleton,
      Property.placeAll_of_apart (by simp) (h.blocks b hb).holds.pairwise_apart, List.nil_append]
  refine (hown ▸ (h.declared.object ho).holds).ext (h.blocks b hb).holds ?_ ?_
  · refine ObjectType.header_eq_iff.2 ⟨h.declared.name ho, hcode, ?_⟩
    rw [h.superTypes _ o ho, hblocks, superTypesOf, List.flatMap_singleton,
      OrderedSet.ofList_toList]
  · rw [(h.declared.object ho).subTypes, (h.blocks b hb).subTypes]

theorem Collects.exists_block_of_mem_superTypes (h : s.Collects bs) {n t : String}
    {o : ObjectType} (ho : s.object? n = some o) (ht : t ∈ o.superTypes) :
    ∃ a ∈ bs, t ∈ a.superTypes := by
  rw [h.superTypes n o ho, OrderedSet.mem_ofList] at ht
  obtain ⟨a, ha, ht⟩ := List.mem_flatMap.1 ht
  exact ⟨a, (ObjectType.mem_blocksOf.1 ha).1, ht⟩

/-- **One more block of an unrelated object** is that object. -/
theorem Collects.extends (h : d.Collects (as ++ cs)) (h' : d'.Collects (as ++ b :: cs))
    (hnew : ∀ a ∈ as ++ cs, a.name ≠ b.name ∧ b.name ∉ a.superTypes) :
    d.Extends b.name d' ∧ d'.object? b.name = some b := by
  have hb : blocksOf (as ++ b :: cs) b.name = [b] := by
    have hnone : ∀ l : List ObjectType, (∀ a ∈ l, a ∈ as ++ cs) → blocksOf l b.name = [] :=
      fun l hl => List.filter_eq_nil_iff.2 fun a ha => by simpa using (hnew a (hl a ha)).1
    rw [blocksOf, List.filter_append, List.filter_cons_of_pos (by simp), ← blocksOf, ← blocksOf,
      hnone as fun a => List.mem_append_left cs, hnone cs fun a => List.mem_append_right as,
      List.nil_append]
  have hobject := h'.object?_of_blocksOf hb
  refine ⟨⟨?_, declares_iff.2 ⟨b, hobject⟩, fun n hn => ?_, fun n o ho hmem => ?_⟩, hobject⟩
  · rw [h.names, h'.names, OrderedSet.filter_toList_ofList]
    have hfilter : (((as ++ b :: cs).map ObjectType.name).filter fun n => n ≠ b.name) =
        (as ++ cs).map ObjectType.name := by
      have hall : ∀ n ∈ (as ++ cs).map ObjectType.name, n ≠ b.name := fun n hn => by
        obtain ⟨a, ha, rfl⟩ := List.mem_map.1 hn
        exact (hnew a ha).1
      rw [List.map_append, List.map_cons, List.filter_append, List.filter_cons_of_neg (by simp),
        ← List.filter_append, ← List.map_append]
      exact List.filter_eq_self.2 fun n hn => decide_eq_true (hall n hn)
    rw [hfilter]
  · refine h'.object?_congr h ?_
    rw [blocksOf, List.filter_append, List.filter_cons_of_neg (by simpa using hn.symm),
      ← List.filter_append, ← blocksOf]
  · obtain ⟨a, ha, hmem⟩ := h.exists_block_of_mem_superTypes ho hmem
    exact (hnew a ha).2 hmem

end Schema

variable {options : Options} {before after : List Node} {node : Node} {name : String}
  {d d' : Schema}

/-- The node has nothing to do with the objects that the others declare: it is the only one of its
name, and no other one has its object for a super type. -/
def Outline.Unrelated (name : String) (nodes : List Node) : Prop :=
  ∀ other ∈ nodes, other.name? ≠ some name ∧ name ∉ other.words.drop 2

theorem Options.declared_append :
    options.declared (before ++ after) = options.declared before ++ options.declared after :=
  List.filter_append ..

theorem Options.declared_append_cons (h : ¬(options.skipDerived = true ∧ node.Derived)) :
    options.declared (before ++ node :: after) =
      options.declared before ++ node :: options.declared after := by
  have hkeep : (!(options.skipDerived && isDerived node)) = true := by
    rw [Bool.not_eq_true', ← Bool.not_eq_true, Bool.and_eq_true, isDerived_iff]
    exact h
  rw [Options.declared_append]
  exact congrArg _ (List.filter_cons_of_pos hkeep)

/-- **A node of an unrelated object adds that object** to the schema that the others declare. -/
theorem extends_of_declareAll (hname : node.name? = some name)
    (hkept : ¬(options.skipDerived = true ∧ node.Derived))
    (hnew : Outline.Unrelated name (options.declared (before ++ after)))
    (hd : (declareAll options (before ++ after)).result = .ok d)
    (hd' : (declareAll options (before ++ node :: after)).result = .ok d') :
    ∃ b, ObjectType.ofNode options node = .ok b ∧ d.Extends name d' ∧ d'.object? name = some b := by
  obtain ⟨bs, hbs, hcollects⟩ := collects_of_declareAll hd
  obtain ⟨bs', hbs', hcollects'⟩ := collects_of_declareAll hd'
  rw [Options.declared_append_cons hkept, List.map_append, List.map_cons, eq_comm,
    List.map_eq_append_iff] at hbs'
  obtain ⟨as, rest, rfl, has, hrest⟩ := hbs'
  obtain ⟨b, cs, rfl, hb, hcs⟩ := List.map_eq_cons_iff.1 hrest
  obtain rfl : as ++ cs = bs := by
    refine List.map_injective_iff.2 (fun a b e => Except.ok.inj e) (Eq.trans ?_ hbs)
    rw [List.map_append, has, hcs, ← List.map_append, Options.declared_append]
  obtain rfl : b.name = name := by
    have hspelled := (ObjectType.ofNode_eq_ok_iff.1 hb.symm).2.1
    exact Option.some.inj (hspelled.symm.trans hname)
  refine ⟨b, hb.symm, hcollects.extends hcollects' fun a ha => ?_⟩
  -- a block has the name and the super types of its node
  obtain ⟨other, hother, ha⟩ := exists_mem_of_map_eq hbs ha
  obtain ⟨_, haname, _, hasuper, _⟩ := ObjectType.ofNode_eq_ok_iff.1 ha
  obtain ⟨hne, hnot⟩ := hnew other hother
  refine ⟨fun e => hne (haname.trans (congrArg some e)), ?_⟩
  rw [hasuper, OrderedSet.mem_ofList]
  exact hnot

end SchemaLang
