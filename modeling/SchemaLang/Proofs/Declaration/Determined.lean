import SchemaLang.Proofs.Declaration.Run
import Mathlib.Data.List.Nodup

/-!
# Blocks determine their schema

A list of blocks has at most one schema (`Collects.eq`), since `Collects` says everything
about it: the objects and their order, their headers, their properties, and the index of
codes.  Of an object it speaks of the blocks of its name only, so that lists with the same
blocks of a name have the same object there (`Collects.object?_congr`).  And the objects of a
declared schema are blocks of that very schema (`Declared.collects_self`).  So to declare nodes
that have these objects for their blocks is to get the schema again (`Declared.declareAll_eq`).
-/

namespace SchemaLang.Schema

open ObjectType (blocksOf propertiesOf superTypesOf)

variable {s s' d : Schema} {bs bs' : List ObjectType} {o : ObjectType}

theorem mem_objectList_iff : o ∈ d.objectList ↔ ∃ n, d.object? n = some o :=
  OrderedMap.mem_values_iff

/-! ### At most one schema -/

theorem Collects.mem_keys_iff_blocksOf (h : s.Collects bs) {n : String} :
    n ∈ s.objects.keys ↔ blocksOf bs n ≠ [] := by
  rw [h.mem_keys, ← List.length_pos_iff, List.length_pos_iff_exists_mem]
  simp only [ObjectType.mem_blocksOf]

/-- **An object is a matter of the blocks of its name.** -/
theorem Collects.object?_congr (h : s.Collects bs) (h' : s'.Collects bs') {n : String}
    (hblocks : blocksOf bs n = blocksOf bs' n) : s.object? n = s'.object? n := by
  have hkeys : n ∈ s.objects.keys ↔ n ∈ s'.objects.keys := by
    rw [h.mem_keys_iff_blocksOf, h'.mem_keys_iff_blocksOf, hblocks]
  cases ho : s.object? n with
  | none =>
    rw [object?_eq_none_iff, hkeys] at ho
    exact (object?_eq_none_iff.2 ho).symm
  | some o =>
    obtain ⟨o', ho'⟩ := mem_keys_iff.1 (hkeys.1 (mem_keys_iff.2 ⟨o, ho⟩))
    rw [ho']
    refine congrArg some ?_
    obtain ⟨a, ha, han, hcode⟩ := h.exists_block ho
    have ha' : a ∈ bs' :=
      (ObjectType.mem_blocksOf.1 (hblocks ▸ ObjectType.mem_blocksOf.2 ⟨ha, han⟩)).1
    have hown : o'.properties.values = o.properties.values := by
      rw [← own_of_object ho, ← own_of_object ho', h.properties, h'.properties, hblocks]
    have hholds := (h.declared.object ho).holds
    refine hholds.ext (hown ▸ (h'.declared.object ho').holds) ?_ ?_
    · refine ObjectType.header_eq_iff.2 ⟨?_, ?_, ?_⟩
      · rw [h.declared.name ho, h'.declared.name ho']
      · rw [hcode, h'.code a ha' o' (han ▸ ho')]
      · rw [h.superTypes _ o ho, h'.superTypes _ o' ho', hblocks]
    · rw [(h.declared.object ho).subTypes, (h'.declared.object ho').subTypes]

/-- **A list of blocks has at most one schema.** -/
theorem Collects.eq (h : s.Collects bs) (h' : s'.Collects bs) : s = s' := by
  have hobjects : s.objects = s'.objects :=
    OrderedMap.ext_get? (h.names.trans h'.names.symm) fun _ => h.object?_congr h' rfl
  have hcodes : s.codes = s'.codes := CodeMap.ext_mem fun e => by
    obtain ⟨c, n⟩ := e
    rw [← CodeMap.get?_eq_some_iff, ← CodeMap.get?_eq_some_iff, h.codes_get?, h'.codes_get?]
  cases s
  cases s'
  cases hobjects
  cases hcodes
  rfl

/-! ### The objects of a schema as blocks -/

def Named (s : Schema) : Prop := ∀ n o, s.object? n = some o → o.name = n

namespace Named

theorem object?_name (h : d.Named) (ho : o ∈ d.objectList) : d.object? o.name = some o := by
  obtain ⟨n, hn⟩ := mem_objectList_iff.1 ho
  rwa [h n o hn]

theorem map_name_objectList (h : d.Named) : d.objectList.map ObjectType.name = d.objects.keys := by
  rw [objectList, OrderedMap.values, List.map_map, OrderedMap.keys, Entries.keys]
  exact List.map_congr_left fun e he => h e.1 e.2 (OrderedMap.get?_eq_some_iff.2 he)

theorem eq_of_name_eq (h : d.Named) {a b : ObjectType} (ha : a ∈ d.objectList)
    (hb : b ∈ d.objectList) (e : a.name = b.name) : a = b :=
  Option.some.inj ((h.object?_name ha).symm.trans (e ▸ h.object?_name hb))

theorem nodup_objectList (h : d.Named) : d.objectList.Nodup := by
  refine List.Nodup.of_map ObjectType.name ?_
  rw [h.map_name_objectList]
  exact d.objects.nodup_keys

end Named

namespace Declared

theorem named (h : d.Declared) : d.Named := fun _ _ => h.name

theorem object?_name (h : d.Declared) (ho : o ∈ d.objectList) : d.object? o.name = some o :=
  h.named.object?_name ho

theorem eq_of_code_eq (h : d.Declared) {a b : ObjectType} (ha : a ∈ d.objectList)
    (hb : b ∈ d.objectList) (e : a.code = b.code) : a = b := by
  have hca := h.code.2 ⟨a, h.object?_name ha, rfl⟩
  have hcb := h.code.2 ⟨b, h.object?_name hb, rfl⟩
  rw [e] at hca
  exact h.named.eq_of_name_eq ha hb (Option.some.inj (hca.symm.trans hcb))

theorem blocksOf_objectList (h : d.Declared) {n : String} (ho : d.object? n = some o) :
    blocksOf d.objectList n = [o] := by
  have homem : o ∈ d.objectList := mem_objectList_iff.2 ⟨n, ho⟩
  have hnodup : (blocksOf d.objectList n).Nodup := h.named.nodup_objectList.filter _
  refine List.perm_singleton.1 ((List.perm_ext_iff_of_nodup hnodup (List.nodup_singleton o)).2 ?_)
  intro a
  rw [ObjectType.mem_blocksOf, List.mem_singleton]
  constructor
  · rintro ⟨ha, han⟩
    exact h.named.eq_of_name_eq ha homem (han.trans (h.name ho).symm)
  · rintro rfl
    exact ⟨homem, h.name ho⟩

theorem blocksOf_of_none (h : d.Declared) {n : String} (hn : d.object? n = none) :
    blocksOf d.objectList n = [] := by
  refine List.filter_eq_nil_iff.2 fun a ha e => ?_
  rw [decide_eq_true_eq] at e
  rw [← e, h.object?_name ha] at hn
  cases hn

theorem pairwise_joins (h : d.Declared) : d.objectList.Pairwise ObjectType.Joins := by
  refine h.named.nodup_objectList.imp_of_mem fun {a b} ha hb hne => ?_
  have hname : a.name ≠ b.name := fun e => hne (h.named.eq_of_name_eq ha hb e)
  have hcode : a.code ≠ b.code := fun e => hne (h.eq_of_code_eq ha hb e)
  exact ⟨⟨fun e => absurd e hname, fun e => absurd e hcode⟩, fun e => absurd e hname⟩

/-- **The objects of a schema are blocks of that very schema.** -/
theorem collects_self (h : d.Declared) : d.Collects d.objectList where
  declared := h
  blocks := fun b hb => h.object (h.object?_name hb)
  joins := h.pairwise_joins
  names := by
    let names : OrderedSet String := ⟨d.objects.keys, d.objects.nodup_keys⟩
    rw [h.named.map_name_objectList]
    exact congrArg OrderedSet.toList (OrderedSet.ofList_toList names).symm
  code := fun b hb o ho => by
    rw [h.object?_name hb] at ho
    rw [Option.some.inj ho]
  superTypes := fun n o ho => by
    rw [h.blocksOf_objectList ho, superTypesOf, List.flatMap_singleton, OrderedSet.ofList_toList]
  properties := by
    intro n
    cases ho : d.object? n with
    | none =>
      rw [h.blocksOf_of_none ho, own, ho]
      rfl
    | some o =>
      have hapart := (h.object ho).holds.pairwise_apart
      rw [h.blocksOf_objectList ho, own_of_object ho, propertiesOf, List.flatMap_singleton,
        Property.placeAll_of_apart (by simp) hapart, List.nil_append]

/-- **To declare the objects of a schema again is to get that schema.** -/
theorem declareAll_eq (h : d.Declared) {options : Options} {nodes : List Outline.Node}
    (hnodes : (options.declared nodes).map (ObjectType.ofNode options) = d.objectList.map .ok) :
    (declareAll options nodes).result = .ok d := by
  obtain ⟨s, hs⟩ := exists_declareAll_iff.2 ⟨d.objectList, hnodes, h.pairwise_joins⟩
  obtain ⟨bs, hbs, hcollects⟩ := collects_of_declareAll hs
  have hinj : Function.Injective (Except.ok : ObjectType → Except CompileError ObjectType) :=
    fun a b e => Except.ok.inj e
  obtain rfl : d.objectList = bs := List.map_injective_iff.2 hinj (hnodes.symm.trans hbs)
  rw [hs, hcollects.eq h.collects_self]

end Declared
end SchemaLang.Schema
