import SchemaLang.Proofs.Declaration.Merge
import Mathlib.Data.List.Pairwise

/-!
# Collecting blocks

The declarations of an outline are collected one block at a time, and each block is
checked against the schema that the blocks before it have made.  `s.Collects bs` says
what the schema `s` of a list of blocks is, without a word about the way to it:

* the objects stand in the order in which their names first occur;
* the super types of an object are those of all its blocks, each where it first
  occurs;
* the properties of an object are those of all its blocks, put in their places;
* any two of the blocks join (`ObjectType.Joins`).

`Collects.put` is what one more block does: to put an object under its name that has the
super types and the properties of all blocks of that name makes a schema of all blocks.
-/

namespace SchemaLang

open Outline (Node)

/-! ### Schemas before inheritance -/

/-- An object type as its declarations leave it: it holds properties of its own, and
no sub types are known. -/
structure ObjectType.Declared (o : ObjectType) : Prop where
  holds : o.Holds o.properties.values
  owner : ∀ p ∈ o.properties.values, p.owner = o.name
  subTypes : o.subTypes = ∅

theorem ObjectType.Declared.of_holds {o : ObjectType} {l : List Property} (h : o.Holds l)
    (ho : ∀ p ∈ l, p.owner = o.name) (hs : o.subTypes = ∅) : o.Declared :=
  ⟨by rw [h.values]; exact h, by rw [h.values]; exact ho, hs⟩

theorem ObjectType.declared_of_ofNode {options : Options} {node : Node} {b : ObjectType}
    (h : ObjectType.ofNode options node = .ok b) : b.Declared := by
  obtain ⟨_, _, _, _, hsub, ps, hf, _, hb⟩ := ObjectType.ofNode_eq_ok_iff.1 h
  refine .of_holds hb (fun p hp => ?_) hsub
  obtain ⟨child, _, hc⟩ := exists_mem_of_map_eq hf hp
  exact (Property.ofNode_eq_ok_iff.1 hc).2.2.2.2.2

namespace Schema

/-- A schema as declarations leave it: objects go by their names, the index of codes is
that of the objects, and each object is as its declarations leave it. -/
structure Declared (s : Schema) : Prop where
  name : ∀ {n o}, s.object? n = some o → o.name = n
  object : ∀ {n o}, s.object? n = some o → o.Declared
  code : ∀ {c n}, s.codes.get? c = some n ↔ ∃ o, s.object? n = some o ∧ o.code = c

def own (s : Schema) (name : String) : List Property :=
  match s.object? name with
  | some o => o.properties.values
  | none => []

theorem own_of_object {s : Schema} {name : String} {o : ObjectType}
    (h : s.object? name = some o) : s.own name = o.properties.values := by
  rw [own, h]

theorem mem_keys_iff {s : Schema} {name : String} :
    name ∈ s.objects.keys ↔ ∃ o, s.object? name = some o := by
  rw [← OrderedMap.contains_iff_mem_keys]
  exact declares_iff

theorem object?_eq_none_iff {s : Schema} {name : String} :
    s.object? name = none ↔ name ∉ s.objects.keys :=
  OrderedMap.get?_eq_none_iff

end Schema

/-! ### What the blocks add up to -/

namespace ObjectType

/-- Two blocks can stand in one schema: they are blocks of one object or of two, by
their names and by their codes alike, and the properties of two blocks of one object
agree. -/
structure Joins (a b : ObjectType) : Prop where
  header : a.name = b.name ↔ a.code = b.code
  properties : a.name = b.name →
    ∀ p ∈ a.properties.values, ∀ q ∈ b.properties.values, p.Agrees q

theorem Declared.joins_self {b : ObjectType} (h : b.Declared) : b.Joins b :=
  ⟨⟨fun _ => rfl, fun _ => rfl⟩, fun _ _ hp _ hq => h.holds.agrees hp hq⟩

theorem Joins.symm {a b : ObjectType} (h : a.Joins b) : b.Joins a :=
  ⟨⟨fun e => (h.header.1 e.symm).symm, fun e => (h.header.2 e.symm).symm⟩,
    fun e q hq p hp => (h.properties e.symm p hp q hq).symm⟩

instance : Std.Symm Joins := ⟨fun _ _ h => h.symm⟩

def blocksOf (bs : List ObjectType) (name : String) : List ObjectType :=
  bs.filter fun b => b.name = name

theorem mem_blocksOf {bs : List ObjectType} {name : String} {b : ObjectType} :
    b ∈ blocksOf bs name ↔ b ∈ bs ∧ b.name = name := by
  rw [blocksOf, List.mem_filter, decide_eq_true_eq]

theorem blocksOf_append_self (bs : List ObjectType) (b : ObjectType) :
    blocksOf (bs ++ [b]) b.name = blocksOf bs b.name ++ [b] := by
  rw [blocksOf, List.filter_append, ← blocksOf, List.filter_cons_of_pos (by simp),
    List.filter_nil]

theorem blocksOf_append_of_ne {bs : List ObjectType} {b : ObjectType} {name : String}
    (h : b.name ≠ name) : blocksOf (bs ++ [b]) name = blocksOf bs name := by
  rw [blocksOf, List.filter_append, ← blocksOf, List.filter_cons_of_neg (by simpa using h),
    List.filter_nil, List.append_nil]

theorem map_ofNode_filter_name {options : Options} {nodes : List Node} {bs : List ObjectType}
    (h : nodes.map (ofNode options) = bs.map .ok) (name : String) :
    (nodes.filter fun node => node.name? = some name).map (ofNode options) =
      (blocksOf bs name).map .ok :=
  map_filter_eq_of_map_eq (fun node b hb => by simp [(ofNode_eq_ok_iff.1 hb).2.1]) h

def propertiesOf (bs : List ObjectType) : List Property := bs.flatMap fun b => b.properties.values

def superTypesOf (bs : List ObjectType) : List String := bs.flatMap fun b => b.superTypes.toList

end ObjectType

open ObjectType (blocksOf propertiesOf superTypesOf)

namespace Schema

/-- **The schema of a list of blocks.** -/
structure Collects (s : Schema) (bs : List ObjectType) : Prop where
  declared : s.Declared
  blocks : ∀ b ∈ bs, b.Declared
  joins : bs.Pairwise ObjectType.Joins
  names : s.objects.keys = (OrderedSet.ofList (bs.map ObjectType.name)).toList
  code : ∀ b ∈ bs, ∀ o, s.object? b.name = some o → o.code = b.code
  superTypes : ∀ n o, s.object? n = some o →
    o.superTypes = OrderedSet.ofList (superTypesOf (blocksOf bs n))
  properties : ∀ n, s.own n = Property.placeAll (propertiesOf (blocksOf bs n)) []

namespace Collects

variable {options : Options} {s s' : Schema} {bs : List ObjectType} {b : ObjectType}

theorem empty : Collects ∅ [] where
  declared := by
    refine ⟨fun h => (by cases h), fun h => (by cases h), fun h => (by cases h), ?_⟩
    rintro ⟨o, h, _⟩
    cases h
  blocks := by simp
  joins := .nil
  names := rfl
  code := by simp
  superTypes := fun _ _ h => by cases h
  properties := fun _ => rfl

theorem mem_keys (h : s.Collects bs) {n : String} :
    n ∈ s.objects.keys ↔ ∃ a ∈ bs, a.name = n := by
  rw [h.names, ← OrderedSet.mem_def, OrderedSet.mem_ofList, List.mem_map]

theorem exists_object (h : s.Collects bs) {a : ObjectType} (ha : a ∈ bs) :
    ∃ o, s.object? a.name = some o ∧ o.code = a.code := by
  obtain ⟨o, ho⟩ := mem_keys_iff.1 (h.mem_keys.2 ⟨a, ha, rfl⟩)
  exact ⟨o, ho, h.code a ha o ho⟩

theorem exists_block (h : s.Collects bs) {n : String} {o : ObjectType}
    (ho : s.object? n = some o) : ∃ a ∈ bs, a.name = n ∧ o.code = a.code := by
  obtain ⟨a, ha, rfl⟩ := h.mem_keys.1 (mem_keys_iff.2 ⟨o, ho⟩)
  exact ⟨a, ha, rfl, h.code a ha o ho⟩

theorem codes_get? (h : s.Collects bs) {c : Code} {n : String} :
    s.codes.get? c = some n ↔ ∃ a ∈ bs, a.name = n ∧ a.code = c := by
  rw [h.declared.code]
  constructor
  · rintro ⟨o, ho, rfl⟩
    obtain ⟨a, ha, hn, hc⟩ := h.exists_block ho
    exact ⟨a, ha, hn, hc.symm⟩
  · rintro ⟨a, ha, rfl, rfl⟩
    exact h.exists_object ha

/-- Every property of an object stems from one of its blocks. -/
theorem mem_own (h : s.Collects bs) {n : String} {p : Property} (hp : p ∈ s.own n) :
    ∃ a ∈ bs, a.name = n ∧ p ∈ a.properties.values := by
  rw [h.properties] at hp
  rcases Property.mem_of_mem_placeAll hp with hp | hp
  · obtain ⟨a, ha, hp⟩ := List.mem_flatMap.1 hp
    exact ⟨a, (ObjectType.mem_blocksOf.1 ha).1, (ObjectType.mem_blocksOf.1 ha).2, hp⟩
  · simp at hp

theorem mem_propertiesOf {n : String} {p : Property} :
    p ∈ propertiesOf (blocksOf bs n) ↔ ∃ a ∈ bs, a.name = n ∧ p ∈ a.properties.values := by
  rw [propertiesOf, List.mem_flatMap]
  simp only [ObjectType.mem_blocksOf, and_assoc]

theorem agrees (h : s.Collects bs) {a c : ObjectType} (ha : a ∈ bs) (hc : c ∈ bs)
    (hn : a.name = c.name) {p q : Property} (hp : p ∈ a.properties.values)
    (hq : q ∈ c.properties.values) : p.Agrees q := by
  have hall : ∀ x ∈ bs, ∀ y ∈ bs, x.Joins y :=
    fun x hx y hy =>
      List.Pairwise.forall_of_forall (fun x hx => (h.blocks x hx).joins_self) h.joins hx hy
  exact (hall a ha c hc).properties hn p hp q hq

/-- **To agree with an object is to agree with all its blocks.** -/
theorem agrees_own_iff (h : s.Collects bs) {n : String} {q : Property} :
    (∀ r ∈ s.own n, r.Agrees q) ↔
      ∀ a ∈ bs, a.name = n → ∀ r ∈ a.properties.values, r.Agrees q := by
  constructor
  · intro hall a ha hn r hr
    -- some property of the object has the name of `r`, and it has its code, too
    have hmem : r ∈ propertiesOf (blocksOf bs n) := mem_propertiesOf.2 ⟨a, ha, hn, hr⟩
    obtain ⟨r', hr', hname⟩ := Property.exists_mem_placeAll_of_mem hmem
    rw [← h.properties] at hr'
    obtain ⟨a', ha', hn', hra'⟩ := h.mem_own hr'
    have hcode := (h.agrees ha' ha (hn'.trans hn.symm) hra' hr).1 hname
    have := hall r' hr'
    rwa [Property.Agrees, hname, hcode] at this
  · intro hall r hr
    obtain ⟨a, ha, hn, hra⟩ := h.mem_own hr
    exact hall a ha hn r hra

/-! ### One more block -/

section Put

variable {o : ObjectType}

/-- When a block joins with all blocks so far, the index of codes stays the index of the
objects. -/
theorem codes_put (h : s.Collects bs) (hj : ∀ a ∈ bs, a.Joins b) (hcode : o.code = b.code)
    (hget : ∀ n, s'.object? n = if b.name = n then some o else s.object? n)
    (hc : ∀ c, s'.codes.get? c = if b.code = c then some b.name else s.codes.get? c)
    {c : Code} {n : String} :
    s'.codes.get? c = some n ↔ ∃ o', s'.object? n = some o' ∧ o'.code = c := by
  rw [hget, hc]
  by_cases hn : b.name = n
  · rw [if_pos hn]
    split
    · next e => exact ⟨fun _ => ⟨o, rfl, hcode.trans e⟩, fun _ => by rw [hn]⟩
    · next e =>
      -- the name is that of the block, so an older code under it is the code of the block
      refine ⟨fun hg => ?_, fun ⟨o', ho', hco⟩ => ?_⟩
      · obtain ⟨a, ha, han, hac⟩ := h.codes_get?.1 hg
        exact absurd (((hj a ha).header.1 (han.trans hn.symm)).symm.trans hac) e
      · cases ho'
        exact absurd (hcode.symm.trans hco) e
  · rw [if_neg hn]
    split
    · next e =>
      -- the code is that of the block, so an older object of that code has its name
      refine ⟨fun hg => absurd (Option.some.inj hg) hn, fun ⟨o', ho', hco⟩ => ?_⟩
      obtain ⟨a, ha, han, hac⟩ := h.exists_block ho'
      have := (hj a ha).header.2 (hac.symm.trans (hco.trans e.symm))
      exact absurd (this.symm.trans han) hn
    · exact h.declared.code

theorem declared_put (h : s.Collects bs) (hj : ∀ a ∈ bs, a.Joins b) (hname : o.name = b.name)
    (hcode : o.code = b.code) (hdecl : o.Declared)
    (hget : ∀ n, s'.object? n = if b.name = n then some o else s.object? n)
    (hc : ∀ c, s'.codes.get? c = if b.code = c then some b.name else s.codes.get? c) :
    s'.Declared where
  name := by
    intro n o' ho'
    rw [hget] at ho'
    split at ho'
    · next e => cases ho'; exact hname.trans e
    · exact h.declared.name ho'
  object := by
    intro n o' ho'
    rw [hget] at ho'
    split at ho'
    · cases ho'; exact hdecl
    · exact h.declared.object ho'
  code := h.codes_put hj hcode hget hc

theorem keys_put (h : s.Collects bs) (ho : s'.objects = s.objects.insert b.name o) :
    s'.objects.keys = (OrderedSet.ofList ((bs ++ [b]).map ObjectType.name)).toList := by
  rw [ho, List.map_append, OrderedSet.ofList_append]
  by_cases hk : b.name ∈ s.objects.keys
  · have hmem : b.name ∈ OrderedSet.ofList (bs.map ObjectType.name) := by
      rw [OrderedSet.mem_def, ← h.names]; exact hk
    rw [OrderedMap.keys_insert_of_mem hk, h.names]
    exact congrArg _ (OrderedSet.insert_of_mem hmem).symm
  · have hmem : b.name ∉ OrderedSet.ofList (bs.map ObjectType.name) := by
      rw [OrderedSet.mem_def, ← h.names]; exact hk
    rw [OrderedMap.keys_insert_of_not_mem hk, h.names]
    exact (OrderedSet.toList_insert_of_not_mem hmem).symm

/-- **What is put under the name of a block,** when it has the super types and the
properties of all blocks of that name, makes a schema of all blocks. -/
theorem put (h : s.Collects bs) (hb : b.Declared) (hj : ∀ a ∈ bs, a.Joins b)
    (hh : o.header =
      ⟨b.name, b.code, OrderedSet.ofList (superTypesOf (blocksOf (bs ++ [b]) b.name))⟩)
    (hp : o.Holds (Property.placeAll (propertiesOf (blocksOf (bs ++ [b]) b.name)) []))
    (hs : o.subTypes = ∅) (ho : s'.objects = s.objects.insert b.name o)
    (hc : ∀ c, s'.codes.get? c = if b.code = c then some b.name else s.codes.get? c) :
    s'.Collects (bs ++ [b]) := by
  obtain ⟨hname, hcode, hsup⟩ := Header.mk.injEq .. ▸ hh
  have hget : ∀ n, s'.object? n = if b.name = n then some o else s.object? n := fun n => by
    rw [object?, ho]; exact OrderedMap.get?_insert
  have hblocks : ∀ a ∈ bs ++ [b], a.Declared := fun a ha => by
    rcases List.mem_append.1 ha with ha | ha
    · exact h.blocks a ha
    · exact List.mem_singleton.1 ha ▸ hb
  have hdecl : o.Declared := by
    refine .of_holds hp (fun p hpm => ?_) hs
    rcases Property.mem_of_mem_placeAll hpm with hpm | hpm
    · obtain ⟨a, ha, hn, hpa⟩ := mem_propertiesOf.1 hpm
      rw [(hblocks a ha).owner p hpa, hn, hname]
    · simp at hpm
  refine ⟨h.declared_put hj hname hcode hdecl hget hc, hblocks, ?_, h.keys_put ho, ?_, ?_, ?_⟩
  · refine List.pairwise_append.2 ⟨h.joins, List.pairwise_singleton _ b, fun a ha c hcm => ?_⟩
    exact List.mem_singleton.1 hcm ▸ hj a ha
  · intro a ha o' ho'
    rw [hget] at ho'
    rcases List.mem_append.1 ha with ha | ha
    · split at ho'
      · next e => cases ho'; exact hcode.trans ((hj a ha).header.1 e.symm).symm
      · exact h.code a ha o' ho'
    · rw [List.mem_singleton.1 ha, if_pos rfl] at ho'
      cases ho'
      exact hcode.trans (congrArg _ (List.mem_singleton.1 ha).symm)
  · intro n o' ho'
    rw [hget] at ho'
    split at ho'
    · next e => cases ho'; exact e ▸ hsup
    · next e => rw [ObjectType.blocksOf_append_of_ne e]; exact h.superTypes n o' ho'
  · intro n
    rw [own, hget]
    by_cases hn : b.name = n
    · rw [if_pos hn, ← hn]; exact hp.values
    · rw [if_neg hn, ObjectType.blocksOf_append_of_ne hn]; exact h.properties n

end Put

end Collects
end Schema
end SchemaLang
