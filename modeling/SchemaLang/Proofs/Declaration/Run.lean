import SchemaLang.Proofs.Declaration.Collection

/-!
# Running through the declarations

What one declaration does to a schema that collects the blocks before it, and what a
list of declarations does.

* `Collects.of_declare`: a node that is declared has a block that joins with every block
  so far, and the schema then collects that block as well.
* `Collects.exists_declare`: a node with such a block can be declared.
* `Collects.of_foldlM_declare`, `Collects.exists_foldlM_declare`: the same for a list of
  nodes.
* `collects_of_declareAll`, `exists_declareAll_iff`: the schema of an outline collects the
  blocks of the nodes that are not passed over, and there is one exactly when these nodes
  have blocks that join.
-/

namespace SchemaLang

open Outline (Node)
open ObjectType (blocksOf propertiesOf superTypesOf)

namespace Schema

variable {options : Options} {s s' : Schema} {bs : List ObjectType} {b : ObjectType}

/-! ### Adding a block -/

theorem checkCode_eq_ok_iff {h : Header} :
    s.checkCode h = .ok () ↔ ∀ n, s.codes.get? h.code = some n → n = h.name := by
  rw [checkCode]
  cases s.codes.get? h.code with
  | none => exact ⟨fun _ n hn => (by cases hn), fun _ => rfl⟩
  | some n =>
    by_cases e : n = h.name
    · simp [e]
    · simp [e]

theorem addBlock_of_none (h : s.object? b.name = none) :
    (s.addBlock b).result =
      .ok { objects := s.objects.insert b.name b, codes := s.codes.insert b.code b.name } := by
  rw [addBlock, h]; rfl

theorem addBlock_of_some {o : ObjectType} (h : s.object? b.name = some o) :
    (s.addBlock b).result = .ok s' ↔
      o.code = b.code ∧ ∃ o', o.absorb b = .ok o' ∧ s' = s.setObject b.name o' := by
  rw [addBlock, h]
  simp only
  by_cases hc : o.code = b.code
  · rw [if_pos hc]
    simp only [Logged.result_bind_eq_ok_iff, Logged.result_tell, Logged.liftM_eq_ofExcept,
      Logged.result_ofExcept, Logged.result_pure, Except.ok.injEq]
    constructor
    · rintro ⟨_, _, o', ho', rfl⟩; exact ⟨hc, o', ho', rfl⟩
    · rintro ⟨_, o', ho', rfl⟩; exact ⟨(), trivial, o', ho', rfl⟩
  · rw [if_neg hc]
    exact ⟨fun hh => (by cases hh), fun hh => absurd hh.1 hc⟩

theorem declare_result_eq_ok_iff {node : Node} :
    (s.declare options node).result = .ok s' ↔
      ∃ b, ObjectType.ofNode options node = .ok b ∧ s.checkCode b.header = .ok () ∧
        (s.addBlock b).result = .ok s' := by
  simp only [declare, Logged.result_bind_eq_ok_iff, Logged.liftM_eq_ofExcept,
    Logged.result_ofExcept, ObjectType.ofNode, bind_eq_ok_iff]
  constructor
  · rintro ⟨h, hh, _, hc, b, hb, hs⟩
    exact ⟨b, ⟨h, hh, hb⟩, (ObjectType.header_of_declareAll hb).symm ▸ hc, hs⟩
  · rintro ⟨b, ⟨h, hh, hb⟩, hc, hs⟩
    exact ⟨h, hh, (), ObjectType.header_of_declareAll hb ▸ hc, b, hb, hs⟩

namespace Collects

theorem checkCode_iff (h : s.Collects bs) :
    s.checkCode b.header = .ok () ↔ ∀ a ∈ bs, a.code = b.code → a.name = b.name := by
  rw [checkCode_eq_ok_iff]
  constructor
  · exact fun hc a ha e => hc a.name (h.codes_get?.2 ⟨a, ha, rfl, e⟩)
  · intro hb n hn
    obtain ⟨a, ha, rfl, e⟩ := h.codes_get?.1 hn
    exact hb a ha e

theorem of_addBlock_of_none (h : s.Collects bs) (hb : b.Declared)
    (hcode : ∀ a ∈ bs, a.code = b.code → a.name = b.name) (ho : s.object? b.name = none)
    (hs : (s.addBlock b).result = .ok s') : s'.Collects (bs ++ [b]) := by
  have hnew : ∀ a ∈ bs, a.name ≠ b.name := fun a ha e =>
    object?_eq_none_iff.1 ho (h.mem_keys.2 ⟨a, ha, e⟩)
  have hj : ∀ a ∈ bs, a.Joins b := fun a ha =>
    ⟨⟨fun e => absurd e (hnew a ha), fun e => hcode a ha e⟩, fun e => absurd e (hnew a ha)⟩
  have hblocks : blocksOf (bs ++ [b]) b.name = [b] := by
    rw [ObjectType.blocksOf_append_self, blocksOf,
      List.filter_eq_nil_iff.2 fun a ha => by simpa using hnew a ha, List.nil_append]
  rw [addBlock_of_none ho] at hs
  obtain rfl := Except.ok.inj hs
  refine h.put hb hj ?_ ?_ hb.subTypes rfl fun c => CodeMap.get?_insert
  · rw [hblocks, superTypesOf, List.flatMap_singleton, OrderedSet.ofList_toList]; rfl
  · rw [hblocks, propertiesOf, List.flatMap_singleton,
      Property.placeAll_of_apart (by simp) hb.holds.pairwise_apart]
    exact hb.holds

/-- A further block of an object is merged into it. -/
theorem of_addBlock_of_some {o : ObjectType} (h : s.Collects bs) (hb : b.Declared)
    (hcode : ∀ a ∈ bs, a.code = b.code → a.name = b.name) (ho : s.object? b.name = some o)
    (hs : (s.addBlock b).result = .ok s') : s'.Collects (bs ++ [b]) := by
  obtain ⟨hc, o', ho', rfl⟩ := (addBlock_of_some ho).1 hs
  have hown : s.own b.name = o.properties.values := own_of_object ho
  have hdecl := h.declared.object ho
  obtain ⟨hagree, rfl⟩ := (ObjectType.absorb_eq_ok_iff hdecl.holds hb.holds).1 ho'
  have hname := h.declared.name ho
  have hj : ∀ a ∈ bs, a.Joins b := by
    intro a ha
    refine ⟨⟨fun e => ?_, hcode a ha⟩, fun e p hp q hq => ?_⟩
    · exact (h.code a ha o (e.symm ▸ ho)).symm.trans hc
    · -- the merge was checked against the object only, which stands for all its blocks
      exact (h.agrees_own_iff.1 fun r hr => hagree r (hown ▸ hr) q hq) a ha e p hp
  refine h.put hb hj ?_ ?_ ?_ rfl fun c => ?_
  · rw [ObjectType.header_merge, hname, hc, h.superTypes _ o ho,
      ObjectType.blocksOf_append_self, superTypesOf, superTypesOf, List.flatMap_append,
      List.flatMap_singleton, OrderedSet.ofList_append]
    rfl
  · rw [ObjectType.blocksOf_append_self, propertiesOf, List.flatMap_append,
      List.flatMap_singleton, Property.placeAll_append, ← propertiesOf, ← h.properties, hown]
    exact hdecl.holds.merge hb.holds hagree
  · rw [ObjectType.subTypes_merge]; exact hdecl.subTypes
  · rw [codes_setObject]
    split
    · next e => exact h.declared.code.2 ⟨o, ho, hc.trans e⟩
    · rfl

/-- **A block that was added joins with all blocks so far,** and the schema collects it
as well. -/
theorem of_addBlock (h : s.Collects bs) (hb : b.Declared)
    (hcode : s.checkCode b.header = .ok ()) (hs : (s.addBlock b).result = .ok s') :
    s'.Collects (bs ++ [b]) := by
  cases ho : s.object? b.name with
  | none => exact h.of_addBlock_of_none hb (h.checkCode_iff.1 hcode) ho hs
  | some o => exact h.of_addBlock_of_some hb (h.checkCode_iff.1 hcode) ho hs

theorem exists_addBlock (h : s.Collects bs) (hb : b.Declared) (hj : ∀ a ∈ bs, a.Joins b) :
    s.checkCode b.header = .ok () ∧ ∃ s', (s.addBlock b).result = .ok s' := by
  refine ⟨h.checkCode_iff.2 fun a ha => (hj a ha).header.2, ?_⟩
  cases ho : s.object? b.name with
  | none => exact ⟨_, addBlock_of_none ho⟩
  | some o =>
    obtain ⟨a, ha, hn, hc⟩ := h.exists_block ho
    have hagree : ∀ q ∈ o.properties.values, ∀ p ∈ b.properties.values, q.Agrees p := by
      intro q hq p hp
      rw [← own_of_object ho] at hq
      exact h.agrees_own_iff.2 (fun a ha e r hr => (hj a ha).properties e r hr p hp) q hq
    have hmerge : o.absorb b = .ok (o.merge b) :=
      (ObjectType.absorb_eq_ok_iff (h.declared.object ho).holds hb.holds).2 ⟨hagree, rfl⟩
    exact ⟨s.setObject b.name (o.merge b), (addBlock_of_some ho).2
      ⟨hc.trans ((hj a ha).header.1 hn), o.merge b, hmerge, rfl⟩⟩

/-! ### Declaring nodes -/

theorem of_declare {node : Node} (h : s.Collects bs)
    (hs : (s.declare options node).result = .ok s') :
    ∃ b, ObjectType.ofNode options node = .ok b ∧ s'.Collects (bs ++ [b]) := by
  obtain ⟨b, hb, hc, hs⟩ := declare_result_eq_ok_iff.1 hs
  exact ⟨b, hb, h.of_addBlock (ObjectType.declared_of_ofNode hb) hc hs⟩

theorem exists_declare {node : Node} (h : s.Collects bs)
    (hb : ObjectType.ofNode options node = .ok b) (hj : ∀ a ∈ bs, a.Joins b) :
    ∃ s', (s.declare options node).result = .ok s' ∧ s'.Collects (bs ++ [b]) := by
  have hdecl := ObjectType.declared_of_ofNode hb
  obtain ⟨hc, s', hs⟩ := h.exists_addBlock hdecl hj
  exact ⟨s', declare_result_eq_ok_iff.2 ⟨b, hb, hc, hs⟩, h.of_addBlock hdecl hc hs⟩

/-- **What a list of declarations collects**: the blocks of its nodes. -/
theorem of_foldlM_declare {nodes : List Node} (h : s.Collects bs)
    (hs : (nodes.foldlM (Schema.declare options) s).result = .ok s') :
    ∃ bs', nodes.map (ObjectType.ofNode options) = bs'.map .ok ∧ s'.Collects (bs ++ bs') := by
  induction nodes generalizing s bs with
  | nil =>
    obtain rfl := Logged.result_foldlM_nil_eq_ok_iff.1 hs
    exact ⟨[], rfl, by rwa [List.append_nil]⟩
  | cons node nodes ih =>
    obtain ⟨s₁, h1, h2⟩ := Logged.result_foldlM_cons_eq_ok_iff.1 hs
    obtain ⟨b, hb, h1⟩ := h.of_declare h1
    obtain ⟨bs', hbs', h2⟩ := ih h1 h2
    exact ⟨b :: bs', by rw [List.map_cons, List.map_cons, hb, hbs'], List.append_cons bs b bs' ▸ h2⟩

theorem exists_foldlM_declare {nodes : List Node} {bs' : List ObjectType} (h : s.Collects bs)
    (hbs' : nodes.map (ObjectType.ofNode options) = bs'.map .ok)
    (hj : (bs ++ bs').Pairwise ObjectType.Joins) :
    ∃ s', (nodes.foldlM (Schema.declare options) s).result = .ok s' := by
  induction nodes generalizing s bs bs' with
  | nil => exact ⟨s, rfl⟩
  | cons node nodes ih =>
    rw [List.map_cons, eq_comm, List.map_eq_cons_iff] at hbs'
    obtain ⟨b, bs', rfl, hb, hbs'⟩ := hbs'
    obtain ⟨_, _, hcross⟩ := List.pairwise_append.1 hj
    obtain ⟨s₁, h1, hcol⟩ := h.exists_declare hb.symm fun a ha => hcross a ha b List.mem_cons_self
    obtain ⟨s', h2⟩ := ih hcol hbs'.symm (List.append_cons bs b bs' ▸ hj)
    exact ⟨s', Logged.result_foldlM_cons_eq_ok_iff.2 ⟨s₁, h1, h2⟩⟩

end Collects
end Schema

/-! ### The nodes that are passed over -/

def Options.declared (options : Options) (nodes : List Node) : List Node :=
  nodes.filter fun node => !(options.skipDerived && isDerived node)

/-- A node that is passed over changes nothing. -/
theorem result_foldlM_declareUnlessDerived {options : Options} (nodes : List Node) (s : Schema) :
    (nodes.foldlM (Schema.declareUnlessDerived options) s).result =
      ((options.declared nodes).foldlM (Schema.declare options) s).result := by
  refine Logged.result_foldlM_filter (fun node s hd => ?_) (fun node s hd => ?_) nodes s
  · rw [Bool.not_eq_false'] at hd
    rw [Schema.declareUnlessDerived, if_pos hd]; rfl
  · rw [Bool.not_eq_true'] at hd
    rw [Schema.declareUnlessDerived, if_neg (by simp [hd])]

theorem result_declareAll {options : Options} (nodes : List Node) :
    (declareAll options nodes).result =
      ((options.declared nodes).foldlM (Schema.declare options) ∅).result := by
  rw [declareAll, Logged.result_bind, Logged.result_tell]
  exact result_foldlM_declareUnlessDerived nodes ∅

/-- **The schema of an outline collects the blocks of its declared nodes.** -/
theorem collects_of_declareAll {options : Options} {nodes : List Node} {s : Schema}
    (h : (declareAll options nodes).result = .ok s) :
    ∃ bs, (options.declared nodes).map (ObjectType.ofNode options) = bs.map .ok ∧
      s.Collects bs := by
  rw [result_declareAll] at h
  exact Schema.Collects.empty.of_foldlM_declare h

theorem declared_of_declareAll {options : Options} {nodes : List Node} {s : Schema}
    (h : (declareAll options nodes).result = .ok s) : s.Declared := by
  obtain ⟨_, _, hcollects⟩ := collects_of_declareAll h
  exact hcollects.declared

/-- **An outline has a schema** exactly when its declared nodes have blocks, any two of
which join. -/
theorem exists_declareAll_iff {options : Options} {nodes : List Node} :
    (∃ s, (declareAll options nodes).result = .ok s) ↔
      ∃ bs : List ObjectType,
        (options.declared nodes).map (ObjectType.ofNode options) = bs.map .ok ∧
          bs.Pairwise ObjectType.Joins := by
  constructor
  · rintro ⟨s, h⟩
    obtain ⟨bs, hbs, hs⟩ := collects_of_declareAll h
    exact ⟨bs, hbs, hs.joins⟩
  · rintro ⟨bs, hbs, hj⟩
    rw [result_declareAll]
    exact Schema.Collects.empty.exists_foldlM_declare hbs hj

end SchemaLang
