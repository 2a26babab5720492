import SchemaLang.Proofs.Declaration.Acceptance
import Mathlib.Data.List.Forall2
import Mathlib.Data.List.Perm.Basic

/-!
# Outlines in another order

The nodes of an outline are put in another order, in which the nodes of one object keep their
order, and the object codes are replaced through a function `f` (`Outline.Rearranged`).  The blocks
of the nodes are rearranged in the same way, and with them the objects that they add up to: each
object is the old one with its new code (`Collects.recoded`), since an object comes from the blocks
of its name alone.  When `f` is injective, blocks join exactly when they did before, so that the
one outline has a schema exactly when the other one has (`exists_declareAll_iff_of_rearranged`).
-/

namespace SchemaLang

open List (Forall₂)
open Outline (Node)

variable {options : Options} {f : Code → Code} {a b : Node} {nodes nodes' : List Node}
  {A B : ObjectType} {bs bs' : List ObjectType} {d d' : Schema} {n : String}

/-! ### Nodes with other codes -/

namespace Outline

/-- The second node has another second word, which has the code of the first node replaced through
`f`, if that one has a code. -/
structure Node.Recoded (f : Code → Code) (a b : Node) : Prop where
  words : ∃ word, b.words = a.words.set 1 word
  code : b.objectCode? = a.objectCode?.map f
  children : b.children = a.children
  line : b.line = a.line

/-- The nodes are those of the first list in another order, in which the nodes of one name keep
their order, and with object codes replaced through `f`. -/
def Rearranged (f : Code → Code) (nodes nodes' : List Node) : Prop :=
  ∃ moved : List Node, nodes.Perm moved ∧
    (∀ n : String, (moved.filter fun node => node.name? = some n) =
      nodes.filter fun node => node.name? = some n) ∧
    Forall₂ (Node.Recoded f) moved nodes'

namespace Node.Recoded

theorem name?_eq (h : a.Recoded f b) : b.name? = a.name? := by
  obtain ⟨word, hw⟩ := h.words
  rw [name?, name?, hw, List.getElem?_set_ne (by decide)]

theorem isDerived_eq (h : a.Recoded f b) : isDerived b = isDerived a := by
  have hname := h.name?_eq
  rw [isDerived, isDerived, h.line]
  rw [name?, name?] at hname
  cases hb : b.words with
  | nil =>
    cases ha : a.words with
    | nil => rfl
    | cons w ws => rw [hb, ha] at hname; cases hname
  | cons v vs =>
    cases ha : a.words with
    | nil => rw [hb, ha] at hname; cases hname
    | cons w ws =>
      rw [hb, ha] at hname
      rw [Option.some.inj hname]

theorem isHeader_iff (h : a.Recoded f b) : b.IsHeader options ↔ a.IsHeader options := by
  have hlength : b.words.length = a.words.length := by
    obtain ⟨word, hw⟩ := h.words
    rw [hw, List.length_set]
  have hcode : (∃ code, b.objectCode? = some code) ↔ ∃ code, a.objectCode? = some code := by
    rw [h.code, ← Option.isSome_iff_exists, ← Option.isSome_iff_exists, Option.isSome_map]
  constructor
  · intro hb
    exact ⟨hlength ▸ hb.two_words, hcode.1 hb.code, h.name?_eq ▸ hb.name_free⟩
  · intro ha
    exact ⟨hlength ▸ ha.two_words, hcode.2 ha.code, h.name?_eq ▸ ha.name_free⟩

end Node.Recoded

theorem Rearranged.declared (h : Rearranged f nodes nodes') :
    Rearranged f (options.declared nodes) (options.declared nodes') := by
  obtain ⟨moved, hperm, horder, hcodes⟩ := h
  refine ⟨options.declared moved, hperm.filter _, fun n => ?_, ?_⟩
  · rw [Options.declared, Options.declared, List.filter_comm, horder, List.filter_comm]
  · refine List.rel_filter (fun a b hab => ?_) hcodes
    exact Bool.eq_iff_iff.1 (by rw [hab.isDerived_eq])

end Outline

/-! ### Blocks with other codes -/

namespace ObjectType

def recode (f : Code → Code) (o : ObjectType) : ObjectType := { o with code := f o.code }

/-- The blocks are those of the first list in another order, in which the blocks of one object keep
their order, and with codes replaced through `f`. -/
structure Rearranged (f : Code → Code) (bs bs' : List ObjectType) : Prop where
  perm : (bs.map (recode f)).Perm bs'
  blocks : ∀ n, blocksOf bs' n = (blocksOf bs n).map (recode f)

/-- **The block of a node with another code** is the block with another code. -/
theorem ofNode_recoded (h : a.Recoded f b) (hA : ofNode options a = .ok A) :
    ofNode options b = .ok (A.recode f) := by
  obtain ⟨hhead, hname, hcode, hsup, hsub, ps, hps, hapart, hholds⟩ := ofNode_eq_ok_iff.1 hA
  obtain ⟨word, hw⟩ := h.words
  refine ofNode_eq_ok_iff.2 ⟨h.isHeader_iff.2 hhead, h.name?_eq.trans hname, ?_, ?_, hsub,
    ps, ?_, hapart, hholds.of_indexes_eq rfl rfl⟩
  · rw [h.code, hcode]
    rfl
  · rw [hw, List.drop_set_of_lt (by decide)]
    exact hsup
  · rw [h.children]
    exact hps

theorem exists_ofNode_iff_of_recoded (h : a.Recoded f b) :
    (∃ B, ofNode options b = .ok B) ↔ ∃ A, ofNode options a = .ok A := by
  rw [exists_ofNode_iff, exists_ofNode_iff, h.isHeader_iff, h.children]

theorem joins_recode_iff (hf : Function.Injective f) :
    (A.recode f).Joins (B.recode f) ↔ A.Joins B := by
  constructor
  · exact fun h => ⟨h.header.trans hf.eq_iff, h.properties⟩
  · exact fun h => ⟨h.header.trans hf.eq_iff.symm, h.properties⟩

theorem Rearranged.pairwise_joins_iff (h : Rearranged f bs bs') (hf : Function.Injective f) :
    bs'.Pairwise Joins ↔ bs.Pairwise Joins := by
  rw [← h.perm.pairwise_iff fun hj => hj.symm, List.pairwise_map]
  simp only [joins_recode_iff hf]

/-! ### The blocks of rearranged nodes -/

theorem map_ofNode_recoded (h : Forall₂ (Node.Recoded f) nodes nodes')
    (hbs : nodes.map (ofNode options) = bs.map .ok) :
    nodes'.map (ofNode options) = (bs.map (recode f)).map .ok := by
  induction h generalizing bs with
  | nil =>
    rw [List.map_nil, eq_comm, List.map_eq_nil_iff] at hbs
    rw [hbs]
    rfl
  | cons hab _ ih =>
    rw [List.map_cons, eq_comm, List.map_eq_cons_iff] at hbs
    obtain ⟨A, bs, rfl, hA, hbs⟩ := hbs
    rw [List.map_cons, List.map_cons, List.map_cons, ofNode_recoded hab hA.symm, ih hbs.symm]

/-- **The blocks of rearranged nodes are rearranged blocks.** -/
theorem exists_rearranged (h : Outline.Rearranged f nodes nodes')
    (hbs : nodes.map (ofNode options) = bs.map .ok) :
    ∃ bs' : List ObjectType, nodes'.map (ofNode options) = bs'.map .ok ∧ Rearranged f bs bs' := by
  obtain ⟨moved, hperm, horder, hcodes⟩ := h
  have hinj : Function.Injective (Except.ok : ObjectType → Except CompileError ObjectType) :=
    fun a b e => Except.ok.inj e
  obtain ⟨ms, hms⟩ := exists_map_eq_map_ok (f := ofNode options) (l := moved) fun a ha => by
    obtain ⟨A, _, hA⟩ := exists_of_mem_of_map_eq hbs (hperm.mem_iff.2 ha)
    exact ⟨A, hA⟩
  have hblocks : ∀ n, blocksOf ms n = blocksOf bs n := fun n => by
    have hfilter := map_ofNode_filter_name hms n
    rw [horder, map_ofNode_filter_name hbs n] at hfilter
    exact (List.map_injective_iff.2 hinj hfilter).symm
  refine ⟨ms.map (recode f), map_ofNode_recoded hcodes hms, ?_, fun n => ?_⟩
  · refine List.Perm.map _ ((List.map_perm_map_iff hinj).1 ?_)
    rw [← hbs, ← hms]
    exact hperm.map _
  · rw [← hblocks, blocksOf, List.filter_map]
    rfl

theorem exists_map_ofNode_of_rearranged (h : Outline.Rearranged f nodes nodes')
    (hbs' : nodes'.map (ofNode options) = bs'.map .ok) :
    ∃ bs : List ObjectType, nodes.map (ofNode options) = bs.map .ok := by
  obtain ⟨moved, hperm, _, hcodes⟩ := h
  refine exists_map_eq_map_ok fun a ha => ?_
  obtain ⟨i, rfl⟩ := List.mem_iff_get.1 (hperm.mem_iff.1 ha)
  obtain ⟨hlength, hget⟩ := List.forall₂_iff_get.1 hcodes
  have hi : i < nodes'.length := hlength ▸ i.2
  obtain ⟨B, _, hB⟩ := exists_of_mem_of_map_eq hbs' (List.get_mem nodes' ⟨i, hi⟩)
  exact (exists_ofNode_iff_of_recoded (hget i i.2 hi)).1 ⟨B, hB⟩

end ObjectType

/-! ### Schemas with other codes -/

namespace Schema

open ObjectType (recode blocksOf propertiesOf superTypesOf)

/-- The second schema has the objects of the first one, in any order, with their codes replaced
through `f`. -/
def Recoded (f : Code → Code) (d d' : Schema) : Prop :=
  ∀ n, d'.object? n = (d.object? n).map (recode f)

/-- **Rearranged blocks add up to the same objects** with other codes. -/
theorem Collects.recoded (h : d.Collects bs) (h' : d'.Collects bs')
    (hr : ObjectType.Rearranged f bs bs') : d.Recoded f d' := by
  intro n
  have hkeys : n ∈ d'.objects.keys ↔ n ∈ d.objects.keys := by
    rw [h.mem_keys, h'.mem_keys]
    constructor
    · rintro ⟨b, hb, rfl⟩
      obtain ⟨a, ha, rfl⟩ := List.mem_map.1 (hr.perm.mem_iff.2 hb)
      exact ⟨a, ha, rfl⟩
    · rintro ⟨a, ha, rfl⟩
      exact ⟨a.recode f, hr.perm.mem_iff.1 (List.mem_map_of_mem ha), rfl⟩
  cases ho : d.object? n with
  | none =>
    rw [object?_eq_none_iff, ← hkeys] at ho
    exact object?_eq_none_iff.2 ho
  | some o =>
    obtain ⟨o', ho'⟩ := mem_keys_iff.1 (hkeys.2 (mem_keys_iff.2 ⟨o, ho⟩))
    rw [ho', Option.map_some]
    refine congrArg some ?_
    have hblocks := hr.blocks n
    have hown : o'.properties.values = o.properties.values := by
      rw [← own_of_object ho, ← own_of_object ho', h.properties, h'.properties, hblocks,
        propertiesOf, List.flatMap_map]
      rfl
    have hholds : (o.recode f).Holds o.properties.values :=
      (h.declared.object ho).holds.of_indexes_eq rfl rfl
    refine (hown ▸ (h'.declared.object ho').holds).ext hholds ?_ ?_
    · refine ObjectType.header_eq_iff.2 ⟨?_, ?_, ?_⟩
      · exact (h'.declared.name ho').trans (h.declared.name ho).symm
      · -- any block of the object has its code, and so has the block with the other code
        obtain ⟨a, ha, rfl, hcode⟩ := h.exists_block ho
        have hmem : a.recode f ∈ bs' := hr.perm.mem_iff.1 (List.mem_map_of_mem ha)
        rw [h'.code _ hmem o' ho']
        exact congrArg f hcode.symm
      · rw [h'.superTypes n o' ho', hblocks, superTypesOf, List.flatMap_map]
        exact (h.superTypes n o ho).symm
    · exact (h'.declared.object ho').subTypes.trans (h.declared.object ho).subTypes.symm

end Schema

/-! ### Rearranged outlines -/

/-- **Of two rearranged outlines, one has a schema when the other one has.** -/
theorem exists_declareAll_iff_of_rearranged (h : Outline.Rearranged f nodes nodes')
    (hf : Function.Injective f) :
    (∃ d, (declareAll options nodes).result = .ok d) ↔
      ∃ d', (declareAll options nodes').result = .ok d' := by
  have hdeclared := @Outline.Rearranged.declared options _ _ _ h
  rw [exists_declareAll_iff, exists_declareAll_iff]
  constructor
  · rintro ⟨bs, hbs, hjoins⟩
    obtain ⟨bs', hbs', hr⟩ := ObjectType.exists_rearranged hdeclared hbs
    exact ⟨bs', hbs', (hr.pairwise_joins_iff hf).2 hjoins⟩
  · rintro ⟨bs', hbs', hjoins⟩
    obtain ⟨bs, hbs⟩ := ObjectType.exists_map_ofNode_of_rearranged hdeclared hbs'
    obtain ⟨bs'', hbs'', hr⟩ := ObjectType.exists_rearranged hdeclared hbs
    obtain rfl : bs'' = bs' := List.map_injective_iff.2
      (fun a b e => Except.ok.inj e) (hbs''.symm.trans hbs')
    exact ⟨bs, hbs, (hr.pairwise_joins_iff hf).1 hjoins⟩

theorem recoded_of_declareAll (h : Outline.Rearranged f nodes nodes')
    (hd : (declareAll options nodes).result = .ok d)
    (hd' : (declareAll options nodes').result = .ok d') : d.Recoded f d' := by
  obtain ⟨bs, hbs, hcollects⟩ := collects_of_declareAll hd
  obtain ⟨bs', hbs', hcollects'⟩ := collects_of_declareAll hd'
  obtain ⟨bs'', hbs'', hr⟩ :=
    ObjectType.exists_rearranged (@Outline.Rearranged.declared options _ _ _ h) hbs
  obtain rfl : bs'' = bs' := List.map_injective_iff.2
    (fun a b e => Except.ok.inj e) (hbs''.symm.trans hbs')
  exact hcollects.recoded hcollects' hr

end SchemaLang
