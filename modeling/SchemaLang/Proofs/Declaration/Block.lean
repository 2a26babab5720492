import SchemaLang.Declaration
import SchemaLang.Proofs.Holding
import SchemaLang.Proofs.Sequence

/-!
# What one node declares

A top-level node is read on its own as a *block*, an object type with the super types
and the properties that the node spells (`ObjectType.ofNode`).  Whether it can be read
is a matter of its words and of those of its children alone.

* `Header.ofNode_eq_ok_iff`, `Property.ofNode_eq_ok_iff`: what a line must look like,
  and what it spells.
* `ObjectType.ofNode_eq_ok_iff`: the block of a node holds the properties that the
  children spell, in their order.
* `ObjectType.exists_ofNode_iff`: a node has a block when its header and its children
  are in order and no two children share a name or a code.
-/

namespace SchemaLang

/-! ### The words of a line -/

namespace Outline.Node

/-- The first word: the name of an object or of a property. -/
def name? (node : Node) : Option String := node.words[0]?

def objectCode? (node : Node) : Option Code := node.words[1]?.bind Code.ofText?

def propertyCode? (node : Node) : Option Code := node.words[2]?.bind Code.ofText?

/-- The node is the header of a block: name and code are there, the code is one, and
the name is not reserved. -/
structure IsHeader (options : Options) (node : Node) : Prop where
  two_words : 2 ≤ node.words.length
  code : ∃ code, node.objectCode? = some code
  name_free : ∀ name, node.name? = some name → name ∉ options.reservedNames

/-- The node is the line of a property: nothing is below it, name, type and code are
there, the code is one, the type does not nest too deep, and no reserved name has the
lower-case form of the name. -/
structure IsProperty (options : Options) (node : Node) : Prop where
  no_children : node.children = []
  three_words : 3 ≤ node.words.length
  code : ∃ code, node.propertyCode? = some code
  type_depth : ∀ type, node.words[1]? = some type → type.toList.count ':' ≤ maxTypeDepth
  name_free : ∀ name, node.name? = some name →
    ∀ reserved ∈ options.reservedNames, Text.lowercase reserved ≠ Text.lowercase name

end Outline.Node

open Outline (Node)

theorem Options.reservesObject_iff {options : Options} {name : String} :
    options.reservesObject name = true ↔ name ∈ options.reservedNames :=
  List.contains_iff_mem

theorem Options.reservesProperty_iff {options : Options} {name : String} :
    options.reservesProperty name = true ↔
      ∃ r ∈ options.reservedNames, Text.lowercase r = Text.lowercase name := by
  simp [reservesProperty]

theorem Header.ofNode_eq_ok_iff {options : Options} {node : Node} {h : Header} :
    Header.ofNode options node = .ok h ↔
      node.IsHeader options ∧ node.name? = some h.name ∧ node.objectCode? = some h.code ∧
        h.superTypes = OrderedSet.ofList (node.words.drop 2) := by
  obtain ⟨words, children, line, lineNumber⟩ := node
  match words with
  | [] => exact ⟨fun hh => (by cases hh), fun hh => absurd hh.1.two_words (by simp)⟩
  | [name] => exact ⟨fun hh => (by cases hh), fun hh => absurd hh.1.two_words (by simp)⟩
  | name :: codeWord :: superTypes =>
    rw [Header.ofNode]
    cases hc : Code.ofText? codeWord with
    | none =>
      refine ⟨fun hh => by simp [hc] at hh, fun hh => ?_⟩
      have hcode : Code.ofText? codeWord = some h.code := hh.2.2.1
      rw [hc] at hcode
      cases hcode
    | some code =>
      simp only [hc]
      by_cases hr : options.reservesObject name = true
      · rw [if_pos hr]
        refine ⟨fun hh => (by cases hh), fun hh => ?_⟩
        exact absurd (Options.reservesObject_iff.1 hr) (hh.1.name_free name rfl)
      · rw [if_neg hr]
        constructor
        · intro hh
          cases hh
          refine ⟨⟨by simp, ⟨code, hc⟩, ?_⟩, rfl, hc, rfl⟩
          intro n hn hmem
          cases hn
          exact hr (Options.reservesObject_iff.2 hmem)
        · rintro ⟨_, hn, hcode, hs⟩
          have hcode' : Code.ofText? codeWord = some h.code := hcode
          have hn' : some name = some h.name := hn
          rw [hc] at hcode'
          cases hcode'
          cases hn'
          rw [List.drop_succ_cons, List.drop_succ_cons, List.drop_zero] at hs
          rw [← hs]

theorem Property.ofNode_eq_ok_iff {options : Options} {owner : String} {node : Node}
    {p : Property} :
    Property.ofNode options owner node = .ok p ↔
      node.IsProperty options ∧ node.name? = some p.name ∧
        node.words[1]?.map TypeExpr.ofText = some p.type ∧ node.propertyCode? = some p.code ∧
        p.tags = OrderedSet.ofList (node.words.drop 3) ∧ p.owner = owner := by
  obtain ⟨words, children, line, lineNumber⟩ := node
  cases children with
  | cons c cs => exact ⟨fun hh => (by cases hh), fun hh => absurd hh.1.no_children (by simp)⟩
  | nil =>
    match words with
    | [] => exact ⟨fun hh => (by cases hh), fun hh => absurd hh.1.three_words (by simp)⟩
    | [_] => exact ⟨fun hh => (by cases hh), fun hh => absurd hh.1.three_words (by simp)⟩
    | [_, _] => exact ⟨fun hh => (by cases hh), fun hh => absurd hh.1.three_words (by simp)⟩
    | name :: typeWord :: codeWord :: tags =>
      rw [Property.ofNode, if_neg (by simp)]
      cases hc : Code.ofText? codeWord with
      | none =>
        refine ⟨fun hh => by simp [hc] at hh, fun hh => ?_⟩
        have hcode : Code.ofText? codeWord = some p.code := hh.2.2.2.1
        rw [hc] at hcode
        cases hcode
      | some code =>
        simp only [hc]
        by_cases hd : typeWord.toList.count ':' > maxTypeDepth
        · rw [if_pos hd]
          refine ⟨fun hh => (by cases hh), fun hh => ?_⟩
          exact absurd (hh.1.type_depth typeWord rfl) (by omega)
        · rw [if_neg hd]
          by_cases hr : options.reservesProperty name = true
          · rw [if_pos hr]
            obtain ⟨r, hr, e⟩ := Options.reservesProperty_iff.1 hr
            exact ⟨fun hh => (by cases hh), fun hh => absurd e (hh.1.name_free name rfl r hr)⟩
          · rw [if_neg hr]
            constructor
            · intro hh
              cases hh
              refine ⟨⟨rfl, by simp, ⟨code, hc⟩, ?_, ?_⟩, rfl, rfl, hc, rfl, rfl⟩
              · intro t ht
                cases ht
                omega
              · intro n hn r hmem e
                cases hn
                exact hr (Options.reservesProperty_iff.2 ⟨r, hmem, e⟩)
            · rintro ⟨_, hn, ht, hcode, hs, rfl⟩
              have hcode' : Code.ofText? codeWord = some p.code := hcode
              have hn' : some name = some p.name := hn
              have ht' : TypeExpr.ofText typeWord = p.type := Option.some.inj ht
              rw [hc] at hcode'
              cases hcode'
              cases hn'
              rw [List.drop_succ_cons, List.drop_succ_cons, List.drop_succ_cons,
                List.drop_zero] at hs
              rw [← hs, ht']

theorem Property.exists_ofNode_iff {options : Options} {owner : String} {node : Node} :
    (∃ p, Property.ofNode options owner node = .ok p) ↔ node.IsProperty options := by
  refine ⟨fun ⟨p, hp⟩ => (Property.ofNode_eq_ok_iff.1 hp).1, fun h => ?_⟩
  obtain ⟨code, hcode⟩ := h.code
  have h3 := h.three_words
  refine ⟨⟨node.words[0], TypeExpr.ofText node.words[1], code,
    OrderedSet.ofList (node.words.drop 3), owner⟩, Property.ofNode_eq_ok_iff.2 ?_⟩
  refine ⟨h, ?_, ?_, hcode, rfl, rfl⟩
  · exact List.getElem?_eq_getElem (by omega)
  · rw [List.getElem?_eq_getElem (by omega)]; rfl

namespace ObjectType

def header (o : ObjectType) : Header := ⟨o.name, o.code, o.superTypes⟩

theorem header_eq_iff {o o' : ObjectType} :
    o.header = o'.header ↔
      o.name = o'.name ∧ o.code = o'.code ∧ o.superTypes = o'.superTypes := by
  rw [header, header, Header.mk.injEq]

theorem Holds.ext {o o' : ObjectType} {l : List Property} (h : o.Holds l) (h' : o'.Holds l)
    (hh : o.header = o'.header) (hs : o.subTypes = o'.subTypes) : o = o' := by
  obtain ⟨hp, hc⟩ := h.indexes_eq h'
  obtain ⟨hn, hk, ht⟩ := header_eq_iff.1 hh
  cases o
  cases o'
  simp_all

variable {options : Options} {o o' : ObjectType} {l ps : List Property} {p : Property}

/-! ### Adding the properties of a block -/

@[simp] theorem header_insertProperties :
    ∀ {ps : List Property} {o : ObjectType}, (o.insertProperties ps).header = o.header
  | [], _ => rfl
  | p :: _, o => header_insertProperties (o := o.insertProperty p)

@[simp] theorem subTypes_insertProperties :
    ∀ {ps : List Property} {o : ObjectType}, (o.insertProperties ps).subTypes = o.subTypes
  | [], _ => rfl
  | p :: _, o => subTypes_insertProperties (o := o.insertProperty p)

theorem declare_eq_ok_iff (h : o.Holds l) :
    o.declare p = .ok o' ↔ (∀ q ∈ l, q.Apart p) ∧ o' = o.insertProperty p := by
  have hcode : o.propertiesByCode.contains p.code = (o.propertyByCode? p.code).isSome := rfl
  have hname : o.properties.contains p.name = (o.property? p.name).isSome := rfl
  rw [declare, hcode, hname]
  cases hc : o.propertyByCode? p.code with
  | some q =>
    obtain ⟨hq, e⟩ := h.propertyByCode?_eq_some_iff.1 hc
    exact ⟨fun hh => (by cases hh), fun hh => absurd e (hh.1 q hq).2⟩
  | none =>
    cases hn : o.property? p.name with
    | some q =>
      obtain ⟨hq, e⟩ := h.property?_eq_some_iff.1 hn
      exact ⟨fun hh => (by cases hh), fun hh => absurd e (hh.1 q hq).1⟩
    | none =>
      have hl : ∀ q ∈ l, q.Apart p := fun q hq =>
        ⟨h.property?_eq_none_iff.1 hn q hq, h.propertyByCode?_eq_none_iff.1 hc q hq⟩
      constructor
      · intro hh; cases hh; exact ⟨hl, rfl⟩
      · rintro ⟨_, rfl⟩; rfl

/-- The properties that nodes spell are declared exactly when no two of them, and none
of them and an older one, share a name or a code. -/
theorem declareAll_eq_ok_iff {nodes : List Node} (h : o.Holds l) :
    o.declareAll options nodes = .ok o' ↔
      ∃ ps, nodes.map (Property.ofNode options o.name) = ps.map .ok ∧
        (∀ q ∈ l, ∀ p ∈ ps, q.Apart p) ∧ ps.Pairwise Property.Apart ∧
        o' = o.insertProperties ps := by
  induction nodes generalizing o l with
  | nil =>
    constructor
    · intro hh
      cases hh
      exact ⟨[], rfl, by simp, .nil, rfl⟩
    · rintro ⟨ps, hf, _, _, rfl⟩
      rw [List.map_nil, eq_comm, List.map_eq_nil_iff] at hf
      subst hf
      rfl
  | cons node nodes ih =>
    rw [declareAll, foldlM_cons_eq_ok_iff]
    constructor
    · rintro ⟨o₁, h1, h2⟩
      obtain ⟨p, hp, h1⟩ := bind_eq_ok_iff.1 h1
      obtain ⟨hl, rfl⟩ := (declare_eq_ok_iff h).1 h1
      obtain ⟨ps, hf, hl', hps, rfl⟩ := (ih (h.insertProperty_of_apart hl)).1 h2
      refine ⟨p :: ps, ?_, fun q hq r hr => ?_, List.pairwise_cons.2 ⟨?_, hps⟩, rfl⟩
      · rw [List.map_cons, List.map_cons, hp, ← hf]; rfl
      · rcases List.mem_cons.1 hr with rfl | hr
        · exact hl q hq
        · exact hl' q (List.mem_append_left _ hq) r hr
      · intro r hr
        exact hl' p (List.mem_append_right _ List.mem_cons_self) r hr
    · rintro ⟨ps', hf, hl, hps, rfl⟩
      rw [List.map_cons, eq_comm, List.map_eq_cons_iff] at hf
      obtain ⟨p, ps, rfl, hp, hf⟩ := hf
      obtain ⟨hp', hps⟩ := List.pairwise_cons.1 hps
      have hlp : ∀ q ∈ l, q.Apart p := fun q hq => hl q hq p List.mem_cons_self
      refine ⟨o.insertProperty p,
        bind_eq_ok_iff.2 ⟨p, hp.symm, (declare_eq_ok_iff h).2 ⟨hlp, rfl⟩⟩, ?_⟩
      refine (ih (h.insertProperty_of_apart hlp)).2 ⟨ps, hf.symm, fun q hq r hr => ?_, hps, rfl⟩
      rcases List.mem_append.1 hq with hq | hq
      · exact hl q hq r (List.mem_cons_of_mem p hr)
      · exact List.mem_singleton.1 hq ▸ hp' r hr

theorem header_of_declareAll {h : Header} {nodes : List Node}
    (ho : h.object.declareAll options nodes = .ok o) : o.header = h := by
  obtain ⟨ps, _, _, _, rfl⟩ := (declareAll_eq_ok_iff (Holds.nil rfl rfl)).1 ho
  exact header_insertProperties

/-! ### The block of a node -/

/-- The object type that a top-level node declares on its own. -/
def ofNode (options : Options) (node : Node) : Except CompileError ObjectType := do
  let header ← Header.ofNode options node
  header.object.declareAll options node.children

/-- **The block of a node.**  It has the words of the header for its name, its code and
its super types, and it holds the properties of the children in their order. -/
theorem ofNode_eq_ok_iff {node : Node} {b : ObjectType} :
    ofNode options node = .ok b ↔
      node.IsHeader options ∧ node.name? = some b.name ∧ node.objectCode? = some b.code ∧
        b.superTypes = OrderedSet.ofList (node.words.drop 2) ∧ b.subTypes = ∅ ∧
        ∃ ps, node.children.map (Property.ofNode options b.name) = ps.map .ok ∧
          ps.Pairwise Property.Apart ∧ b.Holds ps := by
  have hnil : ∀ h : Header, h.object.Holds [] := fun h => Holds.nil rfl rfl
  rw [ofNode, bind_eq_ok_iff]
  constructor
  · rintro ⟨h, hh, hb⟩
    obtain ⟨hhead, hname, hcode, hsup⟩ := Header.ofNode_eq_ok_iff.1 hh
    obtain ⟨ps, hf, _, hps, rfl⟩ := (declareAll_eq_ok_iff (hnil h)).1 hb
    have hheader : (h.object.insertProperties ps).header = h.object.header :=
      header_insertProperties
    obtain ⟨en, ec, es⟩ := header_eq_iff.1 hheader
    rw [en, ec, es, subTypes_insertProperties]
    exact ⟨hhead, hname, hcode, hsup, rfl, ps, hf, hps,
      (hnil h).insertProperties_of_apart (by simp) hps⟩
  · rintro ⟨hhead, hname, hcode, hsup, hsub, ps, hf, hps, hb⟩
    refine ⟨b.header, Header.ofNode_eq_ok_iff.2 ⟨hhead, hname, hcode, hsup⟩, ?_⟩
    refine (declareAll_eq_ok_iff (hnil _)).2 ⟨ps, hf, by simp, hps, ?_⟩
    refine hb.ext ((hnil _).insertProperties_of_apart (by simp) hps) ?_ ?_
    · rw [header_insertProperties]; rfl
    · rw [subTypes_insertProperties]; exact hsub

/-! ### Which nodes have a block -/

theorem map_name?_of_spelled {owner : String} {nodes : List Node} {ps : List Property}
    (h : nodes.map (Property.ofNode options owner) = ps.map .ok) :
    nodes.map Node.name? = (ps.map fun p => some p.name) ∧
      nodes.map Node.propertyCode? = ps.map fun p => some p.code :=
  ⟨map_eq_map_of_map_eq (fun _ _ hp => (Property.ofNode_eq_ok_iff.1 hp).2.1) h,
    map_eq_map_of_map_eq (fun _ _ hp => (Property.ofNode_eq_ok_iff.1 hp).2.2.2.1) h⟩

theorem pairwise_apart_iff_nodup :
    ps.Pairwise Property.Apart ↔
      (ps.map fun p => some p.name).Nodup ∧ (ps.map fun p => some p.code).Nodup := by
  rw [List.Nodup, List.Nodup, List.pairwise_map, List.pairwise_map, ← List.pairwise_and_iff]
  simp only [ne_eq, Option.some.injEq]
  rfl

/-- **A node has a block** exactly when its header and its children are in order, and no
two children share a name or a code. -/
theorem exists_ofNode_iff {node : Node} :
    (∃ b, ofNode options node = .ok b) ↔
      node.IsHeader options ∧ (∀ child ∈ node.children, child.IsProperty options) ∧
        (node.children.map Node.name?).Nodup ∧ (node.children.map Node.propertyCode?).Nodup := by
  constructor
  · rintro ⟨b, hb⟩
    obtain ⟨hhead, _, _, _, _, ps, hf, hps, _⟩ := ofNode_eq_ok_iff.1 hb
    refine ⟨hhead, fun child hc => ?_, ?_⟩
    · obtain ⟨p, _, hp⟩ := exists_of_mem_of_map_eq hf hc
      exact Property.exists_ofNode_iff.1 ⟨p, hp⟩
    · rw [(map_name?_of_spelled hf).1, (map_name?_of_spelled hf).2]
      exact pairwise_apart_iff_nodup.1 hps
  · rintro ⟨hhead, hchildren, hnames, hcodes⟩
    obtain ⟨code, hcode⟩ := hhead.code
    have htwo := hhead.two_words
    have hname : node.name? = some node.words[0] := List.getElem?_eq_getElem (by omega)
    obtain ⟨ps, hf⟩ := exists_map_eq_map_ok (f := Property.ofNode options node.words[0])
      fun child hc => Property.exists_ofNode_iff.2 (hchildren child hc)
    rw [(map_name?_of_spelled hf).1] at hnames
    rw [(map_name?_of_spelled hf).2] at hcodes
    have hps := pairwise_apart_iff_nodup.2 ⟨hnames, hcodes⟩
    let header : Header := ⟨node.words[0], code, OrderedSet.ofList (node.words.drop 2)⟩
    have hnil : header.object.Holds [] := Holds.nil rfl rfl
    refine ⟨header.object.insertProperties ps, bind_eq_ok_iff.2 ⟨header,
      Header.ofNode_eq_ok_iff.2 ⟨hhead, hname, hcode, rfl⟩, ?_⟩⟩
    exact (declareAll_eq_ok_iff hnil).2 ⟨ps, hf, by simp, hps, rfl⟩

end ObjectType
end SchemaLang
