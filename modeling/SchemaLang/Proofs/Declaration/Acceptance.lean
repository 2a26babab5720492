import SchemaLang.Proofs.Declaration.Run

/-!
# Which outlines can be declared

The declarations of an outline are checked one after the other, each against what the
ones before it have left behind, and the checks within a block differ from those
between blocks.  Yet the outcome depends on no order.  `Outline.Declarable` asks

* of each node that its own words and those of its children are in order;
* of the children of one node that no two share a name or a code;
* of any two nodes that they join (`Outline.Node.Joins`).

`exists_declareAll_iff_declarable` says that exactly these outlines have a schema, where
of the nodes only those count that are not passed over (`Outline.Node.Derived`).
-/

namespace SchemaLang

open Outline (Node)

/-! ### Derived declarations -/

/-- The node is a derived declaration: a parenthesis opens in its name, or `:=` stands
somewhere in its line. -/
def Outline.Node.Derived (node : Node) : Prop :=
  (∃ name ∈ node.name?, '(' ∈ name.toList) ∨ [':', '='] <:+: node.line.toList

theorem assigns_iff : ∀ {line : List Char}, assigns line = true ↔ [':', '='] <:+: line
  | [] => by simp [assigns]
  | c :: r => by
    have ih : assigns r = true ↔ [':', '='] <:+: r := assigns_iff
    rw [List.infix_cons_iff, ← ih]
    by_cases h : [':', '='] <+: c :: r
    · obtain ⟨t, ht⟩ := h
      cases ht
      simp [assigns]
    · rw [assigns, or_iff_right h]
      intro t hc hr
      subst hc hr
      exact h ⟨t, rfl⟩

theorem assigns_cons (c : Char) (r : List Char) :
    assigns (c :: r) = (decide (c = ':' ∧ r.head? = some '=') || assigns r) := by
  by_cases h : c = ':' ∧ r.head? = some '='
  · obtain ⟨rfl, hr⟩ := h
    obtain ⟨r, rfl⟩ := List.head?_eq_some_iff.1 hr
    simp [assigns]
  · rw [decide_eq_false h, Bool.false_or, assigns]
    rintro t rfl rfl
    exact h ⟨rfl, rfl⟩

theorem isDerived_iff {node : Node} : isDerived node = true ↔ node.Derived := by
  obtain ⟨words, children, line, lineNumber⟩ := node
  rw [isDerived, Bool.or_eq_true, assigns_iff, Node.Derived, Node.name?]
  cases words with
  | nil => simp
  | cons name r => simp

instance : DecidablePred Node.Derived := fun _ => decidable_of_iff _ isDerived_iff

theorem Options.declared_eq (options : Options) (nodes : List Node) :
    options.declared nodes =
      nodes.filter fun node => ¬(options.skipDerived = true ∧ node.Derived) := by
  refine List.filter_congr fun node _ => ?_
  by_cases hd : node.Derived
  · simp [hd, isDerived_iff.2 hd]
  · simp [hd, Bool.eq_false_iff.2 (mt isDerived_iff.1 hd)]

/-! ### Nodes that join -/

/-- Two nodes can stand in one outline: they are about one object or about two, by
their names and by their codes alike, and if it is one, the same goes for any property
of the one and any property of the other. -/
structure Outline.Node.Joins (a b : Node) : Prop where
  header : a.name? = b.name? ↔ a.objectCode? = b.objectCode?
  properties : a.name? = b.name? → ∀ p ∈ a.children, ∀ q ∈ b.children,
    p.name? = q.name? ↔ p.propertyCode? = q.propertyCode?

structure Outline.Declarable (options : Options) (nodes : List Node) : Prop where
  headers : ∀ a ∈ nodes, a.IsHeader options
  properties : ∀ a ∈ nodes, ∀ p ∈ a.children, p.IsProperty options
  names_apart : ∀ a ∈ nodes, (a.children.map Node.name?).Nodup
  codes_apart : ∀ a ∈ nodes, (a.children.map Node.propertyCode?).Nodup
  joins : nodes.Pairwise Node.Joins

section Blocks

variable {options : Options} {a b : Node} {A B : ObjectType}

theorem ObjectType.forall_children_iff (ha : ObjectType.ofNode options a = .ok A)
    (P : Option String → Option Code → Prop) :
    (∀ child ∈ a.children, P child.name? child.propertyCode?) ↔
      ∀ p ∈ A.properties.values, P (some p.name) (some p.code) := by
  obtain ⟨_, _, _, _, _, ps, hps, _, hA⟩ := ObjectType.ofNode_eq_ok_iff.1 ha
  have hspells : ∀ {child : Node} {p : Property},
      Property.ofNode options A.name child = .ok p →
        child.name? = some p.name ∧ child.propertyCode? = some p.code := fun h =>
    ⟨(Property.ofNode_eq_ok_iff.1 h).2.1, (Property.ofNode_eq_ok_iff.1 h).2.2.2.1⟩
  rw [hA.values]
  constructor
  · intro h p hp
    obtain ⟨child, hc, e⟩ := exists_mem_of_map_eq hps hp
    rw [← (hspells e).1, ← (hspells e).2]
    exact h child hc
  · intro h child hc
    obtain ⟨p, hp, e⟩ := exists_of_mem_of_map_eq hps hc
    rw [(hspells e).1, (hspells e).2]
    exact h p hp

theorem ObjectType.joins_iff (ha : ObjectType.ofNode options a = .ok A)
    (hb : ObjectType.ofNode options b = .ok B) : A.Joins B ↔ a.Joins b := by
  obtain ⟨_, han, hac, _⟩ := ObjectType.ofNode_eq_ok_iff.1 ha
  obtain ⟨_, hbn, hbc, _⟩ := ObjectType.ofNode_eq_ok_iff.1 hb
  have hname : a.name? = b.name? ↔ A.name = B.name := by rw [han, hbn, Option.some.injEq]
  have hcode : a.objectCode? = b.objectCode? ↔ A.code = B.code := by
    rw [hac, hbc, Option.some.injEq]
  have hprops : (∀ p ∈ a.children, ∀ q ∈ b.children,
        (p.name? = q.name? ↔ p.propertyCode? = q.propertyCode?)) ↔
      ∀ p ∈ A.properties.values, ∀ q ∈ B.properties.values, p.Agrees q := by
    rw [ObjectType.forall_children_iff ha fun n c =>
      ∀ q ∈ b.children, (n = q.name? ↔ c = q.propertyCode?)]
    refine forall₂_congr fun p _ => ?_
    rw [ObjectType.forall_children_iff hb fun n c => (some p.name = n ↔ some p.code = c)]
    simp only [Option.some.injEq]
    rfl
  constructor
  · exact fun h => ⟨by rw [hname, hcode]; exact h.header,
      fun e => hprops.2 (h.properties (hname.1 e))⟩
  · exact fun h => ⟨by rw [← hname, ← hcode]; exact h.header,
      fun e => hprops.1 (h.properties (hname.2 e))⟩

theorem ObjectType.pairwise_joins_iff : ∀ {nodes : List Node} {bs : List ObjectType},
    nodes.map (ObjectType.ofNode options) = bs.map .ok →
      (bs.Pairwise ObjectType.Joins ↔ nodes.Pairwise Node.Joins)
  | [], [], _ => by simp
  | a :: nodes, A :: bs, h => by
    rw [List.map_cons, List.map_cons, List.cons.injEq] at h
    rw [List.pairwise_cons, List.pairwise_cons, pairwise_joins_iff h.2, and_congr_left_iff]
    intro _
    constructor
    · intro hj b hb
      obtain ⟨B, hB, e⟩ := exists_of_mem_of_map_eq h.2 hb
      exact (ObjectType.joins_iff h.1 e).1 (hj B hB)
    · intro hj B hB
      obtain ⟨b, hb, e⟩ := exists_mem_of_map_eq h.2 hB
      exact (ObjectType.joins_iff h.1 e).2 (hj b hb)

end Blocks

theorem Outline.declarable_iff {options : Options} {nodes : List Node} :
    Outline.Declarable options nodes ↔
      ∃ bs : List ObjectType, nodes.map (ObjectType.ofNode options) = bs.map .ok ∧
        bs.Pairwise ObjectType.Joins := by
  constructor
  · intro h
    obtain ⟨bs, hbs⟩ := exists_map_eq_map_ok (f := ObjectType.ofNode options) fun a ha =>
      ObjectType.exists_ofNode_iff.2
        ⟨h.headers a ha, h.properties a ha, h.names_apart a ha, h.codes_apart a ha⟩
    exact ⟨bs, hbs, (ObjectType.pairwise_joins_iff hbs).2 h.joins⟩
  · rintro ⟨bs, hbs, hj⟩
    have hblock : ∀ a ∈ nodes, ∃ b, ObjectType.ofNode options a = .ok b := fun a ha => by
      obtain ⟨b, _, e⟩ := exists_of_mem_of_map_eq hbs ha
      exact ⟨b, e⟩
    have hgood := fun a ha => ObjectType.exists_ofNode_iff.1 (hblock a ha)
    exact ⟨fun a ha => (hgood a ha).1, fun a ha => (hgood a ha).2.1,
      fun a ha => (hgood a ha).2.2.1, fun a ha => (hgood a ha).2.2.2,
      (ObjectType.pairwise_joins_iff hbs).1 hj⟩

/-- **An outline has a schema exactly when its nodes, without those that are passed over,
can be declared**, which is no matter of their order. -/
theorem exists_declareAll_iff_declarable (options : Options) (nodes : List Node) :
    (∃ s, (declareAll options nodes).result = .ok s) ↔
      Outline.Declarable options
        (nodes.filter fun node => ¬(options.skipDerived = true ∧ node.Derived)) := by
  rw [exists_declareAll_iff, ← Options.declared_eq, Outline.declarable_iff]

end SchemaLang
