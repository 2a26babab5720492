import SchemaLang.Proofs.Declaration.Acceptance
import SchemaLang.Proofs.Declaration.Faults
import SchemaLang.Proofs.Inheritance.Resolution

/-!
# Duplicates

A name or a code that is taken is reported by one of four errors.  Which one it is depends on where
the taken one stands, in the same block or in an earlier one, and on the order in which names and
codes are looked at, which differs between the two.  Each error says something of the node that is
refused and of the nodes before it (`Outline.Node.BearsOut`), and it is so.

The tests are made against what the earlier blocks add up to, not against the blocks themselves.
Two facts lead back to them.

* `ObjectType.redeclare_error`: an object that holds a list refuses a property because of one that
  shares its name or its code, and not both.
* `ObjectType.absorb_error`: the other property is one that the object held before the block came,
  since the properties of a block are apart.

`compile_duplicates` has the whole: the node, what was declared before it, and what the error says.
-/

namespace SchemaLang

open Outline (Node)

/-! ### What an error says of the nodes -/

namespace Outline.Node

structure Heads (node : Node) (name : String) (code : Code) : Prop where
  name : node.name? = some name
  code : node.objectCode? = some code

structure Gives (line : Node) (name : String) (code : Code) : Prop where
  name : line.name? = some name
  code : line.propertyCode? = some code

/-- **What an error about a duplicate says** of the node that is refused and of the nodes that were
declared before it. -/
def BearsOut (node : Node) (earlier : List Node) : CompileError → Prop
  | .duplicateObjectCode object existing code =>
    node.Heads object code ∧ existing ≠ object ∧ ∃ other ∈ earlier, other.Heads existing code
  | .duplicateObjectName object existingCode code =>
    node.Heads object code ∧ existingCode ≠ code ∧
      (∃ other ∈ earlier, other.Heads object existingCode) ∧
      ∀ other ∈ earlier, other.objectCode? ≠ some code
  | .duplicatePropertyCode object property code =>
    node.name? = some object ∧ ∃ above line below,
      node.children = above ++ line :: below ∧ line.Gives property code ∧
        ((∃ other ∈ above, other.propertyCode? = some code) ∨
          ∃ block ∈ earlier, block.name? = some object ∧
            ∃ other ∈ block.children, ∃ name, name ≠ property ∧ other.Gives name code)
  | .duplicatePropertyName object property =>
    node.name? = some object ∧ ∃ above line below code taken,
      node.children = above ++ line :: below ∧ line.Gives property code ∧ taken ≠ code ∧
        ((∃ other ∈ above, other.Gives property taken) ∨
          ∃ block ∈ earlier, block.name? = some object ∧
            ∃ other ∈ block.children, other.Gives property taken)
  | _ => False

end Outline.Node

variable {options : Options} {node : Node} {nodes : List Node} {owner : String} {e : CompileError}
  {p q : Property}

theorem Header.heads_of_ofNode {h : Header} (hh : Header.ofNode options node = .ok h) :
    node.Heads h.name h.code := by
  obtain ⟨_, hname, hcode, _⟩ := Header.ofNode_eq_ok_iff.1 hh
  exact ⟨hname, hcode⟩

theorem Property.gives_of_ofNode (h : Property.ofNode options owner node = .ok p) :
    node.Gives p.name p.code := by
  obtain ⟨_, hname, _, hcode, _⟩ := Property.ofNode_eq_ok_iff.1 h
  exact ⟨hname, hcode⟩

/-! ### Refused properties -/

namespace ObjectType

variable {o b : ObjectType} {l ps : List Property}

theorem heads_of_ofNode (h : ofNode options node = .ok b) : node.Heads b.name b.code := by
  obtain ⟨_, hname, hcode, _⟩ := ofNode_eq_ok_iff.1 h
  exact ⟨hname, hcode⟩

theorem exists_gives_of_ofNode (h : ofNode options node = .ok b) (hp : p ∈ b.properties.values) :
    ∃ line ∈ node.children, line.Gives p.name p.code := by
  obtain ⟨_, _, _, _, _, ps, hps, _, hb⟩ := ofNode_eq_ok_iff.1 h
  rw [hb.values] at hp
  obtain ⟨line, hline, hspells⟩ := exists_mem_of_map_eq hps hp
  exact ⟨line, hline, Property.gives_of_ofNode hspells⟩

/-- Within a block the code is looked at first. -/
theorem declare_error (h : o.Holds l) (he : o.declare p = .error e) :
    ∃ q ∈ l, (q.code = p.code ∧ e = .duplicatePropertyCode o.name p.name p.code) ∨
      (q.name = p.name ∧ q.code ≠ p.code ∧ e = .duplicatePropertyName o.name p.name) := by
  rw [declare] at he
  split at he
  · next hcode =>
    cases he
    obtain ⟨q, hq⟩ := Option.isSome_iff_exists.1 hcode
    obtain ⟨hql, hqc⟩ := h.propertyByCode?_eq_some_iff.1 hq
    exact ⟨q, hql, Or.inl ⟨hqc, rfl⟩⟩
  · next hcode =>
    have hfree : o.propertyByCode? p.code = none := Option.not_isSome_iff_eq_none.1 hcode
    split at he
    · next hname =>
      cases he
      obtain ⟨q, hq⟩ := Option.isSome_iff_exists.1 hname
      obtain ⟨hql, hqn⟩ := h.property?_eq_some_iff.1 hq
      exact ⟨q, hql, Or.inr ⟨hqn, h.propertyByCode?_eq_none_iff.1 hfree q hql, rfl⟩⟩
    · cases he

/-- **A further block is refused for a property that shares its name or its code, and not both.** -/
theorem redeclare_error (h : o.Holds l) (he : o.redeclare p = .error e) :
    ∃ q ∈ l, (q.name ≠ p.name ∧ q.code = p.code ∧
        e = .duplicatePropertyCode o.name p.name p.code) ∨
      (q.name = p.name ∧ q.code ≠ p.code ∧ e = .duplicatePropertyName o.name p.name) := by
  rw [redeclare] at he
  cases hn : o.property? p.name with
  | none =>
    have hname := h.property?_eq_none_iff.1 hn
    cases hc : o.propertyByCode? p.code with
    | none =>
      rw [hn, hc] at he
      obtain ⟨q, hq, hcases⟩ := declare_error h he
      exact ⟨q, hq, hcases.imp_left fun hcode => ⟨hname q hq, hcode⟩⟩
    | some b =>
      rw [hn, hc] at he
      cases he
      obtain ⟨hb, hbc⟩ := h.propertyByCode?_eq_some_iff.1 hc
      exact ⟨b, hb, Or.inl ⟨hname b hb, hbc, rfl⟩⟩
  | some a =>
    obtain ⟨ha, han⟩ := h.property?_eq_some_iff.1 hn
    cases hc : o.propertyByCode? p.code with
    | none =>
      rw [hn, hc] at he
      cases he
      exact ⟨a, ha, Or.inr ⟨han, h.propertyByCode?_eq_none_iff.1 hc a ha, rfl⟩⟩
    | some b =>
      rw [hn, hc] at he
      dsimp only at he
      obtain ⟨hb, hbc⟩ := h.propertyByCode?_eq_some_iff.1 hc
      split at he
      · cases he
      · next hnot =>
        cases he
        refine ⟨a, ha, Or.inr ⟨han, fun hac => hnot ⟨hac, ?_⟩, rfl⟩⟩
        -- one property has the code, so it is the one that has the name
        rw [h.eq_of_code_eq hb ha (hbc.trans hac.symm), han]

/-- **A line is refused in its block** because of a line above it. -/
theorem declareAll_error (h : o.Holds []) (he : o.declareAll options nodes = .error e)
    (hk : e.kind = .duplicate) :
    ∃ above line below code, nodes = above ++ line :: below ∧
      ∃ other ∈ above, ∃ name, line.Gives name code ∧
        ((other.propertyCode? = some code ∧ e = .duplicatePropertyCode o.name name code) ∨
          ∃ taken, taken ≠ code ∧ other.Gives name taken ∧
            e = .duplicatePropertyName o.name name) := by
  obtain ⟨above, line, below, o₁, hnodes, hok, he⟩ := foldlM_eq_error_iff.1 he
  obtain ⟨ps, hps, hl, hapart, rfl⟩ := (declareAll_eq_ok_iff h).1 hok
  have hholds : (o.insertProperties ps).Holds ([] ++ ps) := h.insertProperties_of_apart hl hapart
  have hname : (o.insertProperties ps).name = o.name :=
    (header_eq_iff.1 header_insertProperties).1
  rcases bind_eq_error_iff.1 he with he | ⟨p, hp, he⟩
  · exact absurd hk (CompileError.kind_ne_of_mem (Property.error_kind he) (by decide))
  · have hgives := Property.gives_of_ofNode hp
    obtain ⟨q, hq, hcases⟩ := declare_error hholds he
    obtain ⟨other, hother, hq⟩ := exists_mem_of_map_eq hps hq
    have hgives' := Property.gives_of_ofNode hq
    refine ⟨above, line, below, p.code, hnodes, other, hother, p.name, hgives, ?_⟩
    rw [hname] at hcases
    rcases hcases with ⟨hcode, rfl⟩ | ⟨hqn, hcode, rfl⟩
    · exact Or.inl ⟨hcode ▸ hgives'.code, rfl⟩
    · exact Or.inr ⟨q.code, hcode, hqn ▸ hgives', rfl⟩

theorem foldlM_redeclare_error (h : o.Holds l) (hps : ps.Pairwise Property.Apart)
    (he : ps.foldlM redeclare o = .error e) :
    ∃ p ∈ ps, ∃ q ∈ l, (q.name ≠ p.name ∧ q.code = p.code ∧
        e = .duplicatePropertyCode o.name p.name p.code) ∨
      (q.name = p.name ∧ q.code ≠ p.code ∧ e = .duplicatePropertyName o.name p.name) := by
  obtain ⟨above, p, below, o₁, rfl, hok, he⟩ := foldlM_eq_error_iff.1 he
  obtain ⟨hapart, _, hcross⟩ := List.pairwise_append.1 hps
  obtain ⟨hl, rfl⟩ := (foldlM_redeclare_eq_ok_iff h hapart).1 hok
  have hname : (o.insertProperties above).name = o.name :=
    (header_eq_iff.1 header_insertProperties).1
  obtain ⟨q, hq, hcases⟩ := redeclare_error (h.insertProperties hl hapart) he
  rw [hname] at hcases
  refine ⟨p, by simp, q, ?_, hcases⟩
  rcases Property.mem_of_mem_placeAll hq with hq | hq
  · -- what the block has above `p` shares nothing with `p`
    have hqp : q.Apart p := hcross q hq p List.mem_cons_self
    rcases hcases with ⟨_, hcode, _⟩ | ⟨hname, _⟩
    · exact absurd hcode hqp.2
    · exact absurd hname hqp.1
  · exact hq

/-- **A block is refused by an object** because of what the object held before. -/
theorem absorb_error (h : o.Holds l) (hb : b.Holds ps) (he : o.absorb b = .error e) :
    ∃ p ∈ ps, ∃ q ∈ l, (q.name ≠ p.name ∧ q.code = p.code ∧
        e = .duplicatePropertyCode o.name p.name p.code) ∨
      (q.name = p.name ∧ q.code ≠ p.code ∧ e = .duplicatePropertyName o.name p.name) := by
  have ho : { o with superTypes := o.superTypes.union b.superTypes }.Holds l :=
    h.of_indexes_eq rfl rfl
  rw [absorb, hb.values] at he
  -- the name is not touched by the super types
  have hrefused := foldlM_redeclare_error ho hb.pairwise_apart he
  exact hrefused

end ObjectType

/-! ### Refused nodes -/

namespace Schema

variable {s d : Schema} {bs : List ObjectType} {b : ObjectType} {earlier : List Node}

namespace Collects

theorem bearsOut_of_checkCode {header : Header} (h : s.Collects bs)
    (hbs : earlier.map (ObjectType.ofNode options) = bs.map .ok)
    (hh : Header.ofNode options node = .ok header) (he : s.checkCode header = .error e) :
    node.BearsOut earlier e := by
  rw [checkCode] at he
  split at he
  · next existing hget =>
    split at he
    · cases he
    · next hne =>
      cases he
      obtain ⟨a, ha, rfl, hcode⟩ := h.codes_get?.1 hget
      obtain ⟨other, hother, hofNode⟩ := exists_mem_of_map_eq hbs ha
      exact ⟨Header.heads_of_ofNode hh, hne, other, hother,
        hcode ▸ ObjectType.heads_of_ofNode hofNode⟩
  · cases he

theorem bearsOut_of_addBlock (h : s.Collects bs)
    (hbs : earlier.map (ObjectType.ofNode options) = bs.map .ok)
    (hb : ObjectType.ofNode options node = .ok b) (hcheck : s.checkCode b.header = .ok ())
    (he : (s.addBlock b).result = .error e) : node.BearsOut earlier e := by
  have hheads := ObjectType.heads_of_ofNode hb
  have hdecl := ObjectType.declared_of_ofNode hb
  rw [addBlock] at he
  cases ho : s.object? b.name with
  | none => rw [ho] at he; cases he
  | some o =>
    rw [ho] at he
    dsimp only at he
    split at he
    · simp only [Logged.result_bind_eq_error_iff, Logged.liftM_eq_ofExcept,
        Logged.result_ofExcept] at he
      rcases he with he | ⟨_, _, he | ⟨_, _, he⟩⟩
      · cases he
      · have hname := h.declared.name ho
        obtain ⟨p, hp, q, hq, hcases⟩ :=
          ObjectType.absorb_error (h.declared.object ho).holds hdecl.holds he
        obtain ⟨line, hline, hgives⟩ := ObjectType.exists_gives_of_ofNode hb hp
        obtain ⟨above, below, hchildren⟩ := List.append_of_mem hline
        -- the other property stems from an earlier block of the object
        obtain ⟨a, ha, han, hqa⟩ := h.mem_own (own_of_object ho ▸ hq)
        obtain ⟨block, hblock, hofNode⟩ := exists_mem_of_map_eq hbs ha
        obtain ⟨other, hother, hgives'⟩ := ObjectType.exists_gives_of_ofNode hofNode hqa
        have hblockName : block.name? = some b.name :=
          han ▸ (ObjectType.heads_of_ofNode hofNode).name
        rw [hname] at hcases
        rcases hcases with ⟨hqn, hcode, rfl⟩ | ⟨hqn, hcode, rfl⟩
        · exact ⟨hheads.name, above, line, below, hchildren, hgives,
            Or.inr ⟨block, hblock, hblockName, other, hother, q.name, hqn, hcode ▸ hgives'⟩⟩
        · exact ⟨hheads.name, above, line, below, p.code, q.code, hchildren, hgives, hcode,
            Or.inr ⟨block, hblock, hblockName, other, hother, hqn ▸ hgives'⟩⟩
      · cases he
    · next hne =>
      cases he
      obtain ⟨a, ha, han, hac⟩ := h.exists_block ho
      obtain ⟨other, hother, hofNode⟩ := exists_mem_of_map_eq hbs ha
      refine ⟨hheads, hne, ⟨other, hother, ?_⟩, fun other hother hcode => ?_⟩
      · rw [← han, hac]
        exact ObjectType.heads_of_ofNode hofNode
      · -- the code is free for the name of the block, so only its object could have it
        obtain ⟨c, hc, hofNode⟩ := exists_of_mem_of_map_eq hbs hother
        have hcc : c.code = b.code :=
          Option.some.inj ((ObjectType.heads_of_ofNode hofNode).code.symm.trans hcode)
        have hcn : c.name = b.name := h.checkCode_iff.1 hcheck c hc hcc
        exact hne ((h.code c hc o (hcn ▸ ho)).trans hcc)

/-- **What a duplicate says of the node that is refused is so.** -/
theorem bearsOut_of_declare (h : s.Collects bs)
    (hbs : earlier.map (ObjectType.ofNode options) = bs.map .ok)
    (he : (s.declare options node).result = .error e) (hk : e.kind = .duplicate) :
    node.BearsOut earlier e := by
  simp only [declare, Logged.result_bind_eq_error_iff, Logged.liftM_eq_ofExcept,
    Logged.result_ofExcept] at he
  rcases he with he | ⟨header, hh, he | ⟨_, hcheck, he | ⟨b, hb, he⟩⟩⟩
  · exact absurd hk (CompileError.kind_ne_of_mem (Header.error_kind he) (by decide))
  · exact h.bearsOut_of_checkCode hbs hh he
  · have hnil : header.object.Holds [] := .nil rfl rfl
    have hname := (Header.heads_of_ofNode hh).name
    obtain ⟨above, line, below, code, hchildren, other, hother, name, hgives, hcases⟩ :=
      ObjectType.declareAll_error hnil he hk
    rcases hcases with ⟨hcode, rfl⟩ | ⟨taken, hne, hgives', rfl⟩
    · exact ⟨hname, above, line, below, hchildren, hgives, Or.inl ⟨other, hother, hcode⟩⟩
    · exact ⟨hname, above, line, below, code, taken, hchildren, hgives, hne,
        Or.inl ⟨other, hother, hgives'⟩⟩
  · have hofNode : ObjectType.ofNode options node = .ok b :=
      bind_eq_ok_iff.2 ⟨header, hh, hb⟩
    have hheader : b.header = header := ObjectType.header_of_declareAll hb
    exact h.bearsOut_of_addBlock hbs hofNode (hheader ▸ hcheck) he

end Collects
end Schema

/-- **Duplicates are found while declaring.** -/
theorem compile_eq_error_iff_of_duplicate (hk : e.kind = .duplicate) :
    (compile options nodes).result = .error e ↔ (declareAll options nodes).result = .error e := by
  rw [compile, Logged.result_bind_eq_error_iff]
  refine ⟨?_, Or.inl⟩
  rintro (h | ⟨d, _, h⟩)
  · exact h
  · simp only [Logged.result_bind_eq_error_iff, Logged.liftM_eq_ofExcept, Logged.result_ofExcept,
      Logged.result_tell] at h
    rcases h with h | ⟨_, _, h | ⟨_, _, h⟩⟩
    · cases h
    · rw [Schema.checkReferences_error_kind h] at hk
      cases hk
    · rw [Schema.resolve_error_kind h] at hk
      cases hk

theorem result_declareAll_eq_foldlM (nodes : List Node) : (declareAll options nodes).result =
    nodes.foldlM (fun s node => (s.declareUnlessDerived options node).result) ∅ := by
  rw [declareAll, Logged.result_bind, Logged.result_tell, ← Logged.result_foldlM]
  rfl

/-- **The node for which declaring fails**: what stands before it can be declared, and the node
cannot be declared after that. -/
theorem exists_append_of_declareAll_error (h : (declareAll options nodes).result = .error e) :
    ∃ before node after s, nodes = before ++ node :: after ∧
      ¬(options.skipDerived = true ∧ node.Derived) ∧
      (declareAll options before).result = .ok s ∧ (s.declare options node).result = .error e ∧
      (declareAll options (before ++ [node])).result = .error e := by
  rw [result_declareAll_eq_foldlM] at h
  obtain ⟨before, node, after, s, hnodes, hok, he⟩ := foldlM_eq_error_iff.1 h
  have hfail : (declareAll options (before ++ [node])).result = .error e := by
    rw [result_declareAll_eq_foldlM]
    exact foldlM_eq_error_iff.2 ⟨before, node, [], s, rfl, hok, he⟩
  rw [Schema.declareUnlessDerived] at he
  split at he
  · cases he
  · next hkeep =>
    rw [Bool.and_eq_true, isDerived_iff] at hkeep
    rw [← result_declareAll_eq_foldlM] at hok
    exact ⟨before, node, after, s, hnodes, hkeep, hok, he, hfail⟩

/-- **A duplicate is reported for the first node that cannot be declared, and it is there.**

The nodes before it, without those that are passed over, were declared.  What the error says of
that node and of those before it is so, be it about the code or the name of an object or about those
of a property. -/
theorem compile_duplicates (h : (compile options nodes).result = .error e)
    (hk : e.kind = .duplicate) :
    ∃ before node after, nodes = before ++ node :: after ∧
      ¬(options.skipDerived = true ∧ node.Derived) ∧
      (∃ s, (declareAll options before).result = .ok s) ∧
      (declareAll options (before ++ [node])).result = .error e ∧
      node.BearsOut (options.declared before) e := by
  rw [compile_eq_error_iff_of_duplicate hk] at h
  obtain ⟨before, node, after, s, hnodes, hkeep, hs, he, hfail⟩ :=
    exists_append_of_declareAll_error h
  obtain ⟨bs, hbs, hcollects⟩ := collects_of_declareAll hs
  exact ⟨before, node, after, hnodes, hkeep, ⟨s, hs⟩, hfail,
    hcollects.bearsOut_of_declare hbs he hk⟩

/-- A derived declaration is passed over, a block is repeated, and a third block of the object has
the code of a property under another name. -/
def renamingNodes : List Node :=
  [{ words := ["of(thing)", "1"], line := "of(thing) 1", lineNumber := 1, children := [] },
   { words := ["thing", "1"], line := "thing 1", lineNumber := 2
     children := [⟨["id", "string", "1"], [], "id string 1", 3⟩,
       ⟨["size", "int", "2"], [], "size int 2", 4⟩] },
   { words := ["thing", "1"], line := "thing 1", lineNumber := 5
     children := [⟨["size", "long", "2"], [], "size long 2", 6⟩] },
   { words := ["thing", "1"], line := "thing 1", lineNumber := 7
     children := [⟨["name", "string", "3"], [], "name string 3", 8⟩,
       ⟨["extent", "int", "2"], [], "extent int 2", 9⟩] }]

theorem renamingNodes_duplicates :
    (compile {} renamingNodes).result = .error (.duplicatePropertyCode "thing" "extent" 2) ∧
      ∃ before node after, renamingNodes = before ++ node :: after ∧
        ¬(({} : Options).skipDerived = true ∧ node.Derived) ∧
        (∃ s, (declareAll {} before).result = .ok s) ∧
        (declareAll {} (before ++ [node])).result =
          .error (.duplicatePropertyCode "thing" "extent" 2) ∧
        node.BearsOut (Options.declared {} before) (.duplicatePropertyCode "thing" "extent" 2) := by
  have h : (compile {} renamingNodes).result =
      .error (.duplicatePropertyCode "thing" "extent" 2) := by decide +kernel
  exact ⟨h, compile_duplicates h rfl⟩

end SchemaLang
