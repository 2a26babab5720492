import SchemaLang.Proofs.RoundTrip.Reading

/-!
# Reserving names

The names that are reserved are looked at in two places, the header of an object and the line of a
property, and there they only decide whether reading goes on.  So an outline under more reserved
names ends as it did before, or it is refused for a name that is reserved now and was not before
(`compile_stricter`).  Two lists that reserve the same names have no such name, and no difference is
seen between them.

What compiles is free of reserved names.  The names of the objects and of their own properties were
looked at when they were declared, and what an object inherits was looked at in its owner.

* `StricterBy`: a computation ends like another one, or with an error of a certain kind.
* `Schema.Collects.free`: the objects of a schema and their properties have free names.
* `compile_reserving`: both, for the lists of reserved names.
-/

namespace SchemaLang

open Outline (Node)

/-! ### Stricter computations -/

/-- The first computation ends like the second one, or it fails with one of the errors `P`. -/
def StricterBy {α : Type} (P : CompileError → Prop) (x y : Except CompileError α) : Prop :=
  x = y ∨ ∃ e, x = .error e ∧ P e

namespace StricterBy

variable {α β γ : Type} {P : CompileError → Prop} {x y : Except CompileError α}

theorem refl (x : Except CompileError α) : StricterBy P x x := Or.inl rfl

theorem of_error {e : CompileError} (h : P e) : StricterBy P (.error e) y := Or.inr ⟨e, rfl, h⟩

theorem eq_of_forall_not (h : StricterBy P x y) (hP : ∀ e, ¬P e) : x = y := by
  rcases h with h | ⟨e, _, he⟩
  · exact h
  · exact absurd he (hP e)

theorem bind {f g : α → Except CompileError β} (h : StricterBy P x y)
    (hfg : ∀ a, StricterBy P (f a) (g a)) : StricterBy P (x.bind f) (y.bind g) := by
  rcases h with rfl | ⟨e, rfl, he⟩
  · cases x with
    | error e => exact refl _
    | ok a => exact hfg a
  · exact of_error he

theorem foldlM {f g : β → γ → Except CompileError β} (hfg : ∀ b c, StricterBy P (f b c) (g b c)) :
    ∀ (l : List γ) (b : β), StricterBy P (l.foldlM f b) (l.foldlM g b)
  | [], b => refl (.ok b)
  | c :: l, b => by
    rw [List.foldlM_cons, List.foldlM_cons]
    exact (hfg b c).bind fun b' => foldlM hfg l b'

/-- A test that refuses what the other one refuses, and more: what only the first one refuses, it
refuses for one of the errors `P`. -/
theorem test {c d : Bool} {e : CompileError} (h : d = true → c = true)
    (he : c = true → ¬d = true → P e) :
    StricterBy P (if c = true then .error e else x) (if d = true then .error e else x) := by
  by_cases hd : d = true
  · rw [if_pos hd, if_pos (h hd)]
    exact refl _
  · by_cases hc : c = true
    · rw [if_pos hc]
      exact of_error (he hc hd)
    · rw [if_neg hc, if_neg hd]
      exact refl _

end StricterBy

/-! ### More reserved names -/

/-- The error is about a name that the first options reserve and the second ones do not. -/
def CompileError.NewlyReserved (strict options : Options) : CompileError → Prop
  | .reservedObjectName n => strict.reservesObject n = true ∧ ¬options.reservesObject n = true
  | .reservedPropertyName _ p =>
    strict.reservesProperty p = true ∧ ¬options.reservesProperty p = true
  | _ => False

variable {strict options : Options}

theorem Options.Relaxes.reservesObject (h : strict.Relaxes options) {name : String}
    (hn : options.reservesObject name = true) : strict.reservesObject name = true :=
  reservesObject_iff.2 (h.reservedNames name (reservesObject_iff.1 hn))

theorem Options.Relaxes.reservesProperty (h : strict.Relaxes options) {name : String}
    (hn : options.reservesProperty name = true) : strict.reservesProperty name = true := by
  obtain ⟨r, hr, e⟩ := reservesProperty_iff.1 hn
  exact reservesProperty_iff.2 ⟨r, h.reservedNames r hr, e⟩

theorem CompileError.not_newlyReserved (h : options.Relaxes strict) (e : CompileError) :
    ¬e.NewlyReserved strict options := by
  intro he
  cases e with
  | reservedObjectName n => exact he.2 (h.reservesObject he.1)
  | reservedPropertyName o p => exact he.2 (h.reservesProperty he.1)
  | _ => exact he

theorem Header.ofNode_stricter (h : strict.Relaxes options) (node : Node) :
    StricterBy (CompileError.NewlyReserved strict options) (Header.ofNode strict node)
      (Header.ofNode options node) := by
  rw [Header.ofNode, Header.ofNode]
  split
  · next name codeWord superTypes _ =>
    cases Code.ofText? codeWord with
    | none => exact .refl _
    | some code => exact .test h.reservesObject fun hs ho => ⟨hs, ho⟩
  · exact .refl _

theorem Property.ofNode_stricter (h : strict.Relaxes options) (owner : String) (node : Node) :
    StricterBy (CompileError.NewlyReserved strict options) (Property.ofNode strict owner node)
      (Property.ofNode options owner node) := by
  rw [Property.ofNode, Property.ofNode]
  split
  · exact .refl _
  · split
    · next name typeWord codeWord tags _ =>
      cases Code.ofText? codeWord with
      | none => exact .refl _
      | some code =>
        dsimp only
        split
        · exact .refl _
        · exact .test h.reservesProperty fun hs ho => ⟨hs, ho⟩
    · exact .refl _

theorem ObjectType.declareAll_stricter (h : strict.Relaxes options) (o : ObjectType)
    (nodes : List Node) :
    StricterBy (CompileError.NewlyReserved strict options) (o.declareAll strict nodes)
      (o.declareAll options nodes) := by
  refine StricterBy.foldlM (fun o node => ?_) nodes o
  exact (Property.ofNode_stricter h o.name node).bind fun p => .refl (o.declare p)

theorem Schema.declare_stricter (h : strict.Relaxes options) (s : Schema) (node : Node) :
    StricterBy (CompileError.NewlyReserved strict options) (s.declare strict node).result
      (s.declare options node).result := by
  simp only [declare, Logged.result_bind, Logged.liftM_eq_ofExcept, Logged.result_ofExcept]
  refine (Header.ofNode_stricter h node).bind fun header => ?_
  refine (StricterBy.refl (s.checkCode header)).bind fun _ => ?_
  exact (ObjectType.declareAll_stricter h header.object node.children).bind fun _ => .refl _

theorem Schema.declareUnlessDerived_stricter (h : strict.Relaxes options) (s : Schema)
    (node : Node) :
    StricterBy (CompileError.NewlyReserved strict options)
      (s.declareUnlessDerived strict node).result (s.declareUnlessDerived options node).result := by
  rw [declareUnlessDerived, declareUnlessDerived, h.skipDerived]
  split
  · exact .refl _
  · exact s.declare_stricter h node

/-- **Under more reserved names an outline ends as before**, or it is refused for a name that is
newly reserved. -/
theorem compile_stricter (h : strict.Relaxes options) (nodes : List Node) :
    StricterBy (CompileError.NewlyReserved strict options) (compile strict nodes).result
      (compile options nodes).result := by
  simp only [compile, declareAll, Logged.result_bind, Logged.result_tell, Logged.result_foldlM]
  refine .bind (.bind (.refl _) fun _ => ?_) fun d => .refl _
  exact StricterBy.foldlM (fun s node => s.declareUnlessDerived_stricter h node) nodes ∅

/-! ### Free names -/

structure ObjectType.Free (options : Options) (o : ObjectType) : Prop where
  name : o.name ∉ options.reservedNames
  property : ∀ p ∈ o.properties.values, ∀ r ∈ options.reservedNames,
    Text.lowercase r ≠ Text.lowercase p.name

theorem ObjectType.free_of_ofNode {node : Node} {b : ObjectType}
    (h : ObjectType.ofNode options node = .ok b) : b.Free options := by
  obtain ⟨hhead, hname, _, _, _, ps, hps, _, hb⟩ := ObjectType.ofNode_eq_ok_iff.1 h
  refine ⟨hhead.name_free b.name hname, fun p hp => ?_⟩
  rw [hb.values] at hp
  obtain ⟨line, _, hline⟩ := exists_mem_of_map_eq hps hp
  obtain ⟨hprop, hpname, _⟩ := Property.ofNode_eq_ok_iff.1 hline
  exact hprop.name_free p.name hpname

/-- **What is resolved is free of reserved names** when the blocks are.  A property that is
inherited has passed the test in its owner. -/
theorem Schema.Collects.free {d s : Schema} {bs : List ObjectType} (h : d.Collects bs)
    (hbs : ∀ b ∈ bs, b.Free options) (hs : d.resolve.result = .ok s) :
    ∀ o ∈ s.objectList, o.Free options := by
  obtain ⟨hp, _⟩ := h.declared.of_resolve hs
  intro o ho
  obtain ⟨n, ho⟩ := mem_objectList_iff.1 ho
  obtain rfl := hp.name_eq h.declared ho
  refine ⟨?_, fun p hpo => ?_⟩
  · obtain ⟨o₀, ho₀, _⟩ := hp.header ho
    obtain ⟨b, hb, hname, _⟩ := h.exists_block ho₀
    exact hname ▸ (hbs b hb).name
  · have hown : p ∈ d.own p.owner := hp.genuine o.name p (own_of_object ho ▸ hpo)
    obtain ⟨b, hb, _, hpb⟩ := h.mem_own hown
    exact (hbs b hb).property p hpb

theorem free_of_compile {nodes : List Node} {s : Schema}
    (h : (compile options nodes).result = .ok s) : ∀ o ∈ s.objectList, o.Free options := by
  obtain ⟨d, hdecl, _, hs⟩ := compile_eq_ok_iff.1 h
  obtain ⟨bs, hbs, hcollects⟩ := collects_of_declareAll hdecl
  refine hcollects.free (fun b hb => ?_) hs
  obtain ⟨node, _, hnode⟩ := exists_mem_of_map_eq hbs hb
  exact ObjectType.free_of_ofNode hnode

/-- **What the list of reserved names decides.**

A longer list leaves the outcome of an outline as it is, or the outline is refused for a name that
only the longer list reserves.  The order of a list and repetitions in it have no say.  And where an
outline compiles, no object has a reserved name, and no property, be it declared or inherited, has
one up to letter case. -/
theorem compile_reserving (skip : Bool) (nodes : List Node) (reserved more : List String) :
    ((∀ r ∈ reserved, r ∈ more) →
      (compile ⟨more, skip⟩ nodes).result = (compile ⟨reserved, skip⟩ nodes).result ∨
        ∃ e, (compile ⟨more, skip⟩ nodes).result = .error e ∧
          e.NewlyReserved ⟨more, skip⟩ ⟨reserved, skip⟩) ∧
    ((∀ r, r ∈ reserved ↔ r ∈ more) →
      (compile ⟨more, skip⟩ nodes).result = (compile ⟨reserved, skip⟩ nodes).result) ∧
    ∀ s, (compile ⟨reserved, skip⟩ nodes).result = .ok s → ∀ o ∈ s.objectList,
      o.name ∉ reserved ∧ ∀ p ∈ o.properties.values, ∀ r ∈ reserved,
        Text.lowercase r ≠ Text.lowercase p.name := by
  refine ⟨fun h => ?_, fun h => ?_, fun s hs o ho => ?_⟩
  · have hfewer : Options.Relaxes ⟨more, skip⟩ ⟨reserved, skip⟩ := ⟨rfl, h⟩
    exact compile_stricter hfewer nodes
  · have hfewer : Options.Relaxes ⟨more, skip⟩ ⟨reserved, skip⟩ := ⟨rfl, fun r => (h r).1⟩
    have hmore : Options.Relaxes ⟨reserved, skip⟩ ⟨more, skip⟩ := ⟨rfl, fun r => (h r).2⟩
    exact (compile_stricter hfewer nodes).eq_of_forall_not (CompileError.not_newlyReserved hmore)
  · have hfree := free_of_compile hs o ho
    exact ⟨hfree.name, hfree.property⟩

/-- A name that is reserved in another letter case bars a property of the diamond. -/
theorem diamond_reserving :
    (compile ⟨["nobody"], true⟩ diamond).result.toOption.isSome ∧
    (compile ⟨["L", "nobody", "nobody"], true⟩ diamond).result =
      .error (.reservedPropertyName "left" "l") ∧
    ((compile ⟨["L", "nobody", "nobody"], true⟩ diamond).result =
        (compile ⟨["nobody"], true⟩ diamond).result ∨
      ∃ e, (compile ⟨["L", "nobody", "nobody"], true⟩ diamond).result = .error e ∧
        e.NewlyReserved ⟨["L", "nobody", "nobody"], true⟩ ⟨["nobody"], true⟩) :=
  ⟨by decide +kernel, by decide +kernel,
    (compile_reserving true diamond ["nobody"] ["L", "nobody", "nobody"]).1 (by simp)⟩

end SchemaLang
