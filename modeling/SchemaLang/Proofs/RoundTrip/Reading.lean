import SchemaLang.Compile
import SchemaLang.Proofs.Declaration.Determined
import SchemaLang.Proofs.Inheritance.Resolution
import SchemaLang.Proofs.RoundTrip.Spelling

/-!
# Reading a written schema

A schema that was compiled from a text is written as text again, and that text compiles to
the very same schema (`compileText_text`), with all its reserved names allowed or not.

The text has only what the objects declared themselves.  So the argument goes through the
schema `d` as it was before inheritance:

* the compiled schema has the outline of `d` (`Declared.outline_eq`), because of what an object
  has in the end it owns what it declared;
* reading its text gives that outline, since the objects of `d` are spelled by words of the
  first text (`readable_outline_of_read`);
* declaring this outline gives `d` (`Declared.declareAll_outline`), block by block;
* and from `d` on, compiling is the same both times.
-/

namespace SchemaLang

open Outline (Node Readable written lineOf)

variable {options options' : Options} {p : Property} {o : ObjectType} {number : Nat}

/-! ### Reading a block again -/

/-- The two options pass over the same nodes, and the second ones reserve no more names. -/
structure Options.Relaxes (options options' : Options) : Prop where
  skipDerived : options'.skipDerived = options.skipDerived
  reservedNames : ∀ r ∈ options'.reservedNames, r ∈ options.reservedNames

theorem Property.Spelled.ofNode_written (h : p.Spelled options) (hr : options.Relaxes options') :
    Property.ofNode options' p.owner (p.node.written 1 number) = .ok p := by
  obtain ⟨w, hcount, htype⟩ := h.type
  have hnode : p.node.written 1 number =
      ⟨p.words, [], String.ofList (lineOf 1 p.words), number⟩ := rfl
  rw [hnode]
  refine Property.ofNode_eq_ok_iff.2 ⟨⟨rfl, ?_, ⟨p.code, Code.ofText?_text p.code⟩, ?_, ?_⟩,
    rfl, ?_, Code.ofText?_text p.code, ?_, rfl⟩
  · show 3 ≤ p.words.length
    rw [Property.words, List.length_cons, List.length_cons, List.length_cons]
    omega
  · intro t ht
    obtain rfl : p.type.text = t := Option.some.inj ht
    rw [htype, TypeExpr.count_text_ofText]
    exact hcount
  · intro name hname r hmem
    obtain rfl : p.name = name := Option.some.inj hname
    exact h.free r (hr.reservedNames r hmem)
  · show some (TypeExpr.ofText p.type.text) = some p.type
    rw [htype, TypeExpr.ofText_text_ofText]
  · show p.tags = OrderedSet.ofList p.tags.toList
    rw [OrderedSet.ofList_toList]

theorem map_written {β ε : Type} {node : β → Node} {ofNode : Node → Except ε β} {depth : Nat} :
    ∀ {bs : List β} {number : Nat},
      (∀ b ∈ bs, ∀ number, ofNode ((node b).written depth number) = .ok b) →
        (written depth number (bs.map node)).map ofNode = bs.map .ok := by
  intro bs
  induction bs with
  | nil => intro number _; rfl
  | cons b bs ih =>
    intro number h
    rw [List.map_cons, written, List.map_cons, h b List.mem_cons_self,
      ih fun c hc => h c (List.mem_cons_of_mem b hc), List.map_cons]

theorem ObjectType.Declared.ownProperties_eq (h : o.Declared) :
    o.ownProperties = o.properties.values :=
  List.filter_eq_self.2 fun p hp => beq_iff_eq.2 (h.owner p hp)

/-- **A spelled object is read as itself.** -/
theorem ObjectType.Spelled.ofNode_written (h : o.Spelled options) (ho : o.Declared)
    (hr : options.Relaxes options') :
    ObjectType.ofNode options' (o.node.written 0 number) = .ok o := by
  have hnode : o.node.written 0 number = ⟨o.words,
      written 1 (number + 1) (o.properties.values.map Property.node),
      String.ofList (lineOf 0 o.words), number⟩ := by
    rw [ObjectType.node, ho.ownProperties_eq]
    rfl
  rw [hnode]
  refine ObjectType.ofNode_eq_ok_iff.2 ⟨⟨?_, ⟨o.code, Code.ofText?_text o.code⟩, ?_⟩, rfl,
    Code.ofText?_text o.code, ?_, ho.subTypes, o.properties.values, ?_,
    ho.holds.pairwise_apart, ho.holds⟩
  · show 2 ≤ o.words.length
    rw [ObjectType.words, List.length_cons, List.length_cons]
    omega
  · intro name hname hmem
    obtain rfl : o.name = name := Option.some.inj hname
    exact h.free (hr.reservedNames _ hmem)
  · show o.superTypes = OrderedSet.ofList o.superTypes.toList
    rw [OrderedSet.ofList_toList]
  · exact map_written fun p hp number =>
      ho.owner p hp ▸ (h.properties p hp).ofNode_written hr

theorem ObjectType.Spelled.isDerived_written (h : o.Spelled options)
    (hskip : options.skipDerived = true) : isDerived (o.node.written 0 number) = false := by
  obtain ⟨hparen, hname⟩ := h.underived hskip
  have hnode : o.node.written 0 number = ⟨o.words,
      written 1 (number + 1) (o.ownProperties.map Property.node),
      String.ofList (lineOf 0 o.words), number⟩ := rfl
  rw [hnode, isDerived, Bool.or_eq_false_iff]
  constructor
  · show o.name.toList.contains '(' = false
    rw [← Bool.not_eq_true, List.contains_iff_mem]
    exact hparen
  · rw [String.toList_ofList]
    show assigns (Outline.spaced o.words) = false
    rw [assigns_spaced, List.any_eq_false]
    intro w hw
    rw [Bool.not_eq_true]
    rcases List.mem_cons.1 hw with rfl | hw
    · exact hname
    · rcases List.mem_cons.1 hw with rfl | hw
      · exact assigns_code o.code
      · exact (h.superTypes w hw).2 hskip

namespace Schema

variable {d s : Schema}

/-! ### Reading a declared schema again -/

theorem declared_written (hr : options.Relaxes options') {objects : List ObjectType}
    (h : ∀ o ∈ objects, o.Spelled options) :
    options'.declared (written 0 number (objects.map ObjectType.node)) =
      written 0 number (objects.map ObjectType.node) := by
  refine List.filter_eq_self.2 fun node hn => ?_
  obtain ⟨n, hmem, k, rfl⟩ := Outline.exists_written_of_mem hn
  obtain ⟨o, ho, rfl⟩ := List.mem_map.1 hmem
  rw [hr.skipDerived]
  cases hskip : options.skipDerived with
  | false => rfl
  | true => rw [(h o ho).isDerived_written hskip]; rfl

/-- **Declaring the written outline of a schema gives that schema.** -/
theorem Declared.declareAll_outline (hd : d.Declared)
    (hspelled : ∀ o ∈ d.objectList, o.Spelled options) (hr : options.Relaxes options') :
    (declareAll options' (written 0 1 d.outline)).result = .ok d := by
  refine hd.declareAll_eq ?_
  rw [outline, declared_written hr hspelled]
  exact map_written fun o ho number =>
    (hspelled o ho).ofNode_written (hd.object (hd.object?_name ho)) hr

theorem flatten_map_property (ps : List Property) :
    Outline.flatten (ps.map Property.node) = ps.map Property.node := by
  induction ps with
  | nil => rfl
  | cons p ps ih =>
    rw [List.map_cons, Outline.flatten_cons, ih]
    rfl

theorem mem_flatten_map_node {node : Node} : ∀ {objects : List ObjectType},
    node ∈ Outline.flatten (objects.map ObjectType.node) →
      ∃ o ∈ objects, node = o.node ∨ ∃ p ∈ o.ownProperties, node = p.node := by
  intro objects
  induction objects with
  | nil => intro h; cases h
  | cons o objects ih =>
    intro h
    have hchildren : o.node.children = o.ownProperties.map Property.node := rfl
    rw [List.map_cons, Outline.flatten_cons, hchildren, flatten_map_property] at h
    rcases List.mem_cons.1 h with rfl | h
    · exact ⟨o, List.mem_cons_self, Or.inl rfl⟩
    · rcases List.mem_append.1 h with h | h
      · obtain ⟨p, hp, rfl⟩ := List.mem_map.1 h
        exact ⟨o, List.mem_cons_self, Or.inr ⟨p, hp, rfl⟩⟩
      · obtain ⟨a, ha, hnode⟩ := ih h
        exact ⟨a, List.mem_cons_of_mem o ha, hnode⟩

theorem Declared.readable_outline (hd : d.Declared)
    (hspelled : ∀ o ∈ d.objectList, o.Spelled options) :
    ∀ node ∈ Outline.flatten d.outline, Readable node.words := by
  intro node hn
  obtain ⟨o, ho, hnode⟩ := mem_flatten_map_node hn
  have hown := (hd.object (hd.object?_name ho)).ownProperties_eq
  rcases hnode with rfl | ⟨p, hp, rfl⟩
  · exact (hspelled o ho).readable
  · exact ((hspelled o ho).properties p (hown ▸ hp)).readable

/-! ### The text of a compiled schema -/

/-- **A resolved schema has the outline of its declarations.** -/
theorem Declared.outline_eq (hd : d.Declared) (h : d.resolve.result = .ok s) :
    s.outline = d.outline := by
  obtain ⟨hs, _⟩ := hd.of_resolve h
  rw [outline, outline]
  refine OrderedMap.map_values_eq hs.keys fun n o o₀ ho ho₀ => ?_
  obtain ⟨hname, hcode, hsuper⟩ := ObjectType.header_eq_iff.1 (hs.header_eq ho ho₀)
  have hown : o.ownProperties = o₀.ownProperties := by
    rw [(hd.object ho₀).ownProperties_eq, hd.ownProperties_of_resolve h ho, own_of_object ho₀]
  rw [ObjectType.node, ObjectType.node, ObjectType.words, ObjectType.words, hname, hcode, hsuper,
    hown]

end Schema

/-! ### Compiling again -/

variable {source : String} {nodes : List Node} {d s : Schema}

theorem compileText_eq_ok_iff : (compileText options source).result = .ok s ↔
    ∃ nodes, Outline.read source = .ok nodes ∧ (compile options nodes).result = .ok s := by
  rw [compileText]
  cases Outline.read source with
  | error e =>
    constructor
    · intro h; cases h
    · rintro ⟨_, h, _⟩; cases h
  | ok nodes => exact ⟨fun h => ⟨nodes, rfl, h⟩, fun ⟨_, h, hs⟩ => Except.ok.inj h ▸ hs⟩

theorem spelled_of_read (hread : Outline.read source = .ok nodes)
    (hd : (declareAll options nodes).result = .ok d) :
    ∀ o ∈ d.objectList, o.Spelled options := by
  obtain ⟨bs, hbs, hcollects⟩ := collects_of_declareAll hd
  refine fun o ho => hcollects.spelled (fun b hb => ?_) ho
  obtain ⟨node, hnode, hblock⟩ := exists_mem_of_map_eq hbs hb
  obtain ⟨hmem, hkeep⟩ := List.mem_filter.1 hnode
  refine ObjectType.spelled_of_ofNode hblock ⟨?_, fun child hc => ?_, ?_⟩ fun hskip => ?_
  · exact Outline.readable_of_read hread (Outline.mem_flatten_of_mem hmem)
  · exact Outline.readable_of_read hread (Outline.mem_flatten_of_mem_children hmem hc)
  · exact Outline.words_eq_of_read hread (Outline.mem_flatten_of_mem hmem)
  · rw [hskip, Bool.true_and, Bool.not_eq_true'] at hkeep
    exact hkeep

theorem readable_outline_of_read (hread : Outline.read source = .ok nodes)
    (h : (compile options nodes).result = .ok s) :
    ∀ node ∈ Outline.flatten s.outline, Readable node.words := by
  obtain ⟨d, hdecl, _, hs⟩ := compile_eq_ok_iff.1 h
  have hd := declared_of_declareAll hdecl
  rw [hd.outline_eq hs]
  exact hd.readable_outline (spelled_of_read hread hdecl)

theorem compileText_text_of_relaxes (h : (compileText options source).result = .ok s)
    (hr : options.Relaxes options') : (compileText options' s.text).result = .ok s := by
  obtain ⟨nodes, hread, h⟩ := compileText_eq_ok_iff.1 h
  obtain ⟨d, hdecl, hrefs, hs⟩ := compile_eq_ok_iff.1 h
  have hd := declared_of_declareAll hdecl
  -- the text has the outline of `d`, and from `d` on both runs are one
  have hagain : Outline.read s.text = .ok (written 0 1 d.outline) := by
    rw [Schema.text_eq_write (holds_of_compile h),
      Outline.read_write (readable_outline_of_read hread h), hd.outline_eq hs]
  exact compileText_eq_ok_iff.2 ⟨_, hagain, compile_eq_ok_iff.2
    ⟨d, hd.declareAll_outline (spelled_of_read hread hdecl) hr, hrefs, hs⟩⟩

/-- **The text of a compiled schema compiles to that schema,** under the same options and
also when no name is reserved. -/
theorem compileText_text (h : (compileText options source).result = .ok s) :
    (compileText options s.text).result = .ok s ∧
      (compileText { options with reservedNames := [] } s.text).result = .ok s :=
  ⟨compileText_text_of_relaxes h ⟨rfl, fun _ hr => hr⟩,
    compileText_text_of_relaxes h ⟨rfl, fun _ hr => by cases hr⟩⟩

/-- Two blocks of one object, a comment, a derived declaration, and words that are spelled
in other ways than they are written. -/
def untidyText : String :=
  "// things\n\nthing 1 nowhere\n  id  string +1\nperson 2 thing\n    tall bool 2 shown\n" ++
    "thing 1\n\tsize string:set:person 03\nof(thing) 9\n"

theorem untidyText_round_trip : ∃ s, (compileText {} untidyText).result = .ok s ∧
    (compileText {} s.text).result = .ok s := by
  have hok : (compileText {} untidyText).result.toOption.isSome := by decide +kernel
  cases hs : (compileText {} untidyText).result with
  | error e => rw [hs] at hok; cases hok
  | ok s => exact ⟨s, rfl, (compileText_text hs).1⟩

end SchemaLang
