import SchemaLang.Proofs.Declaration.Acceptance
import SchemaLang.Proofs.RoundTrip.Outline
import SchemaLang.Proofs.TypeText

/-!
# Spelled objects

The objects of a schema that was compiled from a text are made of words of that text: of
names that start no comment and are not reserved, of super types and tags, and of words
that spell the types.  `ObjectType.Spelled` collects what is true of them, in terms of the
words that the object will be written with.

* `Collects.spelled`: the objects of a schema are spelled when the nodes were read from a
  text.
* `assigns_spaced`: a written line assigns only where one of its words does, so a block that
  was not derived is not derived when it is written.
-/

namespace SchemaLang

open Outline (Node IsWord Readable spaced wordsOf)

/-! ### Words -/

theorem isBlank_of_isDigit {c : Char} (h : c.isDigit = true) : Text.isBlank c = false := by
  rw [Char.isDigit, Bool.and_eq_true, decide_eq_true_eq, decide_eq_true_eq, ge_iff_le,
    UInt32.le_iff_toNat_le, UInt32.le_iff_toNat_le] at h
  have hlow : 48 ≤ c.toNat := h.1
  have hhigh : c.toNat ≤ 57 := h.2
  rw [← Bool.not_eq_true, Text.isBlank]
  simp only [Bool.or_eq_true, Bool.and_eq_true, decide_eq_true_eq, beq_iff_eq]
  omega

theorem mem_text_code {code : Code} {c : Char} (h : c ∈ code.text.toList) :
    c = '-' ∨ c.isDigit = true := by
  rw [Code.text, String.toList_ofList] at h
  cases hi : code.toInt with
  | ofNat n =>
    rw [hi] at h
    exact Or.inr (Text.isDigit_of_mem_toDigits_ten h)
  | negSucc n =>
    rw [hi] at h
    exact (List.mem_cons.1 h).imp_right Text.isDigit_of_mem_toDigits_ten

theorem isWord_code (code : Code) : IsWord code.text := by
  refine ⟨?_, fun c hc => ?_⟩
  · rw [Code.text, String.toList_ofList]
    exact Text.decimal_ne_nil _
  · rcases mem_text_code hc with rfl | hc
    · decide
    · exact isBlank_of_isDigit hc

theorem isWord_text_ofText {w : String} (h : IsWord w) : IsWord (TypeExpr.ofText w).text := by
  have hboolean : ("boolean".toList.all fun c => !Text.isBlank c) = true := by decide
  refine ⟨TypeExpr.text_ofText_ne_nil h.ne_nil, fun c hc => ?_⟩
  rcases TypeExpr.mem_text_ofText hc with hc | hc
  · exact h.solid c hc
  · rw [← Bool.not_eq_true']
    exact List.all_eq_true.1 hboolean c hc

theorem Outline.Readable.of_head {w : String} {ws vs : List String} (h : Readable (w :: ws))
    (hvs : ∀ v ∈ vs, IsWord v) : Readable (w :: vs) := by
  refine ⟨fun v hv => ?_, List.cons_ne_nil w vs, h.no_comment⟩
  rcases List.mem_cons.1 hv with rfl | hv
  · exact h.isWord v List.mem_cons_self
  · exact hvs v hv

/-! ### Assignments -/

/-- A space is no part of an assignment, so none reaches across it. -/
theorem assigns_append_space (y : List Char) : ∀ x : List Char,
    assigns (x ++ ' ' :: y) = (assigns x || assigns y) := by
  intro x
  induction x with
  | nil => rw [List.nil_append, assigns_cons]; simp [assigns]
  | cons c x ih =>
    rw [List.cons_append, assigns_cons, assigns_cons, ih, Bool.or_assoc]
    cases x with
    | nil => simp
    | cons d x => rfl

theorem assigns_code (code : Code) : assigns code.text.toList = false := by
  rw [← Bool.not_eq_true, assigns_iff]
  intro h
  have hcolon : ':' ∈ code.text.toList := h.subset List.mem_cons_self
  rcases mem_text_code hcolon with hc | hc
  · revert hc; decide
  · revert hc; decide

/-- **A written line assigns** only where one of its words does. -/
theorem assigns_spaced : ∀ ws : List String,
    assigns (spaced ws) = ws.any fun w => assigns w.toList
  | [] => rfl
  | w :: ws => by
    rw [spaced]
    induction ws generalizing w with
    | nil => simp
    | cons v ws ih =>
      rw [List.flatMap_cons, List.cons_append, assigns_append_space, ih v, List.any_cons,
        List.any_cons, List.any_cons]

/-! ### What is spelled -/

structure Property.Spelled (options : Options) (p : Property) : Prop where
  readable : Readable p.words
  type : ∃ w : String, w.toList.count ':' ≤ maxTypeDepth ∧ p.type = TypeExpr.ofText w
  free : ∀ r ∈ options.reservedNames, Text.lowercase r ≠ Text.lowercase p.name

/-- An object whose words can be read, make no derived declaration where those are passed
over, and whose properties are spelled. -/
structure ObjectType.Spelled (options : Options) (o : ObjectType) : Prop where
  name : Readable [o.name]
  free : o.name ∉ options.reservedNames
  underived : options.skipDerived = true → '(' ∉ o.name.toList ∧ assigns o.name.toList = false
  superTypes : ∀ t ∈ o.superTypes.toList,
    IsWord t ∧ (options.skipDerived = true → assigns t.toList = false)
  properties : ∀ p ∈ o.properties.values, p.Spelled options

theorem ObjectType.Spelled.readable {options : Options} {o : ObjectType} (h : o.Spelled options) :
    Readable o.words := by
  refine h.name.of_head fun v hv => ?_
  rcases List.mem_cons.1 hv with rfl | hv
  · exact isWord_code o.code
  · exact (h.superTypes v hv).1

/-- Nodes of a text: all their words are readable and stand in their lines. -/
structure Outline.Node.Textual (node : Node) : Prop where
  readable : Readable node.words
  children : ∀ child ∈ node.children, Readable child.words
  words : node.words = wordsOf node.line

variable {options : Options} {node : Node} {b : ObjectType} {p : Property} {owner : String}

theorem assigns_of_infix {x y : List Char} (h : x <:+: y) (hy : assigns y = false) :
    assigns x = false := by
  rw [← Bool.not_eq_true, assigns_iff] at hy ⊢
  exact fun hx => hy (hx.trans h)

theorem Outline.exists_words_eq_cons {node : Node} {name : String} (h : node.name? = some name) :
    ∃ ws, node.words = name :: ws := by
  obtain ⟨words, children, line, number⟩ := node
  cases words with
  | nil => cases h
  | cons w ws => exact ⟨ws, congrArg (· :: ws) (Option.some.inj h)⟩

/-- **The property of a readable line is spelled.** -/
theorem Property.spelled_of_ofNode (h : Property.ofNode options owner node = .ok p)
    (hread : Readable node.words) : p.Spelled options := by
  obtain ⟨hprop, hname, htype, _, htags, _⟩ := Property.ofNode_eq_ok_iff.1 h
  obtain ⟨ws, hws⟩ := Outline.exists_words_eq_cons hname
  obtain ⟨w, hw, hwtype⟩ := Option.map_eq_some_iff.1 htype
  have hmem : w ∈ node.words := List.mem_of_getElem? hw
  rw [hws] at hread
  refine ⟨hread.of_head fun v hv => ?_, ⟨w, hprop.type_depth w hw, hwtype.symm⟩,
    hprop.name_free p.name hname⟩
  rcases List.mem_cons.1 hv with rfl | hv
  · rw [← hwtype]
    exact isWord_text_ofText (hread.isWord w (hws ▸ hmem))
  · rcases List.mem_cons.1 hv with rfl | hv
    · exact isWord_code p.code
    · have hv : v ∈ p.tags := hv
      rw [htags, OrderedSet.mem_ofList] at hv
      exact hread.isWord v (hws ▸ List.mem_of_mem_drop hv)

/-- **The block of a node of a text is spelled.** -/
theorem ObjectType.spelled_of_ofNode (h : ObjectType.ofNode options node = .ok b)
    (htext : node.Textual) (hderived : options.skipDerived = true → isDerived node = false) :
    b.Spelled options := by
  obtain ⟨hhead, hname, _, hsup, _, ps, hf, _, hb⟩ := ObjectType.ofNode_eq_ok_iff.1 h
  obtain ⟨ws, hws⟩ := Outline.exists_words_eq_cons hname
  have hread := htext.readable
  have hmem : ∀ v ∈ b.superTypes.toList, v ∈ node.words := fun v hv => by
    have hv : v ∈ b.superTypes := hv
    rw [hsup, OrderedSet.mem_ofList] at hv
    exact List.mem_of_mem_drop hv
  have hassign : options.skipDerived = true →
      ∀ w ∈ node.words, assigns w.toList = false := fun hskip w hw => by
    have hline := (Bool.or_eq_false_iff.1 (hderived hskip)).2
    rw [htext.words] at hw
    obtain ⟨x, hx, rfl⟩ := List.mem_map.1 hw
    rw [String.toList_ofList]
    exact assigns_of_infix (Text.infix_of_mem_words hx) hline
  have hfirst : b.name ∈ node.words := by rw [hws]; exact List.mem_cons_self
  refine ⟨?_, hhead.name_free b.name hname, fun hskip => ⟨?_, hassign hskip b.name hfirst⟩,
    fun t ht => ⟨hread.isWord t (hmem t ht), fun hskip => hassign hskip t (hmem t ht)⟩,
    fun p hp => ?_⟩
  · rw [hws] at hread
    exact hread.of_head fun v hv => by cases hv
  · have hd := hderived hskip
    rw [isDerived, hws, Bool.or_eq_false_iff] at hd
    have hparen : b.name.toList.contains '(' = false := hd.1
    intro hp
    rw [List.contains_iff_mem.2 hp] at hparen
    cases hparen
  · rw [hb.values] at hp
    obtain ⟨child, hc, he⟩ := exists_mem_of_map_eq hf hp
    exact Property.spelled_of_ofNode he (htext.children child hc)

namespace Schema

variable {s : Schema} {bs : List ObjectType} {o : ObjectType}

/-- **The objects of a schema are spelled when its blocks are.** -/
theorem Collects.spelled (h : s.Collects bs) (hbs : ∀ b ∈ bs, b.Spelled options)
    (ho : o ∈ s.objectList) : o.Spelled options := by
  obtain ⟨n, ho⟩ := OrderedMap.mem_values_iff.1 ho
  obtain ⟨a, ha, hname, _⟩ := h.exists_block ho
  rw [← h.declared.name ho] at hname
  obtain ⟨haname, hafree, haderived, _, _⟩ := hbs a ha
  rw [hname] at haname hafree haderived
  refine ⟨haname, hafree, haderived, fun t ht => ?_, fun p hp => ?_⟩
  · have ht : t ∈ o.superTypes := ht
    rw [h.superTypes n o ho, OrderedSet.mem_ofList] at ht
    obtain ⟨c, hc, ht⟩ := List.mem_flatMap.1 ht
    exact (hbs c (ObjectType.mem_blocksOf.1 hc).1).superTypes t ht
  · rw [← own_of_object ho] at hp
    obtain ⟨c, hc, _, hp⟩ := h.mem_own hp
    exact (hbs c hc).properties p hp

end Schema
end SchemaLang
