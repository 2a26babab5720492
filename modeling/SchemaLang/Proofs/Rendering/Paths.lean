import Mathlib.Data.List.Flatten
import SchemaLang.Proofs.Origin
import SchemaLang.Proofs.Rendering.Asking
import SchemaLang.Proofs.RoundTrip.Outline

/-!
# Two ways to render an object

An object is rendered with the schema that it belongs to, or by itself.  Both renderings go through
the same block of its own properties, and neither asks a handler; but by itself an object is
rendered as a block of any origin, so the lines of names that start with a digit, after at most one
sign, are left out as those of an index.

* `ObjectType.blockText`, `Numbered`: what is written, and what is left out.
* `Schema.renderAll`: the objects of a schema, rendered with it.
* `ObjectType.publicText_eq_text_iff`: the two texts of an object agree just if nothing is left out.
* `compile_renders`: what is written of the objects of a compiled schema, in both ways.
-/

namespace SchemaLang

open Outline (Node lineOf spaced)

theorem forall_of_flatMap_filter_eq {α β : Type} {f : α → List β} {p : α → Bool}
    (hf : ∀ a, f a ≠ []) : ∀ {l : List α}, (l.filter p).flatMap f = l.flatMap f →
      ∀ a ∈ l, p a = true := by
  intro l
  induction l with
  | nil => intro _ a ha; cases ha
  | cons a l ih =>
    intro h
    cases hp : p a with
    | true =>
      rw [List.filter_cons_of_pos hp, List.flatMap_cons, List.flatMap_cons,
        List.append_cancel_left_eq] at h
      intro b hb
      rcases List.mem_cons.1 hb with rfl | hb
      · exact hp
      · exact ih h b hb
    | false =>
      -- the text without a line is shorter
      have hle : ((l.filter p).flatMap f).length ≤ (l.flatMap f).length :=
        (List.filter_sublist.flatMap f).length_le
      have hpos : 0 < (f a).length := List.length_pos_iff.2 (hf a)
      rw [List.filter_cons_of_neg (by simp [hp])] at h
      rw [h, List.flatMap_cons, List.length_append] at hle
      omega

theorem Property.toList_line_ne_nil (p : Property) : p.line.toList ≠ [] := by
  rw [Property.toList_line]
  exact List.append_ne_nil_of_right_ne_nil _ (List.cons_ne_nil _ _)

/-! ### What is written -/

/-- After at most one sign, a name starts with a digit. -/
def Numbered (name : String) : Prop :=
  ∃ sign ∈ [[], ['+'], ['-']], ∃ digit rest,
    '0' ≤ digit ∧ digit ≤ '9' ∧ name.toList = sign ++ digit :: rest

theorem isDigit_iff {c : Char} : c.isDigit = true ↔ '0' ≤ c ∧ c ≤ '9' := by
  simp [Char.isDigit, Char.le_def]

theorem unsigned_eq_cons_iff {l r : List Char} {c : Char} (hc : c.isDigit = true) :
    unsigned l = c :: r ↔ ∃ sign ∈ [[], ['+'], ['-']], l = sign ++ c :: r := by
  constructor
  · fun_cases unsigned l with
    | case1 => rintro rfl; exact ⟨['-'], by simp, rfl⟩
    | case2 => rintro rfl; exact ⟨['+'], by simp, rfl⟩
    | case3 => rintro rfl; exact ⟨[], by simp, rfl⟩
  · rintro ⟨sign, hsign, rfl⟩
    simp only [List.mem_cons, List.not_mem_nil, or_false] at hsign
    rcases hsign with rfl | rfl | rfl
    · -- a digit is no sign
      rw [List.nil_append, unsigned]
      · rintro _ h
        cases h
        cases hc
      · rintro _ h
        cases h
        cases hc
    · rfl
    · rfl

theorem isIndexLike_iff {name : String} : isIndexLike name = true ↔ Numbered name := by
  unfold isIndexLike Numbered
  generalize name.toList = l
  constructor
  · intro h
    split at h
    · next c r hl =>
      obtain ⟨sign, hsign, rfl⟩ := (unsigned_eq_cons_iff h).1 hl
      obtain ⟨hlow, hhigh⟩ := isDigit_iff.1 h
      exact ⟨sign, hsign, c, r, hlow, hhigh, rfl⟩
    · cases h
  · rintro ⟨sign, hsign, c, r, hlow, hhigh, rfl⟩
    have hc : c.isDigit = true := isDigit_iff.2 ⟨hlow, hhigh⟩
    rw [(unsigned_eq_cons_iff hc).2 ⟨sign, hsign, rfl⟩]
    exact hc

instance : DecidablePred Numbered := fun _ => decidable_of_iff _ isIndexLike_iff

namespace ObjectType

/-- **The block of an object** with some properties: a header of its name, its code and its super
types, and below it, behind a tab, the name, the type, the code and the tags of each property. -/
def blockText (o : ObjectType) (ps : List Property) : String :=
  " ".intercalate (o.name :: toString o.code.toInt :: o.superTypes.toList) ++ "\n" ++
    String.join (ps.map fun p =>
      "\t" ++ " ".intercalate (p.name :: p.type.text :: toString p.code.toInt :: p.tags.toList) ++
        "\n")

def publicText (o : ObjectType) : String :=
  o.blockText (o.ownProperties.filter fun p => ¬Numbered p.name)

/-- **How an object is written** that was declared in some blocks, with its schema (`text`) and by
itself (`publicText`). -/
structure WrittenFrom (o : ObjectType) (blocks : List Node) : Prop where
  text : o.text = o.blockText o.ownProperties
  own : ∀ p, p ∈ o.ownProperties ↔ p ∈ o.properties.values ∧ p.owner = o.name
  /-- The lines stand in the order in which the blocks declare the properties first. -/
  order : o.ownProperties.map Property.name = (blocks.flatMap Node.propertyNames).eraseDups
  /-- By itself it is rendered whatever the handler, and the handler is not asked. -/
  alone : ∀ {σ υ : Type} (handler : Handler σ υ) (st : σ),
    (o.toBlock.render handler.recording o.name o.code).run.run (st, []) =
      (.ok o.publicText, (st, []))
  agree : o.publicText = o.text ↔ ∀ p ∈ o.ownProperties, ¬Numbered p.name

end ObjectType

/-! ### One block, two texts -/

theorem Code.text_eq_toString (code : Code) : code.text = toString code.toInt := by
  rw [text]
  cases code.toInt with
  | ofNat n => rfl
  | negSucc n =>
    refine String.toList_inj.1 ?_
    show (String.ofList ('-' :: Nat.toDigits 10 (n + 1))).toList =
      ("-" ++ String.ofList (Nat.toDigits 10 (n + 1))).toList
    simp only [String.toList_append, String.toList_ofList]
    rfl

theorem toList_intercalate_space (ws : List String) : (" ".intercalate ws).toList = spaced ws := by
  have hspace : " ".toList = [' '] := rfl
  rw [String.toList_intercalate, hspace]
  cases ws with
  | nil => rfl
  | cons w ws =>
    rw [spaced]
    induction ws generalizing w with
    | nil => simp
    | cons v ws ih =>
      rw [List.map_cons, List.map_cons, List.intercalate_cons_cons, ← List.map_cons, ih v,
        List.flatMap_cons, List.append_assoc]
      rfl

theorem Property.line_eq (p : Property) : p.line =
    "\t" ++ " ".intercalate (p.name :: p.type.text :: toString p.code.toInt :: p.tags.toList) ++
      "\n" := by
  refine String.toList_inj.1 ?_
  rw [toList_line, lineOf, words, Code.text_eq_toString, String.toList_append, String.toList_append,
    toList_intercalate_space]
  rfl

namespace ObjectType

variable {o : ObjectType} {l : List Property}

theorem blockText_eq (o : ObjectType) (ps : List Property) : o.blockText ps =
    Block.headerLine o.name o.code o.superTypes ++ String.join (ps.map Property.line) := by
  have hheader : Block.headerLine o.name o.code o.superTypes =
      " ".intercalate (o.name :: toString o.code.toInt :: o.superTypes.toList) ++ "\n" := by
    refine String.toList_inj.1 ?_
    rw [toList_headerLine, lineOf, Code.text_eq_toString, String.toList_append,
      toList_intercalate_space]
    rfl
  rw [blockText, hheader, List.map_congr_left fun p _ => Property.line_eq p]

/-- **The rendering of the block of an object** is its text with the lines whose names are kept. -/
theorem renderWith_eq_blockText {σ υ : Type} (h : o.Holds l) (keep : String → Bool)
    (handler : Handler σ υ) : o.toBlock.renderWith keep handler o.name o.code =
      pure (o.blockText (o.ownProperties.filter fun p => keep p.name)) := by
  rw [renderWith_toBlock h, blockText_eq]

theorem text_eq_blockText (h : o.Holds l) : o.text = o.blockText o.ownProperties := by
  rw [text_eq h, blockText_eq]

theorem publicText_eq_text_iff (h : o.Holds l) :
    o.publicText = o.text ↔ ∀ p ∈ o.ownProperties, ¬Numbered p.name := by
  rw [text_eq_blockText h, publicText]
  constructor
  · intro heq p hp
    have hchars := congrArg String.toList heq
    rw [blockText_eq, blockText_eq, String.toList_append, String.toList_append,
      List.append_cancel_left_eq, String.toList_join, String.toList_join, List.flatMap_map,
      List.flatMap_map] at hchars
    exact of_decide_eq_true
      (forall_of_flatMap_filter_eq Property.toList_line_ne_nil hchars p hp)
  · intro hall
    rw [List.filter_eq_self.2 fun p hp => decide_eq_true (hall p hp)]

end ObjectType

def Schema.renderAll {σ υ : Type} (handler : Handler σ υ) (s : Schema) : Rendering σ υ String := do
  let texts ← s.objectList.mapM fun o =>
    o.toBlock.renderWith (fun _ => true) handler o.name o.code
  return String.join texts

theorem mapM_eq_pure_map {α β : Type} {m : Type → Type} [Monad m] [LawfulMonad m] {f : α → m β}
    {g : α → β} : ∀ {l : List α}, (∀ a ∈ l, f a = pure (g a)) → l.mapM f = pure (l.map g)
  | [], _ => List.mapM_nil
  | a :: l, h => by
    rw [List.mapM_cons, h a List.mem_cons_self,
      mapM_eq_pure_map fun b hb => h b (List.mem_cons_of_mem a hb)]
    simp only [pure_bind, List.map_cons]

/-- **The text of a compiled schema is made of the blocks of its objects**, one after the other, and
no handler is asked for them.  Each object is written from the blocks that declare it. -/
theorem compile_renders {options : Options} {nodes : List Node} {s : Schema}
    (h : (compile options nodes).result = .ok s) :
    s.text = String.join (s.objectList.map fun o => o.blockText o.ownProperties) ∧
    (∀ {σ υ : Type} (handler : Handler σ υ) (st : σ),
      (s.renderAll handler.recording).run.run (st, []) = (.ok s.text, (st, []))) ∧
    ∀ o ∈ s.objectList,
      o.WrittenFrom ((options.declared nodes).filter fun node => node.name? = some o.name) := by
  obtain ⟨d, hdecl, _, hs⟩ := compile_eq_ok_iff.1 h
  obtain ⟨bs, hbs, hcollects⟩ := collects_of_declareAll hdecl
  obtain ⟨hp, _, _, hflat⟩ := hcollects.declared.of_resolve hs
  have hobject : ∀ o ∈ s.objectList, s.object? o.name = some o := fun o ho =>
    (hp.named hcollects.declared).object?_name ho
  have htext : ∀ o ∈ s.objectList, o.text = o.blockText o.ownProperties := fun o ho =>
    ObjectType.text_eq_blockText (hflat o.name o (hobject o ho))
  refine ⟨?_, fun handler st => ?_, fun o ho => ?_⟩
  · rw [Schema.text, List.map_congr_left htext]
  · have hblock : ∀ o ∈ s.objectList, o.toBlock.renderWith (fun _ => true) handler.recording
        o.name o.code = pure o.text := fun o ho => by
      rw [ObjectType.renderWith_eq_blockText (hflat o.name o (hobject o ho)),
        List.filter_eq_self.2 fun _ _ => rfl, htext o ho]
    rw [Schema.renderAll, mapM_eq_pure_map hblock]
    rfl
  · have hfind := hobject o ho
    have hholds := hflat o.name o hfind
    refine ⟨htext o ho, fun p => ?_, (hcollects.mergesFrom hbs hs hfind).names,
      fun handler st => ?_, ObjectType.publicText_eq_text_iff hholds⟩
    · rw [ObjectType.ownProperties, List.mem_filter, beq_iff_eq]
    · have hkeep : (fun p : Property => !isIndexLike p.name) =
          fun p => decide ¬Numbered p.name := by
        funext p
        rw [Bool.eq_iff_iff, Bool.not_eq_true', ← Bool.not_eq_true, isIndexLike_iff,
          decide_eq_true_eq]
      rw [Block.render, ObjectType.renderWith_eq_blockText hholds, hkeep]
      rfl

/-- An object with names that look like those of an index, declared in two blocks, and one that
inherits them. -/
def numberedNodes : List Node :=
  [{ words := ["base", "1"], line := "base 1", lineNumber := 1
     children := [⟨["1st", "string", "1"], [], "1st string 1", 2⟩,
       ⟨["-x", "int", "2"], [], "-x int 2", 3⟩] },
   { words := ["sub", "2", "base"], line := "sub 2 base", lineNumber := 4
     children := [⟨["y", "base", "3"], [], "y base 3", 5⟩] },
   { words := ["base", "1"], line := "base 1", lineNumber := 6
     children := [⟨["+2nd", "set:sub", "4"], [], "+2nd set:sub 4", 7⟩] }]

theorem numberedNodes_renders : ∃ s, (compile {} numberedNodes).result = .ok s ∧
    s.text = "base 1\n\t1st string 1\n\t-x int 2\n\t+2nd set:sub 4\nsub 2 base\n\ty base 3\n" ∧
    s.text = String.join (s.objectList.map fun o => o.blockText o.ownProperties) ∧
    (∀ {σ υ : Type} (handler : Handler σ υ) (st : σ),
      (s.renderAll handler.recording).run.run (st, []) = (.ok s.text, (st, []))) ∧
    (∀ o ∈ s.objectList, o.WrittenFrom ((Options.declared {} numberedNodes).filter fun node =>
      node.name? = some o.name)) ∧
    s.objectList.map (fun o => (o.name, o.publicText)) =
      [("base", "base 1\n\t-x int 2\n"), ("sub", "sub 2 base\n\ty base 3\n")] := by
  have htexts : (compile {} numberedNodes).result.toOption.map (fun s =>
      (s.text, s.objectList.map fun o => (o.name, o.publicText))) =
        some ("base 1\n\t1st string 1\n\t-x int 2\n\t+2nd set:sub 4\nsub 2 base\n\ty base 3\n",
          [("base", "base 1\n\t-x int 2\n"), ("sub", "sub 2 base\n\ty base 3\n")]) := by
    decide +kernel
  cases hs : (compile {} numberedNodes).result with
  | error e => rw [hs] at htexts; cases htexts
  | ok s =>
    rw [hs] at htexts
    obtain ⟨htext, hpublic⟩ := Prod.mk.inj (Option.some.inj htexts)
    obtain ⟨hblocks, hall, hwritten⟩ := compile_renders hs
    exact ⟨s, rfl, htext, hblocks, hall, hwritten, hpublic⟩

end SchemaLang
