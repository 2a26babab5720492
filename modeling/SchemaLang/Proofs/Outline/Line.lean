import Mathlib.Data.List.Basic
import Mathlib.Data.List.TakeWhile
import SchemaLang.Outline.Reader

/-!
# Lines and their words

An outline is made of lines that are not passed over, and such a line has at least one
word, of which the first does not start a comment (`Readable`).  The other way round,
readable words can be written as a line: some tabs, and then the words with one space
between two of them (`lineOf`).  Such a line is a row as it stands, its margin is the tabs,
and its words are the ones that were written.

* `readable_of_row?`: what stands in a row is readable.
* `row?_lineOf`, `wordsOf_lineOf`, `margin_lineOf`: a written line is read back.
-/

namespace SchemaLang.Text

variable {l w r : List Char} {c : Char}

theorem trimEnd_concat (hc : isBlank c = false) : ∀ x : List Char, trimEnd (x ++ [c]) = x ++ [c]
  | [] => by rw [List.nil_append, trimEnd, trimEnd, hc]; rfl
  | a :: x => by
    rw [List.cons_append, trimEnd, trimEnd_concat hc x]
    cases x <;> rfl

theorem words_blank_cons (h : isBlank c = true) (l : List Char) : words (c :: l) = words l :=
  words_append_blank h [] l

theorem words_append_of_blank (h : ∀ c ∈ l, isBlank c = true) : words (l ++ r) = words r := by
  induction l with
  | nil => rfl
  | cons c l ih =>
    rw [List.cons_append, words_blank_cons (h c List.mem_cons_self),
      ih fun d hd => h d (List.mem_cons_of_mem c hd)]

theorem words_trimStart (l : List Char) : words (trimStart l) = words l := by
  have hmargin : ∀ c ∈ margin l, isBlank c = true := fun c hc =>
    List.mem_takeWhile_imp hc
  have h : words (margin l ++ trimStart l) = words (trimStart l) := words_append_of_blank hmargin
  rw [margin_append_trimStart] at h
  exact h.symm

theorem words_append_run (hne : w ≠ []) (hw : ∀ c ∈ w, isBlank c = false)
    (hr : ∀ c, r.head? = some c → isBlank c = true) : words (w ++ r) = w :: words r := by
  cases r with
  | nil => rw [List.append_nil, words_run hne hw]; rfl
  | cons c r =>
    have hc : isBlank c = true := hr c rfl
    rw [words_append_blank hc, words_run hne hw, words_blank_cons hc]
    rfl

/-- **The first word of a line** is a beginning of what follows the margin. -/
theorem exists_words_eq_cons (h : trimStart l ≠ []) :
    ∃ w ws, words l = w :: ws ∧ w <+: trimStart l := by
  have hhead : ∀ c, (trimStart l).head? = some c → isBlank c = false := fun c hc => by
    have := List.head?_dropWhile_not isBlank l
    rw [show List.dropWhile isBlank l = trimStart l from rfl, hc] at this
    simpa using this
  obtain ⟨c, t, ht⟩ := List.exists_cons_of_ne_nil h
  have hc : isBlank c = false := hhead c (by rw [ht]; rfl)
  -- the first word is what stands before the next blank
  let solid : Char → Bool := fun c => !isBlank c
  have hsplit : (c :: t).takeWhile solid ++ (c :: t).dropWhile solid = c :: t :=
    List.takeWhile_append_dropWhile
  have hrun : words (c :: t) = (c :: t).takeWhile solid :: words ((c :: t).dropWhile solid) := by
    rw [← words_append_run, hsplit]
    · rw [List.takeWhile_cons_of_pos (by simp [solid, hc])]
      exact List.cons_ne_nil c _
    · intro d hd
      simpa [solid] using List.mem_takeWhile_imp hd
    · intro d hd
      have := List.head?_dropWhile_not solid (c :: t)
      rw [hd] at this
      simpa [solid] using this
  refine ⟨_, _, by rw [← words_trimStart, ht]; exact hrun, ?_⟩
  rw [ht]
  exact ⟨_, hsplit⟩

end SchemaLang.Text

namespace SchemaLang.Outline

open Text (isBlank margin trimStart words)

variable {depth number : Nat} {ws : List String} {w v : String}

structure IsWord (w : String) : Prop where
  ne_nil : w.toList ≠ []
  solid : ∀ c ∈ w.toList, isBlank c = false

/-- The words of a line that is not passed over. -/
structure Readable (ws : List String) : Prop where
  isWord : ∀ w ∈ ws, IsWord w
  ne_nil : ws ≠ []
  no_comment : ∀ w, ws.head? = some w → ¬['/', '/'] <+: w.toList

instance : DecidablePred IsWord := fun w =>
  decidable_of_iff (w.toList ≠ [] ∧ w.toList.all fun c => !isBlank c) <| by
    rw [List.all_eq_true]
    simp only [Bool.not_eq_true']
    exact ⟨fun h => ⟨h.1, h.2⟩, fun h => ⟨h.ne_nil, h.solid⟩⟩

instance : DecidablePred Readable := fun ws =>
  decidable_of_iff ((∀ w ∈ ws, IsWord w) ∧ ws ≠ [] ∧ ∀ w ∈ ws.head?, ¬['/', '/'] <+: w.toList)
    ⟨fun h => ⟨h.1, h.2.1, h.2.2⟩, fun h => ⟨h.isWord, h.ne_nil, h.no_comment⟩⟩

def spaced : List String → List Char
  | [] => []
  | w :: ws => w.toList ++ ws.flatMap fun v => ' ' :: v.toList

/-- **Words as a line** of an outline. -/
def lineOf (depth : Nat) (ws : List String) : List Char := List.replicate depth '\t' ++ spaced ws

theorem isSkipped_iff {l : List Char} : isSkipped l = true ↔ l = [] ∨ ['/', '/'] <+: l := by
  unfold isSkipped
  split
  · simp
  · next r => exact ⟨fun _ => Or.inr ⟨r, rfl⟩, fun _ => rfl⟩
  · next hnil hcomment =>
    refine ⟨fun h => (by cases h), ?_⟩
    rintro (h | ⟨r, h⟩)
    · exact absurd h hnil
    · exact absurd h.symm (hcomment r)

/-! ### Rows are readable -/

theorem row?_eq (line : List Char) (number : Nat) :
    row? line number = if isSkipped (trimStart (Text.trimEnd line)) = true then none
      else some ⟨number, Text.trimEnd line⟩ := rfl

theorem wordsOf_ofList (l : List Char) :
    wordsOf (String.ofList l) = (words l).map String.ofList := by
  rw [wordsOf, String.toList_ofList]

/-- **What stands in a row is readable.** -/
theorem readable_of_row? {line : List Char} {row : Row} (h : row? line number = some row) :
    Readable (wordsOf (String.ofList row.line)) := by
  rw [row?_eq] at h
  split at h
  · cases h
  · next hs =>
    cases h
    rw [isSkipped_iff, not_or] at hs
    obtain ⟨hne, hcomment⟩ := hs
    obtain ⟨w, ws, hws, hpre⟩ := Text.exists_words_eq_cons hne
    rw [wordsOf_ofList]
    refine ⟨fun v hv => ?_, ?_, fun v hv => ?_⟩
    · obtain ⟨x, hx, rfl⟩ := List.mem_map.1 hv
      exact ⟨by rw [String.toList_ofList]; exact Text.ne_nil_of_mem_words hx,
        fun c hc => Text.not_blank_of_mem_words hx (by rwa [String.toList_ofList] at hc)⟩
    · rw [hws]; exact List.cons_ne_nil _ _
    · rw [hws] at hv
      obtain rfl := Option.some.inj hv
      rw [String.toList_ofList]
      exact fun hp => hcomment (hp.trans hpre)

theorem rowsFrom_append : ∀ (l m : List (List Char)) (number : Nat),
    rowsFrom number (l ++ m) = rowsFrom number l ++ rowsFrom (number + l.length) m := by
  intro l
  induction l with
  | nil => intro m number; rfl
  | cons line l ih =>
    intro m number
    rw [List.cons_append, rowsFrom, rowsFrom, ih, List.length_cons,
      show number + (l.length + 1) = number + 1 + l.length by omega]
    split
    · rfl
    · rfl

/-! ### Written lines are read back -/

theorem words_flatMap_space : ∀ {ws : List String}, (∀ w ∈ ws, IsWord w) →
    words (ws.flatMap fun v => ' ' :: v.toList) = ws.map String.toList := by
  intro ws
  induction ws with
  | nil => intro _; rfl
  | cons w ws ih =>
    intro h
    have hw := h w List.mem_cons_self
    rw [List.flatMap_cons, List.cons_append, Text.words_blank_cons (by decide),
      Text.words_append_run hw.ne_nil hw.solid, ih fun v hv => h v (List.mem_cons_of_mem w hv),
      List.map_cons]
    intro c hc
    cases ws with
    | nil => cases hc
    | cons v ws =>
      obtain rfl : ' ' = c := Option.some.inj hc
      decide

theorem words_spaced (h : ∀ w ∈ ws, IsWord w) : words (spaced ws) = ws.map String.toList := by
  cases ws with
  | nil => rfl
  | cons w ws =>
    have hflat := words_flatMap_space h
    rwa [List.flatMap_cons, List.cons_append, Text.words_blank_cons (by decide)] at hflat

theorem isBlank_of_mem_replicate_tab {c : Char} (h : c ∈ List.replicate depth '\t') :
    isBlank c = true := by
  rw [List.eq_of_mem_replicate h]
  decide

theorem wordsOf_lineOf (h : ∀ w ∈ ws, IsWord w) :
    wordsOf (String.ofList (lineOf depth ws)) = ws := by
  rw [wordsOf_ofList, lineOf, Text.words_append_of_blank fun c => isBlank_of_mem_replicate_tab,
    words_spaced h, List.map_map]
  have hid : String.ofList ∘ String.toList = id := funext fun w => String.ofList_toList
  rw [hid, List.map_id]

theorem exists_lineOf_eq_concat (h : Readable ws) :
    ∃ x c, lineOf depth ws = x ++ [c] ∧ isBlank c = false := by
  obtain ⟨vs, w, rfl⟩ := (List.eq_nil_or_concat' ws).resolve_left h.ne_nil
  have hw := h.isWord w (List.mem_append_right vs List.mem_cons_self)
  obtain ⟨x, c, hx⟩ := (List.eq_nil_or_concat' w.toList).resolve_left hw.ne_nil
  have hc : isBlank c = false := hw.solid c (by rw [hx]; simp)
  obtain ⟨y, hy⟩ : ∃ y, spaced (vs ++ [w]) = y ++ w.toList := by
    cases vs with
    | nil => exact ⟨[], by simp [spaced]⟩
    | cons v vs =>
      refine ⟨v.toList ++ (vs.flatMap fun v => ' ' :: v.toList) ++ [' '], ?_⟩
      simp [spaced]
  exact ⟨List.replicate depth '\t' ++ y ++ x, c, by rw [lineOf, hy, hx]; simp, hc⟩

theorem exists_spaced_eq_cons (h : Readable ws) :
    ∃ c r, spaced ws = c :: r ∧ isBlank c = false := by
  obtain ⟨w, vs, rfl⟩ := List.exists_cons_of_ne_nil h.ne_nil
  have hw := h.isWord w List.mem_cons_self
  obtain ⟨c, r, hc⟩ := List.exists_cons_of_ne_nil hw.ne_nil
  refine ⟨c, r ++ vs.flatMap fun v => ' ' :: v.toList, by rw [spaced, hc]; rfl, ?_⟩
  exact hw.solid c (by rw [hc]; exact List.mem_cons_self)

theorem margin_lineOf (h : Readable ws) :
    margin (lineOf depth ws) = List.replicate depth '\t' := by
  obtain ⟨c, r, hs, hc⟩ := exists_spaced_eq_cons h
  rw [lineOf, margin, List.takeWhile_append_of_pos fun a => isBlank_of_mem_replicate_tab, hs,
    List.takeWhile_cons_of_neg (by simp [hc]), List.append_nil]

theorem trimStart_lineOf (h : Readable ws) : trimStart (lineOf depth ws) = spaced ws := by
  obtain ⟨c, r, hs, hc⟩ := exists_spaced_eq_cons h
  rw [lineOf, trimStart, List.dropWhile_append_of_pos fun a => isBlank_of_mem_replicate_tab, hs,
    List.dropWhile_cons_of_neg (by simp [hc])]

/-- Readable words do not start a comment, not even across their first space. -/
theorem isSkipped_spaced (h : Readable ws) : isSkipped (spaced ws) = false := by
  rw [← Bool.not_eq_true, isSkipped_iff, not_or]
  obtain ⟨c, r, hs, _⟩ := exists_spaced_eq_cons h
  refine ⟨by rw [hs]; exact List.cons_ne_nil c r, ?_⟩
  obtain ⟨w, vs, rfl⟩ := List.exists_cons_of_ne_nil h.ne_nil
  have hw := h.no_comment w rfl
  have hne := (h.isWord w List.mem_cons_self).ne_nil
  rw [spaced]
  rcases hl : w.toList with _ | ⟨a, _ | ⟨b, t⟩⟩
  · exact absurd hl hne
  · -- the second character of the line is a space, if there is one
    rintro ⟨t, ht⟩
    cases vs with
    | nil => simp at ht
    | cons v vs => simp at ht
  · rintro ⟨t', ht⟩
    rw [hl] at hw
    simp only [List.cons_append, List.nil_append, List.cons.injEq] at ht
    obtain ⟨rfl, rfl, _⟩ := ht
    exact hw ⟨t, rfl⟩

/-- **A written line is a row** as it stands. -/
theorem row?_lineOf (h : Readable ws) :
    row? (lineOf depth ws) number = some ⟨number, lineOf depth ws⟩ := by
  have htrim : Text.trimEnd (lineOf depth ws) = lineOf depth ws := by
    obtain ⟨x, c, hx, hc⟩ := exists_lineOf_eq_concat h
    rw [hx, Text.trimEnd_concat hc]
  rw [row?_eq, htrim, trimStart_lineOf h, isSkipped_spaced h]
  rfl

theorem not_newline_of_mem_lineOf (h : ∀ w ∈ ws, IsWord w) :
    ∀ c ∈ lineOf depth ws, c ≠ '\n' ∧ c ≠ '\r' := by
  have hsolid : ∀ {c}, isBlank c = false → c ≠ '\n' ∧ c ≠ '\r' := fun {c} hc =>
    ⟨fun e => absurd hc (by rw [e]; decide), fun e => absurd hc (by rw [e]; decide)⟩
  intro c hc
  rw [lineOf, List.mem_append] at hc
  rcases hc with hc | hc
  · rw [List.eq_of_mem_replicate hc]; decide
  · cases ws with
    | nil => cases hc
    | cons w ws =>
      rcases List.mem_append.1 hc with hc | hc
      · exact hsolid ((h w List.mem_cons_self).solid c hc)
      · obtain ⟨v, hv, hc⟩ := List.mem_flatMap.1 hc
        rcases List.mem_cons.1 hc with rfl | hc
        · decide
        · exact hsolid ((h v (List.mem_cons_of_mem w hv)).solid c hc)

end SchemaLang.Outline
