import SchemaLang.Proofs.Declaration.Acceptance
import SchemaLang.Proofs.Outline.Alike
import SchemaLang.Proofs.Outline.Line

/-!
# The layout of a text

A text is what stands between its line feeds (`Text.stretches`).  It is laid out anew (`Relaid`)
when lines that are passed over are put in, changed or left out, when blanks are added at the ends
of lines, or when all lines are indented further by tabs, or by spaces, where no margin holds a
character of the other kind.

None of this reaches the rows of the text but for the width of their margins, which grows by the
same number everywhere: `exists_rows_alike`.
-/

namespace SchemaLang.Text

variable {b l : List Char} {c : Char}

/-! ### Blanks at the ends of a line -/

theorem trimEnd_cons (c : Char) (r : List Char) :
    trimEnd (c :: r) = if trimEnd r = [] ∧ isBlank c = true then [] else c :: trimEnd r := by
  rw [trimEnd]
  cases trimEnd r with
  | nil => simp
  | cons d t => simp

theorem exists_eq_trimEnd_append : ∀ l : List Char,
    ∃ b, (∀ c ∈ b, isBlank c = true) ∧ l = trimEnd l ++ b := by
  intro l
  induction l with
  | nil => exact ⟨[], by simp, rfl⟩
  | cons c r ih =>
    obtain ⟨b, hb, hr⟩ := ih
    rw [trimEnd_cons]
    by_cases h : trimEnd r = [] ∧ isBlank c = true
    · rw [if_pos h]
      rw [h.1, List.nil_append] at hr
      refine ⟨c :: r, fun d hd => ?_, rfl⟩
      rcases List.mem_cons.1 hd with rfl | hd
      · exact h.2
      · exact hb d (hr ▸ hd)
    · rw [if_neg h]
      exact ⟨b, hb, by rw [List.cons_append, ← hr]⟩

theorem trimEnd_trimEnd (l : List Char) : trimEnd (trimEnd l) = trimEnd l := by
  obtain ⟨b, hb, hl⟩ := exists_eq_trimEnd_append l
  have h := trimEnd_append_of_blank hb (trimEnd l)
  rw [← hl] at h
  exact h.symm

theorem trimEnd_blank_append (hb : ∀ c ∈ b, isBlank c = true) (l : List Char) :
    trimEnd (b ++ l) = if trimEnd l = [] then [] else b ++ trimEnd l := by
  induction b with
  | nil => simp
  | cons c b ih =>
    have hc : isBlank c = true := hb c List.mem_cons_self
    rw [List.cons_append, trimEnd_cons, ih fun d hd => hb d (List.mem_cons_of_mem c hd)]
    by_cases hl : trimEnd l = []
    · simp [hl, hc]
    · simp [hl]

theorem trimStart_blank_append (hb : ∀ c ∈ b, isBlank c = true) (l : List Char) :
    trimStart (b ++ l) = trimStart l :=
  List.dropWhile_append_of_pos hb

theorem margin_blank_append (hb : ∀ c ∈ b, isBlank c = true) (l : List Char) :
    margin (b ++ l) = b ++ margin l :=
  List.takeWhile_append_of_pos hb

theorem trimStart_trimEnd_blank_append (hb : ∀ c ∈ b, isBlank c = true) (l : List Char) :
    trimStart (trimEnd (b ++ l)) = trimStart (trimEnd l) := by
  rw [trimEnd_blank_append hb]
  by_cases hl : trimEnd l = []
  · rw [if_pos hl, hl]
  · rw [if_neg hl, trimStart_blank_append hb]

theorem mem_margin_of_trimEnd (h : c ∈ margin (trimEnd l)) : c ∈ margin l := by
  obtain ⟨b, _, hl⟩ := exists_eq_trimEnd_append l
  rw [hl, margin, List.takeWhile_append]
  split
  · exact List.mem_append_left _ ((List.takeWhile_prefix isBlank).subset h)
  · exact h

/-! ### Stretches -/

def stretches (text : String) : List (List Char) := text.toList.splitOn '\n'

/-- **The lines of a text are its stretches**, but for blanks at their ends and for stretches at
the end of the text that hold nothing else. -/
theorem exists_map_trimEnd_splitOn (text : List Char) : ∃ tail : List (List Char),
    (text.splitOn '\n').map trimEnd = (lines text).map trimEnd ++ tail ∧ ∀ l ∈ tail, l = [] := by
  fun_induction lines text with
  | case1 => exact ⟨[[]], rfl, by simp⟩
  | case2 r ih =>
    obtain ⟨tail, htail, hnil⟩ := ih
    refine ⟨tail, ?_, hnil⟩
    rw [List.splitOn_cons_eq_if_modifyHead, List.splitOn_cons_eq_if_modifyHead]
    simp [htail, trimEnd, isBlank]
  | case3 r ih =>
    obtain ⟨tail, htail, hnil⟩ := ih
    refine ⟨tail, ?_, hnil⟩
    rw [List.splitOn_cons_eq_if_modifyHead]
    simp [htail]
  | case4 c r hcr hn hr ih =>
    obtain ⟨tail, htail, hnil⟩ := ih
    obtain ⟨x, xs, hx⟩ := List.exists_cons_of_ne_nil (List.splitOn_ne_nil '\n' r)
    -- nothing but blanks follows, so the stretch ends where the line does
    rw [hr, hx, List.map_nil, List.nil_append, List.map_cons] at htail
    have hblank : trimEnd x = [] := hnil _ (htail ▸ List.mem_cons_self)
    refine ⟨xs.map trimEnd, ?_, fun l hl => hnil l (htail ▸ List.mem_cons_of_mem _ hl)⟩
    rw [List.splitOn_cons_eq_if_modifyHead, if_neg (by simpa using hn), hx]
    simp [hblank, trimEnd]
  | case5 c r hcr hn l ls hr ih =>
    obtain ⟨tail, htail, hnil⟩ := ih
    obtain ⟨x, xs, hx⟩ := List.exists_cons_of_ne_nil (List.splitOn_ne_nil '\n' r)
    rw [hr, hx, List.map_cons, List.map_cons, List.cons_append, List.cons.injEq] at htail
    refine ⟨tail, ?_, hnil⟩
    rw [List.splitOn_cons_eq_if_modifyHead, if_neg (by simpa using hn), hx]
    simp [trimEnd_cons, htail]

end SchemaLang.Text

namespace SchemaLang.Outline

open List (Forall₂)
open Text (isBlank trimEnd trimStart stretches)

variable {k n : Nat} {c other : Char} {l l' : List Char} {ls ls' : List (List Char)}
  {source edited : String}

/-! ### Lines that are passed over -/

/-- A line that is blank, or whose first characters that are not blank are `//`. -/
def IsPassedOver (line : List Char) : Prop :=
  ∃ blanks rest, line = blanks ++ rest ∧ (∀ c ∈ blanks, isBlank c = true) ∧
    (rest = [] ∨ ['/', '/'] <+: rest)

/-- **The lines that are skipped are those that are passed over.** -/
theorem isSkipped_trim_iff : isSkipped (trimStart (trimEnd l)) = true ↔ IsPassedOver l := by
  rw [isSkipped_iff]
  constructor
  · intro h
    obtain ⟨b, hb, hl⟩ := Text.exists_eq_trimEnd_append l
    have hmargin : ∀ c ∈ Text.margin (trimEnd l), isBlank c = true := fun c =>
      List.mem_takeWhile_imp
    have hcut := Text.margin_append_trimStart (trimEnd l)
    rcases h with h | h
    · rw [h, List.append_nil] at hcut
      rw [← hcut] at hl
      refine ⟨l, [], (List.append_nil l).symm, fun c hc => ?_, Or.inl rfl⟩
      rw [hl] at hc
      exact (List.mem_append.1 hc).elim (hmargin c) (hb c)
    · rw [← hcut, List.append_assoc] at hl
      exact ⟨_, _, hl, hmargin, Or.inr (h.trans (List.prefix_append _ b))⟩
  · rintro ⟨blanks, rest, rfl, hb, hrest⟩
    rw [Text.trimStart_trimEnd_blank_append hb]
    rcases hrest with rfl | ⟨r, rfl⟩
    · exact Or.inl rfl
    · refine Or.inr ⟨trimEnd r, ?_⟩
      have hslash : isBlank '/' = false := by decide
      simp [Text.trimEnd_cons, trimStart, hslash]

instance : DecidablePred IsPassedOver := fun _ => decidable_of_iff _ isSkipped_trim_iff

theorem row?_of_isPassedOver (h : IsPassedOver l) : row? l n = none := by
  rw [row?_eq, if_pos (isSkipped_trim_iff.2 h)]

/-! ### Lines with the same row -/

/-- The two lines are passed over both, or have rows that are alike at a shift. -/
def LineAlike (k : Nat) (l l' : List Char) : Prop :=
  ∀ n n', Option.Rel (Row.Alike k) (row? l n) (row? l' n')

theorem rowsFrom_alike (h : Forall₂ (LineAlike k) ls ls') (n n' : Nat) :
    Forall₂ (Row.Alike k) (rowsFrom n ls) (rowsFrom n' ls') := by
  induction h generalizing n n' with
  | nil => exact .nil
  | @cons l l' _ _ hline _ ih =>
    rw [rowsFrom, rowsFrom]
    have hrow := hline n n'
    generalize row? l n = x at hrow
    generalize row? l' n' = y at hrow
    cases hrow with
    | none => exact ih (n + 1) (n' + 1)
    | some hrow => exact .cons hrow (ih (n + 1) (n' + 1))

theorem rowsFrom_eq_nil (h : ∀ l ∈ ls, IsPassedOver l) (n : Nat) : rowsFrom n ls = [] := by
  induction ls generalizing n with
  | nil => rfl
  | cons l ls ih =>
    rw [rowsFrom, row?_of_isPassedOver (h l List.mem_cons_self)]
    exact ih (fun m hm => h m (List.mem_cons_of_mem l hm)) (n + 1)

/-- A row is that of the trimmed line. -/
theorem lineAlike_of_trimEnd_eq (h : trimEnd l = trimEnd l') : LineAlike 0 l l' := by
  intro n n'
  rw [row?_eq, row?_eq, h]
  split
  · exact .none
  · exact .some ⟨rfl, rfl, rfl, rfl⟩

theorem lineAlike_refl (l : List Char) : LineAlike 0 l l := lineAlike_of_trimEnd_eq rfl

theorem assigns_blank_append {b : List Char} (hb : ∀ c ∈ b, isBlank c = true) (l : List Char) :
    assigns (b ++ l) = assigns l := by
  induction b with
  | nil => rfl
  | cons c b ih =>
    have hc : c ≠ ':' := fun e => by
      have := hb c List.mem_cons_self
      rw [e] at this
      revert this
      decide
    rw [List.cons_append, assigns_cons, ih fun d hd => hb d (List.mem_cons_of_mem c hd)]
    simp [hc]

theorem Row.mixed_eq_false (hc : (c, other) = ('\t', ' ') ∨ (c, other) = (' ', '\t'))
    (h : other ∉ Text.margin l) : (Row.mk n l).mixed = false := by
  rw [mixed, margin]
  rcases hc with hc | hc
  · cases hc; simp [h]
  · cases hc; simp [h]

/-- **A line that is indented further** by tabs, or by spaces, has its row further in, when its
margin holds no character of the other kind. -/
theorem lineAlike_indent (hc : (c, other) = ('\t', ' ') ∨ (c, other) = (' ', '\t'))
    (hother : ¬IsPassedOver l → other ∉ Text.margin l) :
    LineAlike k l (List.replicate k c ++ l) := by
  have hblank : isBlank c = true ∧ other ≠ c := by
    rcases hc with hc | hc
    · cases hc; decide
    · cases hc; decide
  have hb : ∀ d ∈ List.replicate k c, isBlank d = true := fun d hd => by
    rw [List.eq_of_mem_replicate hd]
    exact hblank.1
  intro n n'
  rw [row?_eq, row?_eq, Text.trimStart_trimEnd_blank_append hb]
  by_cases hs : isSkipped (trimStart (trimEnd l)) = true
  · rw [if_pos hs, if_pos hs]
    exact .none
  · rw [if_neg hs, if_neg hs]
    have hne : trimEnd l ≠ [] := fun e => hs (by rw [e]; rfl)
    have hfree : other ∉ Text.margin (trimEnd l) := fun hm =>
      hother (mt isSkipped_trim_iff.2 hs) (Text.mem_margin_of_trimEnd hm)
    have hfree' : other ∉ Text.margin (List.replicate k c ++ trimEnd l) := by
      rw [Text.margin_blank_append hb, List.mem_append, not_or]
      exact ⟨fun hm => hblank.2 (List.eq_of_mem_replicate hm), hfree⟩
    rw [Text.trimEnd_blank_append hb, if_neg hne]
    refine .some ⟨(Text.words_append_of_blank hb).symm, (assigns_blank_append hb _).symm, ?_, ?_⟩
    · rw [Row.width, Row.width, Row.margin, Row.margin, Text.margin_blank_append hb,
        List.length_append, List.length_replicate, Nat.add_comm]
    · rw [Row.mixed_eq_false hc hfree, Row.mixed_eq_false hc hfree']

/-! ### Texts -/

theorem rowsFrom_map_trimEnd (ls : List (List Char)) (n : Nat) :
    rowsFrom n (ls.map trimEnd) = rowsFrom n ls := by
  induction ls generalizing n with
  | nil => rfl
  | cons l ls ih =>
    rw [List.map_cons, rowsFrom, rowsFrom, ih, row?_eq, row?_eq, Text.trimEnd_trimEnd]

theorem rows_eq (source : String) : rows source = rowsFrom 1 (stretches source) := by
  obtain ⟨tail, htail, hnil⟩ := Text.exists_map_trimEnd_splitOn source.toList
  have hblank : ∀ l ∈ tail, IsPassedOver l := fun l hl =>
    ⟨[], [], hnil l hl, by simp, Or.inl rfl⟩
  rw [rows, stretches, ← rowsFrom_map_trimEnd (source.toList.splitOn _), htail, rowsFrom_append,
    rowsFrom_eq_nil hblank, List.append_nil, rowsFrom_map_trimEnd]

/-- The second text is the first one **laid out anew**. -/
inductive Relaid (source edited : String) : Prop
  /-- At one place, lines that are passed over stand for lines that are passed over.  There may be
  none of the old ones, or none of the new ones. -/
  | passedOver (above old new below : List (List Char))
      (hsource : stretches source = above ++ old ++ below)
      (hedited : stretches edited = above ++ new ++ below)
      (hold : ∀ l ∈ old, IsPassedOver l) (hnew : ∀ l ∈ new, IsPassedOver l)
  /-- Blanks are added at the ends of lines. -/
  | trailing (h : Forall₂ (fun l l' => ∃ b, l' = l ++ b ∧ ∀ c ∈ b, isBlank c = true)
      (stretches source) (stretches edited))
  /-- All lines are indented by `k` tabs, or by `k` spaces; what is empty may stay so. -/
  | indented (k : Nat) (c other : Char) (hc : (c, other) = ('\t', ' ') ∨ (c, other) = (' ', '\t'))
      (hother : ∀ l ∈ stretches source, ¬IsPassedOver l → other ∉ Text.margin l)
      (h : Forall₂ (fun l l' => l' = List.replicate k c ++ l ∨ l = [] ∧ l' = [])
        (stretches source) (stretches edited))

/-- **A text that is laid out anew** has the same rows, all of them equally far further in. -/
theorem exists_rows_alike (h : Relaid source edited) :
    ∃ k, Forall₂ (Row.Alike k) (rows source) (rows edited) := by
  rw [rows_eq, rows_eq]
  cases h with
  | passedOver above old new below hsource hedited hold hnew =>
    refine ⟨0, ?_⟩
    have hrefl : ∀ ls : List (List Char), Forall₂ (LineAlike 0) ls ls := fun ls =>
      List.forall₂_same.2 fun l _ => lineAlike_refl l
    rw [hsource, hedited, rowsFrom_append, rowsFrom_append, rowsFrom_append, rowsFrom_append,
      rowsFrom_eq_nil hold, rowsFrom_eq_nil hnew, List.append_nil]
    exact List.rel_append (rowsFrom_alike (hrefl above) 1 1) (rowsFrom_alike (hrefl below) _ _)
  | trailing h =>
    refine ⟨0, rowsFrom_alike (h.imp fun l l' hl => ?_) 1 1⟩
    obtain ⟨b, rfl, hb⟩ := hl
    exact lineAlike_of_trimEnd_eq (Text.trimEnd_append_of_blank hb l).symm
  | indented k c other hc hother h =>
    refine ⟨k, rowsFrom_alike ?_ 1 1⟩
    refine ((List.forall₂_and_left _ _).2 ⟨hother, h⟩).imp fun l l' hl => ?_
    rcases hl with ⟨hfree, rfl | ⟨rfl, rfl⟩⟩
    · exact lineAlike_indent hc hfree
    · intro n n'
      rw [row?_eq, row?_eq]
      exact .none

end SchemaLang.Outline
