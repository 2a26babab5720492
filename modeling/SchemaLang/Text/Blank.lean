/-!
# Blank characters and words

Schema text is divided by blank characters: they indent a line, they may trail
it, and they stand between its words.  A character is blank when it has the
Unicode property White_Space, 25 characters in all.  The rule is wider than a
space and a tab, so U+00A0 and U+2028 divide words, and it is narrower than
"looks empty", so U+200B and U+FEFF belong to a word.

A line is cut in three pieces that fit together again: `margin` is its leading
blanks, `trimStart` what follows them, and `trimEnd` the line without its
trailing blanks.  `words` are the maximal runs without a blank.

* `margin_append_trimStart`: nothing is lost by cutting the margin off.
* `trimEnd_append_of_blank`: trailing blanks do not reach `trimEnd`.
* `ne_nil_of_mem_words`, `not_blank_of_mem_words`: a word is not empty and
  holds no blank.
* `words_append_blank`, `words_run`: words divide at a blank, and a run without
  one is a word.
-/

namespace SchemaLang.Text

/-- A blank character: one with the Unicode property White_Space. -/
def isBlank (c : Char) : Bool :=
  let n := c.toNat
  (9 ≤ n && n ≤ 13) || n == 0x20 || n == 0x85 || n == 0xA0 || n == 0x1680 ||
    (0x2000 ≤ n && n ≤ 0x200A) || n == 0x2028 || n == 0x2029 || n == 0x202F ||
    n == 0x205F || n == 0x3000

def margin (line : List Char) : List Char := line.takeWhile isBlank

def trimStart (line : List Char) : List Char := line.dropWhile isBlank

def trimEnd : List Char → List Char
  | [] => []
  | c :: r =>
    match trimEnd r with
    | [] => if isBlank c then [] else [c]
    | d :: t => c :: d :: t

/-- The maximal runs of characters that are not blank, from left to right. -/
def words (line : List Char) : List (List Char) :=
  (line.splitOnP isBlank).filter fun w => !w.isEmpty

theorem margin_append_trimStart (line : List Char) : margin line ++ trimStart line = line :=
  List.takeWhile_append_dropWhile

theorem trimEnd_eq_nil_of_blank : ∀ {b : List Char}, (∀ c ∈ b, isBlank c = true) → trimEnd b = []
  | [], _ => rfl
  | c :: r, h => by
    have ih := trimEnd_eq_nil_of_blank fun d hd => h d (List.mem_cons_of_mem c hd)
    simp [trimEnd, ih, h c List.mem_cons_self]

theorem trimEnd_append_of_blank {b : List Char} (h : ∀ c ∈ b, isBlank c = true) :
    ∀ line : List Char, trimEnd (line ++ b) = trimEnd line
  | [] => trimEnd_eq_nil_of_blank h
  | c :: r => by rw [List.cons_append, trimEnd, trimEnd, trimEnd_append_of_blank h r]

/-! ### Pieces of a list -/

section Pieces

variable {α : Type} {p : α → Bool} {c : α}

theorem not_of_mem_splitOnP : ∀ {l w : List α}, w ∈ l.splitOnP p → c ∈ w → p c = false := by
  intro l
  induction l with
  | nil => intro w hw hc; simp at hw; subst hw; simp at hc
  | cons d r ih =>
    intro w hw hc
    rw [List.splitOnP_cons_eq_if_modifyHead] at hw
    split at hw
    · rcases List.mem_cons.1 hw with rfl | hw
      · simp at hc
      · exact ih hw hc
    · next hd =>
      obtain ⟨a, t, hat⟩ := List.exists_cons_of_ne_nil (List.splitOnP_ne_nil p r)
      rw [hat, List.modifyHead_cons] at hw
      rcases List.mem_cons.1 hw with rfl | hw
      · rcases List.mem_cons.1 hc with rfl | hc
        · simpa using hd
        · exact ih (hat ▸ List.mem_cons_self) hc
      · exact ih (hat ▸ List.mem_cons_of_mem a hw) hc

/-- The first piece is a beginning of the list, and each piece is a part of it. -/
theorem infix_of_mem_splitOnP : ∀ l : List α,
    (∀ a t, l.splitOnP p = a :: t → a <+: l) ∧ ∀ w ∈ l.splitOnP p, w <:+: l := by
  intro l
  induction l with
  | nil =>
    rw [List.splitOnP_nil]
    refine ⟨fun a t h => ?_, fun w hw => ?_⟩
    · cases h; exact List.prefix_rfl
    · obtain rfl := List.mem_singleton.1 hw
      exact List.infix_rfl
  | cons d r ih =>
    obtain ⟨ihfirst, ihall⟩ := ih
    rw [List.splitOnP_cons_eq_if_modifyHead]
    split
    · refine ⟨fun a t h => ?_, fun w hw => ?_⟩
      · cases h; exact List.nil_prefix
      · rcases List.mem_cons.1 hw with rfl | hw
        · exact List.nil_infix
        · exact List.infix_cons (ihall w hw)
    · obtain ⟨a, t, hat⟩ := List.exists_cons_of_ne_nil (List.splitOnP_ne_nil p r)
      have ha : d :: a <+: d :: r := (List.prefix_cons_inj d).2 (ihfirst a t hat)
      rw [hat, List.modifyHead_cons]
      refine ⟨fun b u h => ?_, fun w hw => ?_⟩
      · cases h; exact ha
      · rcases List.mem_cons.1 hw with rfl | hw
        · exact ha.isInfix
        · exact List.infix_cons (ihall w (hat ▸ List.mem_cons_of_mem a hw))

end Pieces

/-! ### Words -/

theorem ne_nil_of_mem_words {line w : List Char} (h : w ∈ words line) : w ≠ [] := by
  simp only [words, List.mem_filter, Bool.not_eq_true', List.isEmpty_eq_false_iff] at h
  exact h.2

theorem not_blank_of_mem_words {line w : List Char} {c : Char} (hw : w ∈ words line) (hc : c ∈ w) :
    isBlank c = false :=
  not_of_mem_splitOnP (List.mem_filter.1 hw).1 hc

theorem infix_of_mem_words {line w : List Char} (hw : w ∈ words line) : w <:+: line :=
  (infix_of_mem_splitOnP line).2 w (List.mem_filter.1 hw).1

@[simp] theorem words_nil : words [] = [] := rfl

/-- **Words divide at a blank.** -/
theorem words_append_blank {c : Char} (h : isBlank c = true) (x y : List Char) :
    words (x ++ c :: y) = words x ++ words y := by
  rw [words, List.splitOnP_append_cons x y h, List.filter_append, ← words, ← words]

/-- A run without a blank is its own only word. -/
theorem words_run {w : List Char} (hne : w ≠ []) (hw : ∀ c ∈ w, isBlank c = false) :
    words w = [w] := by
  rw [words, List.splitOnP_eq_singleton hw, List.filter_cons_of_pos]
  · rfl
  · simpa using hne

end SchemaLang.Text
