/-!
# Lines

A line ends at a line feed; a carriage return right before that line feed
belongs to the line end.  Nothing follows the last line end, so a text that
ends in a line feed has no empty last line.  A carriage return anywhere else is
a character of its line.

`lines_append_newline` says that lines are read off from the left: a first line
without a line feed and without a trailing carriage return stands alone.
-/

namespace SchemaLang.Text

def lines : List Char → List (List Char)
  | [] => []
  | '\r' :: '\n' :: r => [] :: lines r
  | '\n' :: r => [] :: lines r
  | c :: r =>
    match lines r with
    | [] => [[c]]
    | l :: ls => (c :: l) :: ls

@[simp] theorem lines_nil : lines [] = [] := rfl

theorem lines_newline (r : List Char) : lines ('\n' :: r) = [] :: lines r := by
  simp [lines]

theorem lines_cons {c : Char} (hn : c ≠ '\n') (hr : c ≠ '\r') (r : List Char) :
    lines (c :: r) =
      match lines r with
      | [] => [[c]]
      | l :: ls => (c :: l) :: ls := by
  rw [lines]
  · intro s hc; exact absurd hc hr
  · exact hn

/-- **Lines are read off from the left.** -/
theorem lines_append_newline : ∀ {l : List Char}, (∀ c ∈ l, c ≠ '\n' ∧ c ≠ '\r') →
    ∀ r : List Char, lines (l ++ '\n' :: r) = l :: lines r
  | [], _, r => lines_newline r
  | c :: l, h, r => by
    have hc := h c List.mem_cons_self
    rw [List.cons_append, lines_cons hc.1 hc.2,
      lines_append_newline fun d hd => h d (List.mem_cons_of_mem c hd)]

end SchemaLang.Text
