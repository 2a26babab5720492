/-!
# Places in a text

A text of YAML is read from left to right.  A `Cursor` is what is left of it, with the
place: how many characters, lines and columns were passed.

A text ends at its first null character.  A line feed ends a line, and a carriage
return right before it belongs to the line end.  A carriage return anywhere else
parts words as a line end does, yet line and column go on as over any character.

`rest_advance` says that to advance is to drop characters, whatever becomes of the
place; that readers of a text come to an end rests on it.
-/

namespace SchemaLang.Yaml

/-! ### Characters -/

def isBlank (c : Char) : Bool := c == ' ' || c == '\t'

def isBreak (c : Char) : Bool := c == '\n' || c == '\r'

def isSpace (c : Char) : Bool := isBlank c || isBreak c

/-- A character of the name of an anchor, of a directive or of a tag's handle. -/
def isNameChar (c : Char) : Bool := c.isAlphanum || c == '_' || c == '-'

def isFlowMark (c : Char) : Bool := [',', '[', ']', '\x7b', '\x7d'].contains c

def startsApart (s : List Char) : Bool := s.head?.all isSpace

def startsFlowMark (s : List Char) : Bool := s.head?.any isFlowMark

/-- A text with a line feed alone for each line end. -/
def joinBreaks : List Char → List Char
  | [] => []
  | '\r' :: '\n' :: r => '\n' :: joinBreaks r
  | c :: r => c :: joinBreaks r

/-! ### Cursors -/

/-- What is left of a text, and where it starts. -/
structure Cursor where
  rest : List Char
  /-- The number of characters before. -/
  index : Nat := 0
  /-- The number of line ends before. -/
  line : Nat := 0
  /-- The number of characters since the last line end. -/
  column : Nat := 0

namespace Cursor

def ofText (text : String) : Cursor :=
  { rest := joinBreaks (text.toList.takeWhile (· != '\x00')) }

def next (c : Cursor) : Cursor :=
  match c.rest with
  | [] => c
  | '\n' :: r => ⟨r, c.index + 1, c.line + 1, 0⟩
  | _ :: r => ⟨r, c.index + 1, c.line, c.column + 1⟩

def advance : Nat → Cursor → Cursor
  | 0, c => c
  | n + 1, c => advance n c.next

theorem rest_next (c : Cursor) : c.next.rest = c.rest.drop 1 := by
  unfold next
  split <;> simp [*]

/-- **To advance is to drop characters.** -/
theorem rest_advance (n : Nat) (c : Cursor) : (c.advance n).rest = c.rest.drop n := by
  induction n generalizing c with
  | zero => rfl
  | succ n ih => rw [advance, ih, rest_next, List.drop_drop, Nat.add_comm]

theorem length_rest_advance_le (n : Nat) (c : Cursor) :
    (c.advance n).rest.length ≤ c.rest.length := by
  rw [rest_advance, List.length_drop]
  exact Nat.sub_le _ _

theorem length_rest_advance_lt {c : Cursor} {n : Nat} (hc : c.rest ≠ []) (hn : n ≠ 0) :
    (c.advance n).rest.length < c.rest.length := by
  have := List.length_pos_iff.2 hc
  rw [rest_advance, List.length_drop]
  omega

/-- Whether a line starts here that bounds documents: three dashes or three dots,
with nothing right after them. -/
def atBoundary (c : Cursor) : Bool :=
  c.column == 0 &&
    match c.rest with
    | '-' :: '-' :: '-' :: r => startsApart r
    | '.' :: '.' :: '.' :: r => startsApart r
    | _ => false

end Cursor
end SchemaLang.Yaml
