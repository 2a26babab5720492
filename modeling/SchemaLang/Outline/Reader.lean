import SchemaLang.Outline.Error
import SchemaLang.Outline.Node
import SchemaLang.Text.Lines

/-!
# Reading an outline

A text is read line by line.  Lines that are blank and lines that start with `//`
after their margin are passed over; the others are the *rows* of the outline.
The width of a row is the number of blanks in its margin.

Reading has two independent halves.

* `checkMargins` goes down the rows and keeps the widths of the open levels,
  innermost first.  A row closes the levels that are not narrower than itself,
  and the outermost level it closes must have its own width; else the dedent
  lands between two levels.
* `forest` builds the nodes from the bottom up.  A row takes the trees right below
  it that are wider than itself as its children (`adopt`) and leaves the others
  as its younger siblings.

The two halves meet in `read`: rows with good margins, and only those, are made a
forest.
-/

namespace SchemaLang.Outline

/-- A line that belongs to the outline, without its trailing blanks. -/
structure Row where
  number : Nat
  line : List Char

namespace Row

def margin (row : Row) : List Char := Text.margin row.line

def width (row : Row) : Nat := row.margin.length

def mixed (row : Row) : Bool := row.margin.contains '\t' && row.margin.contains ' '

def node (row : Row) (children : List Node) : Node :=
  { Node.ofLine (String.ofList row.line) row.number with children := children }

end Row

/-- Whether a line without its margin is passed over: nothing is left of it, or it
is a comment. -/
def isSkipped : List Char → Bool
  | [] => true
  | '/' :: '/' :: _ => true
  | _ => false

/-- The row of a numbered line, if the line is not passed over. -/
def row? (line : List Char) (number : Nat) : Option Row :=
  let line := Text.trimEnd line
  if isSkipped (Text.trimStart line) then none else some ⟨number, line⟩

def rowsFrom (number : Nat) : List (List Char) → List Row
  | [] => []
  | line :: rest =>
    match row? line number with
    | some row => row :: rowsFrom (number + 1) rest
    | none => rowsFrom (number + 1) rest

def rows (source : String) : List Row := rowsFrom 1 (Text.lines source.toList)

/-! ### Margins -/

/-- Whether a row of width `width` fits the open levels, innermost first: the
outermost level that it closes, if it closes any, has the same width. -/
def fits (width : Nat) (levels : List Nat) : Bool :=
  match (levels.takeWhile fun w => width ≤ w).getLast? with
  | some w => w == width
  | none => true

def reopen (width : Nat) (levels : List Nat) : List Nat :=
  width :: levels.dropWhile fun w => width ≤ w

/-- Reports the first row whose margin is mixed or does not fit. -/
def checkMargins (levels : List Nat) : List Row → Except Error Unit
  | [] => .ok ()
  | row :: rest =>
    if row.mixed then .error (.mixedMargin row.number)
    else if fits row.width levels then checkMargins (reopen row.width levels) rest
    else .error (.badDedent row.number)

/-! ### Forest -/

/-- A row on top of the trees below it, each tree with the width of its root. -/
def adopt (row : Row) (trees : List (Nat × Node)) : List (Nat × Node) :=
  let wider := fun tree : Nat × Node => decide (row.width < tree.1)
  (row.width, row.node ((trees.takeWhile wider).map Prod.snd)) :: trees.dropWhile wider

/-- The forest of a list of rows. -/
def forest (rows : List Row) : List Node := (rows.foldr adopt []).map Prod.snd

/-- **The outline of a text.** -/
def read (source : String) : Except Error (List Node) :=
  match checkMargins [] (rows source) with
  | .ok () => .ok (forest (rows source))
  | .error e => .error e

end SchemaLang.Outline
