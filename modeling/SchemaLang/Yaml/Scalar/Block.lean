import SchemaLang.Yaml.Cursor

/-!
# Block scalars

A block scalar is a run of indented lines below a header.  The header says whether the
lines are kept as they are (literal) or joined (folded), what becomes of the line
breaks at the end (`Chomping`), and perhaps how far the lines are indented; if it does
not, the lines before the first with content decide.

Folding joins two lines with a space when neither starts with a blank.  Where empty
lines stand between them, these stay in place of the space.
-/

namespace SchemaLang.Yaml

inductive Chomping where
  /-- All go. -/
  | strip
  /-- The first stays. -/
  | clip
  /-- All stay. -/
  | keep

def Chomping.ofSign? : Char → Option Chomping
  | '-' => some .strip
  | '+' => some .keep
  | _ => none

/-- What is left of the end of a scalar: the break after its last line, if there is
one, and empty lines. -/
def Chomping.tail (chomping : Chomping) (broken : Bool) (breaks : Nat) : List Char :=
  let first := if broken then ['\n'] else []
  match chomping with
  | strip => []
  | clip => first
  | keep => first ++ List.replicate breaks '\n'

/-! ### The header -/

structure BlockHeader where
  chomping : Chomping
  /-- How far the lines are indented below the collection around the scalar. -/
  indent : Option Nat

def readSign (s : List Char) : Option Chomping × List Char :=
  match s with
  | [] => (none, [])
  | c :: r =>
    match Chomping.ofSign? c with
    | some k => (some k, r)
    | none => (none, s)

/-- Reads a digit, if there is one; it must not be zero. -/
def readIndent? (s : List Char) : Option (Option Nat × List Char) :=
  match s with
  | [] => some (none, [])
  | c :: r =>
    if c = '0' then none
    else if c.isDigit then some (some (c.toNat - '0'.toNat), r)
    else some (none, s)

/-- Reads a header, of which `s` is all after its mark and before the end of its line: a sign
and a digit in any order, blanks and a comment. -/
def blockHeader? (s : List Char) : Option BlockHeader := do
  let (first, s) := readSign s
  let (indent, s) ← readIndent? s
  let (second, s) := if first.isSome then (none, s) else readSign s
  let s := s.dropWhile isBlank
  if s.head?.all (· == '#') then return ⟨(first.or second).getD .clip, indent⟩ else none

/-! ### The lines -/

/-- What stands before a line with content. -/
structure BlockLead where
  breaks : Nat := 0
  /-- The column farthest right that was reached. -/
  widest : Nat := 0
  length : Nat := 0

/-- Passes over empty lines and over the indentation of the next line, which ends at
the column `indent` if that is known.  A tab is no indentation. -/
def leadFrom (indent : Option Nat) (lead : BlockLead) (column : Nat) :
    List Char → Option BlockLead
  | [] => some { lead with widest := max lead.widest column }
  | c :: r =>
    let inside := indent.all fun i => decide (column < i)
    if c == ' ' && inside then
      leadFrom indent { lead with length := lead.length + 1 } (column + 1) r
    else if c == '\t' && inside then none
    else if isBreak c then
      leadFrom indent ⟨lead.breaks + 1, max lead.widest column, lead.length + 1⟩
        (if c == '\n' then 0 else column + 1) r
    else some { lead with widest := max lead.widest column }

def lead? (indent : Option Nat) (c : Cursor) : Option BlockLead :=
  leadFrom indent {} c.column c.rest

/-- What stands for the break between two lines, where `breaks` empty lines follow it
and `indented` says whether one of the two starts with a blank. -/
def joinLines (literal indented : Bool) (breaks : Nat) : List Char :=
  if literal || indented then ['\n'] else if breaks = 0 then [' '] else []

/-- Reads lines that are indented to a column.  Before them stand a line, if `broken`,
which started with a blank, if `indented`, and a number of empty lines. -/
def blockLines (literal : Bool) (chomping : Chomping) (indent : Nat) (broken indented : Bool)
    (breaks : Nat) (c : Cursor) : Option (List Char × Cursor) :=
  match _ : c.rest with
  | [] => some (chomping.tail broken breaks, c)
  | x :: _ =>
    if c.column ≠ indent then some (chomping.tail broken breaks, c)
    else
      let line := c.rest.takeWhile fun d => !isBreak d
      let join := if broken then joinLines literal (indented || isBlank x) breaks else []
      let text := join ++ List.replicate breaks '\n' ++ line
      let afterLine := c.advance (line.length + 1)
      if (c.rest.drop line.length).isEmpty then some (text, afterLine)
      else
        match lead? (some indent) afterLine with
        | none => none
        | some lead =>
          (blockLines literal chomping indent true (isBlank x) lead.breaks
            (afterLine.advance lead.length)).map fun (more, stop) => (text ++ more, stop)
termination_by c.rest.length
decreasing_by
  exact Nat.lt_of_le_of_lt (Cursor.length_rest_advance_le _ _)
    (Cursor.length_rest_advance_lt (by simp [‹c.rest = _›]) (Nat.succ_ne_zero _))

/-- Reads a block scalar from after its mark: its text, and the place after it.  The
collection around it is indented to the column left of `limit`. -/
def block? (literal : Bool) (limit : Nat) (c : Cursor) : Option (List Char × Cursor) := do
  let line := c.rest.takeWhile fun d => !isBreak d
  let header ← blockHeader? line
  let c := c.advance (line.length + 1)
  let asked := header.indent.map fun n => limit - 1 + n
  let lead ← lead? asked c
  let indent := asked.getD (max lead.widest (max limit 1))
  blockLines literal header.chomping indent false false lead.breaks (c.advance lead.length)

end SchemaLang.Yaml
