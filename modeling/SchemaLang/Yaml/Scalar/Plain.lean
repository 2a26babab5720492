import SchemaLang.Yaml.Cursor

/-!
# Plain scalars

A plain scalar is written without quotation marks.  It consists of words with
space between them.  Space on one line stands for itself; space with a line break in
it is folded (`foldSpace`): one break is a space, and of more breaks each but the
first is a line feed.

A word ends before space, before a colon with space after it, and, in flow style, at
a mark of that style.  The scalar ends where no word follows, at a comment, at a
boundary of documents and, in block style, at a line that is not indented as far as
the collection around it asks for.
-/

namespace SchemaLang.Yaml

def foldSpace (s : List Char) : List Char :=
  match s.countP isBreak with
  | 0 => s
  | 1 => [' ']
  | n + 2 => List.replicate (n + 1) '\n'

/-- Whether a word ends before `c`, with `r` after it. -/
def endsWord (inFlow : Bool) (c : Char) (r : List Char) : Bool :=
  isSpace c || (c == ':' && (startsApart r || (inFlow && startsFlowMark r))) ||
    (inFlow && isFlowMark c)

def wordLength (inFlow : Bool) : List Char → Nat
  | [] => 0
  | c :: r => if endsWord inFlow c r then 0 else wordLength inFlow r + 1

/-- Whether space holds a tab where a line has to be indented: after a break, and
left of the limit.  The first of it stands at a given column, and `broken` says
whether a break came before. -/
def indentsByTab (limit : Nat) (broken : Bool) (column : Nat) : List Char → Bool
  | [] => false
  | c :: r =>
    (c == '\t' && broken && column < limit) ||
      indentsByTab limit (broken || isBreak c) (if c == '\n' then 0 else column + 1) r

structure PlainScalar where
  text : List Char
  /-- Whether a line ended between the last word and the place where reading stopped. -/
  broken : Bool
  stop : Cursor

/-- Reads a plain scalar, after space that counts if another word follows.  In block
style its lines start at the column `limit` or right of it. -/
def plainAfter (inFlow : Bool) (limit : Nat) (space : List Char) (c : Cursor) :
    Option PlainScalar :=
  if c.atBoundary || c.rest.head? == some '#' then some ⟨[], space.any isBreak, c⟩
  else
    let length := wordLength inFlow c.rest
    let text := if length = 0 then [] else foldSpace space ++ c.rest.take length
    let afterWord := c.advance length
    let nextSpace := afterWord.rest.takeWhile isSpace
    let afterSpace := afterWord.advance nextSpace.length
    if _ : nextSpace.length = 0 then
      some ⟨text, length == 0 && space.any isBreak, afterWord⟩
    else if indentsByTab limit false afterWord.column nextSpace then none
    else if !inFlow && decide (afterSpace.column < limit) then
      some ⟨text, nextSpace.any isBreak, afterSpace⟩
    else
      (plainAfter inFlow limit nextSpace afterSpace).map fun s => { s with text := text ++ s.text }
termination_by c.rest.length
decreasing_by
  have hs : nextSpace.length ≠ 0 := ‹_›
  have hw : afterWord.rest ≠ [] := fun he => hs (by simp [nextSpace, he])
  exact Nat.lt_of_lt_of_le (Cursor.length_rest_advance_lt hw hs)
    (Cursor.length_rest_advance_le _ _)

def plain? (inFlow : Bool) (limit : Nat) (c : Cursor) : Option PlainScalar :=
  plainAfter inFlow limit [] c

end SchemaLang.Yaml
