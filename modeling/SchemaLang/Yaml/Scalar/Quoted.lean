import SchemaLang.Yaml.Scalar.Plain

/-!
# Quoted scalars

A scalar in quotation marks goes on over lines until its mark comes again.  Space in
it is folded as in plain scalars; unlike there, no indentation is asked for, and space
at its ends counts.

* Between single quotation marks, a doubled mark stands for one, and every other
  character for itself.
* Between double quotation marks, a backslash starts an escape: a letter for a control
  character, a code point in hexadecimal, or a line break that is to join two lines
  without a space.
-/

namespace SchemaLang.Yaml

def escapes : List (Char × Char) :=
  [('0', '\x00'), ('a', '\x07'), ('b', '\x08'), ('t', '\t'), ('\t', '\t'), ('n', '\n'),
    ('v', '\x0b'), ('f', '\x0c'), ('r', '\r'), ('e', '\x1b'), (' ', ' '), ('"', '"'),
    ('\x27', '\x27'), ('\\', '\\'), ('N', '\u0085'), ('_', '\u00a0'), ('L', '\u2028'),
    ('P', '\u2029')]

/-- How many digits follow a letter that starts an escape by code point. -/
def escapeWidth : Char → Nat
  | 'x' => 2
  | 'u' => 4
  | 'U' => 8
  | _ => 0

def hexDigit? (c : Char) : Option Nat :=
  if c.isDigit then some (c.toNat - '0'.toNat)
  else if 'a' ≤ c ∧ c ≤ 'f' then some (c.toNat - 'a'.toNat + 10)
  else if 'A' ≤ c ∧ c ≤ 'F' then some (c.toNat - 'A'.toNat + 10)
  else none

def hexNumber? (digits : List Char) : Option Nat :=
  (digits.mapM hexDigit?).map fun ds => ds.foldl (fun n d => 16 * n + d) 0

def charOfCode? (n : Nat) : Option Char :=
  if n.isValidChar then some (Char.ofNat n) else none

/-- What the escape stands for of which `s` is all after the backslash, and how many
characters it takes there. -/
def escape? (s : List Char) : Option (List Char × Nat) :=
  match s with
  | [] => none
  | c :: r =>
    if isBreak c then
      let space := s.takeWhile isSpace
      some (List.replicate (space.countP isBreak - 1) '\n', space.length)
    else if escapeWidth c = 0 then (escapes.lookup c).map fun d => ([d], 1)
    else if r.length < escapeWidth c then none
    else
      ((hexNumber? (r.take (escapeWidth c))).bind charOfCode?).map fun d =>
        ([d], escapeWidth c + 1)

inductive QuotedPiece where
  /-- A piece that stands for a text and takes `more` characters after its first. -/
  | text (value : List Char) (more : Nat)
  | close

def quotedPiece? (double : Bool) (c : Char) (r : List Char) : Option QuotedPiece :=
  if isSpace c then
    let space := r.takeWhile isSpace
    some (.text (foldSpace (c :: space)) space.length)
  else if double then
    if c = '"' then some .close
    else if c = '\\' then (escape? r).map fun (value, n) => .text value n
    else some (.text [c] 0)
  else if c = '\x27' then
    if r.head? = some '\x27' then some (.text [c] 1) else some .close
  else some (.text [c] 0)

/-- Reads a quoted scalar from after its opening mark: its text, and the place after
its closing mark. -/
def quoted? (double : Bool) (c : Cursor) : Option (List Char × Cursor) :=
  if c.atBoundary then none
  else
    match _ : c.rest with
    | [] => none
    | d :: r =>
      match quotedPiece? double d r with
      | none => none
      | some .close => some ([], c.advance 1)
      | some (.text value more) =>
        (quoted? double (c.advance (more + 1))).map fun (text, stop) => (value ++ text, stop)
termination_by c.rest.length
decreasing_by exact Cursor.length_rest_advance_lt (by simp [‹c.rest = _›]) (Nat.succ_ne_zero _)

end SchemaLang.Yaml
