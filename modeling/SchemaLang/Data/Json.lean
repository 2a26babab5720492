import SchemaLang.Data.Basic

/-!
# JSON text

A document as JSON, in two layouts: `compact`, without a blank, and `pretty`, with
a line for each item and field and two spaces for each level.  Empty sequences and
mappings take no lines of their own.  A code that is a key is a text of its digits.

In a text, the quotation mark, the backslash and the characters below U+0020 are
escaped, five of them by a letter and the others by their code point; all other
characters stand for themselves.
-/

namespace SchemaLang.Data

/-! ### Texts -/

/-- A character below U+0100 as an escape by its code point. -/
def codePointEscape (c : Char) : List Char :=
  ['\\', 'u', '0', '0', Nat.digitChar (c.toNat / 16), Nat.digitChar (c.toNat % 16)]

def escapeJson (c : Char) : List Char :=
  if c = '"' then ['\\', '"']
  else if c = '\\' then ['\\', '\\']
  else if c = '\x08' then ['\\', 'b']
  else if c = '\x09' then ['\\', 't']
  else if c = '\x0a' then ['\\', 'n']
  else if c = '\x0c' then ['\\', 'f']
  else if c = '\x0d' then ['\\', 'r']
  else if c.toNat < 0x20 then codePointEscape c
  else [c]

def quoteJson (s : String) : List Char := '"' :: s.toList.flatMap escapeJson ++ ['"']

def scalarJson : Data → List Char
  | null => ['n', 'u', 'l', 'l']
  | boolean true => ['t', 'r', 'u', 'e']
  | boolean false => ['f', 'a', 'l', 's', 'e']
  | integer i => Text.decimal i
  | text s => quoteJson s
  | sequence _ => ['[', ']']
  | mapping _ => ['\x7b', '\x7d']

/-! ### Compact layout -/

mutual

def compactChars : Data → List Char
  | sequence items => '[' :: compactItems items ++ [']']
  | mapping fields => '\x7b' :: compactFields fields ++ ['\x7d']
  | d => d.scalarJson

def compactItems : List Data → List Char
  | [] => []
  | [d] => d.compactChars
  | d :: e :: r => d.compactChars ++ ',' :: compactItems (e :: r)

def compactFields : List (Key × Data) → List Char
  | [] => []
  | [(k, d)] => quoteJson k.label ++ ':' :: d.compactChars
  | (k, d) :: f :: r => quoteJson k.label ++ ':' :: d.compactChars ++ ',' :: compactFields (f :: r)

end

/-- **A document as JSON on one line.** -/
def compact (d : Data) : String := String.ofList d.compactChars

/-! ### Pretty layout -/

def breakLine (level : Nat) : List Char := '\n' :: List.replicate (2 * level) ' '

mutual

/-- The characters of a document in pretty layout, whose last line is at `level`. -/
def prettyChars (level : Nat) : Data → List Char
  | sequence (d :: r) =>
    '[' :: prettyItems (level + 1) (d :: r) ++ breakLine level ++ [']']
  | mapping (f :: r) =>
    '\x7b' :: prettyFields (level + 1) (f :: r) ++ breakLine level ++ ['\x7d']
  | d => d.scalarJson

def prettyItems (level : Nat) : List Data → List Char
  | [] => []
  | [d] => breakLine level ++ d.prettyChars level
  | d :: e :: r => breakLine level ++ d.prettyChars level ++ ',' :: prettyItems level (e :: r)

def prettyFields (level : Nat) : List (Key × Data) → List Char
  | [] => []
  | [(k, d)] => breakLine level ++ quoteJson k.label ++ ':' :: ' ' :: d.prettyChars level
  | (k, d) :: f :: r =>
    breakLine level ++ quoteJson k.label ++ ':' :: ' ' :: d.prettyChars level ++
      ',' :: prettyFields level (f :: r)

end

/-- **A document as JSON on many lines.** -/
def pretty (d : Data) : String := String.ofList (d.prettyChars 0)

end SchemaLang.Data
