import SchemaLang.Data.Json

/-!
# YAML text

A document as YAML in block style: a field or an item on each line, and two spaces
for each level; what stands under a key is one level deeper, items of a sequence
included.  Empty sequences and mappings are written `[]` and as a pair of braces.

A text is written plain where a reader takes it for that text again.  It is quoted
when it is empty, when it starts or ends with a space, when a character in it or at
its front means something to YAML, and when it reads as a truth value, as nothing,
or as a number.
-/

namespace SchemaLang.Data

/-! ### Numbers

What reads as a number is decided by two grammars: codes, and decimal fractions
with an optional exponent, infinities and not-a-number included. -/

def dropSign : List Char → List Char
  | '-' :: r => r
  | '+' :: r => r
  | s => s

/-- Whether what follows the digits of a fraction is an exponent or nothing. -/
def isExponent : List Char → Bool
  | [] => true
  | e :: r =>
    (e == 'e' || e == 'E') &&
      (let digits := dropSign r
       !digits.isEmpty && digits.all Char.isDigit)

/-- Whether an unsigned text is a decimal fraction: digits, or digits with a point
among, before or after them, and perhaps an exponent. -/
def isFraction (s : List Char) : Bool :=
  let whole := s.takeWhile Char.isDigit
  match s.dropWhile Char.isDigit with
  | '.' :: r =>
    (!whole.isEmpty || !(r.takeWhile Char.isDigit).isEmpty) && isExponent (r.dropWhile Char.isDigit)
  | r => !whole.isEmpty && isExponent r

def isFloat (s : String) : Bool :=
  let t := dropSign s.toList
  isFraction t ||
    [['i', 'n', 'f'], ['i', 'n', 'f', 'i', 'n', 'i', 't', 'y'], ['n', 'a', 'n']].contains
      (t.map Char.toLower)

/-! ### Texts -/

/-- Texts that read as truth values or as nothing. -/
def reservedWords : List String :=
  ["yes", "Yes", "YES", "no", "No", "NO", "True", "TRUE", "true", "False", "FALSE", "false",
    "on", "On", "ON", "off", "Off", "OFF", "null", "Null", "NULL", "~"]

/-- Whether a character at the front of a text asks for quotes. -/
def isLeadingIndicator (c : Char) : Bool :=
  ['&', '*', '?', '|', '-', '<', '>', '=', '!', '%', '@', '.'].contains c

/-- Whether a character anywhere in a text asks for quotes: a character with a
meaning, or one below U+0020 with five exceptions. -/
def isIndicator (c : Char) : Bool :=
  [':', '\x7b', '\x7d', '[', ']', ',', '#', '\x60', '"', '\x27', '\\'].contains c ||
    (c.toNat < 0x20 && !(['\x07', '\x08', '\x0b', '\x0c', '\x1b'].contains c))

def needsQuotes (s : String) : Bool :=
  (match s.toList with
    | [] => true
    | '0' :: 'x' :: _ => true
    | c :: _ => c == ' ' || isLeadingIndicator c) ||
    s.toList.getLast? == some ' ' ||
    s.toList.any isIndicator ||
    reservedWords.contains s ||
    (Code.ofText? s).isSome ||
    isFloat s

def escapeYaml (c : Char) : List Char :=
  if c = '\x7f' then codePointEscape c else escapeJson c

def textYaml (s : String) : List Char :=
  if needsQuotes s then '"' :: s.toList.flatMap escapeYaml ++ ['"'] else s.toList

def Key.yaml : Key → List Char
  | text s => textYaml s
  | code c => c.text.toList

def scalarYaml : Data → List Char
  | null => ['~']
  | text s => textYaml s
  | d => d.scalarJson

/-! ### Layout -/

mutual

/-- The characters of a document whose later lines are at `level`. -/
def yamlChars (level : Nat) : Data → List Char
  | sequence (d :: r) => yamlItems level (d :: r)
  | mapping (f :: r) => yamlFields level (f :: r)
  | d => d.scalarYaml

def yamlItems (level : Nat) : List Data → List Char
  | [] => []
  | [d] => '-' :: ' ' :: d.yamlChars (level + 1)
  | d :: e :: r =>
    '-' :: ' ' :: d.yamlChars (level + 1) ++ breakLine level ++ yamlItems level (e :: r)

def yamlFields (level : Nat) : List (Key × Data) → List Char
  | [] => []
  | [(k, d)] => k.yaml ++ ':' :: d.yamlUnder level
  | (k, d) :: f :: r =>
    k.yaml ++ ':' :: d.yamlUnder level ++ breakLine level ++ yamlFields level (f :: r)

/-- A document after the colon of its key: on the same line if it has no parts, one
level deeper if it has. -/
def yamlUnder (level : Nat) : Data → List Char
  | sequence (d :: r) => breakLine (level + 1) ++ yamlItems (level + 1) (d :: r)
  | mapping (f :: r) => breakLine (level + 1) ++ yamlFields (level + 1) (f :: r)
  | d => ' ' :: d.scalarYaml

end

/-- **A document as YAML.** -/
def yaml (d : Data) : String :=
  String.ofList ('-' :: '-' :: '-' :: '\n' :: d.yamlChars 0 ++ ['\n'])

end SchemaLang.Data
