import SchemaLang.Yaml.Scalar.Quoted

/-!
# Names, tags and directives

What is written before a value, or before a document, and is no value itself.  All of it
stays on one line, so that its readers are given a line and not the text.

* A *name* follows the mark of an anchor or of an alias.
* A *tag* says of what kind a value is.  It is a handle, which lies between exclamation
  marks, and a suffix; either may be left out.
* A *directive* takes a line of its own.  It has to be well formed, and nothing is made of it.

Suffixes are written in the characters of a URI, where a percent sign starts an octet in
hexadecimal.  A leading octet of two is put before the other to make one code point;
octets of longer sequences are refused.
-/

namespace SchemaLang.Yaml

/-- Reads the name of an anchor or an alias: the name and what is left. -/
def name? (s : List Char) : Option (String × List Char) :=
  let name := s.takeWhile isNameChar
  let rest := s.dropWhile isNameChar
  let ends := rest.head?.all fun c =>
    isSpace c || ['?', ':', ',', ']', '\x7d', '%', '@', '\x60'].contains c
  if name.isEmpty || !ends then none else some (String.ofList name, rest)

/-! ### Suffixes -/

def isSuffixChar (c : Char) : Bool :=
  isNameChar c ||
    [';', '/', '?', ':', '@', '&', '=', '+', '$', ',', '.', '!', '~', '*', '\x27', '(', ')',
      '[', ']'].contains c

def suffix? : List Char → Option (List Char × List Char)
  | '%' :: a :: b :: r =>
    match hexNumber? [a, b] with
    | none => none
    | some n =>
      if n < 0x80 then (suffix? r).map fun (text, rest) => (Char.ofNat n :: text, rest)
      else
        match r with
        | '%' :: c :: d :: r =>
          match hexNumber? [c, d] with
          | none => none
          | some m =>
            if 0xC0 ≤ n ∧ n < 0xE0 ∧ 0x80 ≤ m ∧ m < 0xC0 then
              (charOfCode? (0x100 * n + m)).bind fun c =>
                (suffix? r).map fun (text, rest) => (c :: text, rest)
            else none
        | _ => none
  | c :: r =>
    if isSuffixChar c then (suffix? r).map fun (text, rest) => (c :: text, rest)
    else if c = '%' then none
    else some ([], c :: r)
  | [] => some ([], [])

def someSuffix? (s : List Char) : Option (List Char × List Char) :=
  (suffix? s).filter fun (text, _) => !text.isEmpty

/-! ### Tags -/

/-- What kind a value is said to be of. -/
structure Tag where
  handle : String
  suffix : String
deriving DecidableEq

def Tag.boolean : Tag := ⟨"!!", "bool"⟩

def Tag.plain : Tag := ⟨"", "!"⟩

/-- Reads what stands after the exclamation mark of a tag. -/
def tagAfterMark? : List Char → Option (Tag × List Char)
  | '<' :: r =>
    match someSuffix? r with
    | some (text, '>' :: rest) => some (⟨"", String.ofList text⟩, rest)
    | _ => none
  | s =>
    let name := s.takeWhile isNameChar
    match s.dropWhile isNameChar with
    | '!' :: r =>
      (someSuffix? r).map fun (text, rest) =>
        (⟨String.ofList ('!' :: name ++ ['!']), String.ofList text⟩, rest)
    | r =>
      (suffix? r).map fun (text, rest) =>
        match name ++ text with
        | [] => (.plain, rest)
        | c :: text => (⟨"!", String.ofList (c :: text)⟩, rest)

/-- Reads a tag from after its exclamation mark: the tag and what is left, which the tag
does not touch. -/
def tag? (s : List Char) : Option (Tag × List Char) :=
  (tagAfterMark? s).filter fun (_, rest) => startsApart rest

/-! ### Directives -/

/-- Passes over a number of at most nine digits. -/
def afterNumber? (s : List Char) : Option (List Char) :=
  let digits := s.takeWhile Char.isDigit
  if digits.isEmpty || 9 < digits.length then none else some (s.drop digits.length)

def afterVersion? (s : List Char) : Option (List Char) := do
  match ← afterNumber? (s.dropWhile isBlank) with
  | '.' :: r => afterNumber? r
  | _ => none

def afterHandle? : List Char → Option (List Char)
  | '!' :: r =>
    match r.takeWhile isNameChar, r.dropWhile isNameChar with
    | _, '!' :: rest => some rest
    | [], rest => some rest
    | _, _ => none
  | _ => none

def afterHandleDeclaration? (s : List Char) : Option (List Char) := do
  let s ← afterHandle? (s.dropWhile isBlank)
  let (_, rest) ← someSuffix? (s.dropWhile isBlank)
  if startsApart rest then return rest else none

/-- Whether a line is a directive after its percent sign.  Nothing but blanks and a comment may
come after the values of a known one. -/
def isDirective (line : List Char) : Bool :=
  let name := line.takeWhile isNameChar
  let values := line.dropWhile isNameChar
  let rest :=
    match String.ofList name with
    | "YAML" => afterVersion? values
    | "TAG" => afterHandleDeclaration? values
    | _ => some []
  !name.isEmpty && startsApart values &&
    rest.any fun s => (s.dropWhile isBlank).head?.all (· == '#')

end SchemaLang.Yaml
