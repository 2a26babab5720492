import SchemaLang.Yaml.Scalar.Block
import SchemaLang.Yaml.Token

/-!
# Layout

`tokens?` cuts a text into tokens.  What the layout of the text says is worked out on the
way, from three things that a `Layout` keeps.

* The columns of the collections in block style that are open, innermost first.  A token
  right of the innermost may open another one; a token closes those that start right of it.
* The levels of flow style, in which columns do not count.
* For each of these levels the *candidate*: the token that becomes a key if a colon comes
  next.  It has to come on the same line and within 1024 characters.  As only then is
  known that a key, and perhaps a mapping, starts before that token, tokens are kept with
  what is put before them (`Lexeme`).

Whether a key may start at all hangs on what came before: it may at the start of a line,
after the mark of an item and inside brackets, but not after another value.
-/

namespace SchemaLang.Yaml

/-- A token of the text, with what the layout puts before it. -/
structure Lexeme where
  opening : List Token := []
  token : Token

def Lexeme.tokens (x : Lexeme) : List Token := x.opening ++ [x.token]

/-- A token that may turn out to be the start of a key. -/
structure Candidate where
  /-- The number of lexemes before. -/
  slot : Nat
  start : Cursor
  /-- Whether a colon has to follow, as the token stands where a field of the collection in
  block style around would start. -/
  required : Bool

/-- How far a candidate may be from its colon. -/
def longestKey : Nat := 1024

def Candidate.expired (k : Candidate) (c : Cursor) : Bool :=
  k.start.line < c.line || k.start.index + longestKey < c.index

/-- How many levels of flow style there may be. -/
def deepestFlow : Nat := 255

structure Layout where
  cursor : Cursor
  lexemes : Array Lexeme := #[]
  /-- The columns of the open collections in block style, innermost first. -/
  columns : List Nat := []
  candidate : Option Candidate := none
  /-- The candidates of the levels around, innermost first. -/
  outer : List (Option Candidate) := []
  /-- Whether a key may start. -/
  keyAllowed : Bool := true
  /-- The place after a quoted scalar, where a colon needs no space after it. -/
  quoteEnd : Option Nat := none

namespace Layout

def inFlow (l : Layout) : Bool := !l.outer.isEmpty

def limit (l : Layout) : Nat :=
  match l.columns with
  | [] => 0
  | column :: _ => column + 1

def push (token : Token) (l : Layout) : Layout :=
  { l with lexemes := l.lexemes.push { token } }

def allowKey (allowed : Bool) (l : Layout) : Layout := { l with keyAllowed := allowed }

/-! ### Space between tokens -/

/-- How many characters stand before the next token, and whether a key may start there.  A
tab is space only where no key may start or columns do not count. -/
def gapFrom (inFlow comment keyAllowed : Bool) : List Char → Nat × Bool
  | [] => (0, keyAllowed)
  | c :: r =>
    let further (comment keyAllowed : Bool) : Nat × Bool :=
      let (n, keyAllowed) := gapFrom inFlow comment keyAllowed r
      (n + 1, keyAllowed)
    if isBreak c then further false (keyAllowed || !inFlow)
    else if comment || c == ' ' || (c == '\t' && (inFlow || !keyAllowed)) then
      further comment keyAllowed
    else if c == '#' then further true keyAllowed
    else (0, keyAllowed)

def pastGap (l : Layout) : Layout :=
  let (n, keyAllowed) := gapFrom l.inFlow false l.keyAllowed l.cursor.rest
  { l with cursor := l.cursor.advance n, keyAllowed }

/-! ### Keys -/

/-- Gives up the candidates that a colon cannot reach any more. -/
def dropExpired? (l : Layout) : Option Layout :=
  let expired (k : Candidate) := k.expired l.cursor
  if (l.candidate :: l.outer).any fun k => k.any fun k => expired k && k.required then none
  else
    let current (k : Option Candidate) := k.filter fun k => !expired k
    some { l with candidate := current l.candidate, outer := l.outer.map current }

def dropCandidate? (l : Layout) : Option Layout :=
  if l.candidate.any Candidate.required then none else some { l with candidate := none }

/-- Makes the next token the candidate if a key may start. -/
def offer? (l : Layout) : Option Layout :=
  if l.keyAllowed then
    let required := l.inFlow && l.columns.head? == some l.cursor.column
    l.dropCandidate?.map fun l =>
      { l with candidate := some ⟨l.lexemes.size, l.cursor, required⟩ }
  else some l

/-! ### Collections in block style -/

/-- Closes the collections that start right of a column; all of them where none is given. -/
def close (column : Option Nat) (l : Layout) : Layout :=
  if l.inFlow then l
  else
    let closes (start : Nat) : Bool := column.all fun n => decide (n < start)
    let closed := (l.columns.takeWhile closes).length
    { l with
      columns := l.columns.drop closed
      lexemes := l.lexemes ++ Array.replicate closed ⟨[], .blockEnd⟩ }

/-- Opens a collection that starts here, unless that is in flow style or the innermost
collection starts here already. -/
def openBlock (start : Token) (l : Layout) : Layout :=
  if l.inFlow || decide (l.cursor.column < l.limit) then l
  else { l.push start with columns := l.cursor.column :: l.columns }

def blockEntry? (l : Layout) : Option Layout :=
  if l.inFlow || !l.keyAllowed then none
  else
    (l.openBlock .blockSequenceStart).dropCandidate?.map fun l =>
      (l.allowKey true).push .blockEntry

def key? (l : Layout) : Option Layout :=
  if !l.inFlow && !l.keyAllowed then none
  else
    (l.openBlock .blockMappingStart).dropCandidate?.map fun l =>
      (l.allowKey (!l.inFlow)).push .key

/-- Takes the mark of a value.  It makes the candidate a key, which may open a mapping. -/
def value? (l : Layout) : Option Layout :=
  match l.candidate with
  | some k =>
    let opens := !l.inFlow && decide (l.limit ≤ k.start.column)
    let opening := if opens then [Token.blockMappingStart, .key] else [.key]
    let l := { l with
      candidate := none
      columns := if opens then k.start.column :: l.columns else l.columns
      lexemes := l.lexemes.modify k.slot fun x => { x with opening } }
    some ((l.allowKey false).push .value)
  | none =>
    if l.inFlow then some ((l.allowKey false).push .value)
    else if l.keyAllowed then some ((l.openBlock .blockMappingStart).push .value)
    else none

/-! ### Collections in flow style -/

def openFlow? (start : Token) (l : Layout) : Option Layout :=
  if deepestFlow ≤ l.outer.length then none
  else
    l.offer?.map fun l =>
      ({ l with candidate := none, outer := l.candidate :: l.outer }.allowKey true).push start

def closeFlow? (stop : Token) (l : Layout) : Option Layout :=
  l.dropCandidate?.map fun l =>
    let l :=
      match l.outer with
      | [] => l
      | candidate :: outer => { l with candidate, outer }
    (l.allowKey false).push stop

def flowEntry? (l : Layout) : Option Layout :=
  l.dropCandidate?.map fun l => (l.allowKey true).push .flowEntry

/-! ### Words

What is read with a token is a layout, and how many characters the token takes after its
first. -/

def line (l : Layout) : List Char := (l.cursor.rest.drop 1).takeWhile fun c => !isBreak c

def takeUpTo (rest : List Char) (token : Token) (l : Layout) : Layout × Nat :=
  (l.push token, l.line.length - rest.length)

def takeTo (stop : Cursor) (token : Token) (l : Layout) : Layout × Nat :=
  (l.push token, stop.index - l.cursor.index - 1)

def plainToken? (l : Layout) : Option (Layout × Nat) := do
  let l ← l.offer?
  let s ← plain? l.inFlow l.limit l.cursor
  return (l.allowKey s.broken).takeTo s.stop (.scalar true (String.ofList s.text))

def quotedToken? (double : Bool) (l : Layout) : Option (Layout × Nat) := do
  let l ← l.offer?
  let (text, stop) ← quoted? double (l.cursor.advance 1)
  return { l.allowKey false with quoteEnd := some stop.index }.takeTo stop
    (.scalar false (String.ofList text))

def blockToken? (literal : Bool) (l : Layout) : Option (Layout × Nat) := do
  let l ← l.offer?
  let (text, stop) ← block? literal l.limit (l.cursor.advance 1)
  return (l.allowKey true).takeTo stop (.scalar false (String.ofList text))

def nameToken? (token : String → Token) (l : Layout) : Option (Layout × Nat) := do
  let l ← l.offer?
  let (name, rest) ← name? l.line
  return (l.allowKey false).takeUpTo rest (token name)

def tagToken? (l : Layout) : Option (Layout × Nat) := do
  let l ← l.offer?
  let (tag, rest) ← tag? l.line
  return (l.allowKey false).takeUpTo rest (.tag tag)

/-- Ends what is open before a line that stands outside all collections. -/
def leaveAll? (l : Layout) : Option Layout :=
  (l.close none).dropCandidate?.map (allowKey false)

def boundary? (c : Char) (l : Layout) : Option (Layout × Nat) :=
  l.leaveAll?.map fun l => (l.push (if c = '-' then .documentStart else .documentEnd), 2)

def directive? (l : Layout) : Option (Layout × Nat) := do
  let l ← l.leaveAll?
  if isDirective l.line then return (l.push .directive, l.line.length + 1) else none

/-! ### Tokens of a text -/

def take? (c : Char) (r : List Char) (l : Layout) : Option (Layout × Nat) :=
  let mark (l : Option Layout) : Option (Layout × Nat) := l.map fun l => (l, 0)
  if l.cursor.column = 0 ∧ c = '%' then l.directive?
  else if l.cursor.atBoundary then l.boundary? c
  else
    match c with
    | '[' => mark (l.openFlow? .flowSequenceStart)
    | ']' => mark (l.closeFlow? .flowSequenceEnd)
    | '\x7b' => mark (l.openFlow? .flowMappingStart)
    | '\x7d' => mark (l.closeFlow? .flowMappingEnd)
    | ',' => mark l.flowEntry?
    | '-' => if startsApart r then mark l.blockEntry? else l.plainToken?
    | '?' => if startsApart r then mark l.key? else l.plainToken?
    | ':' =>
      if startsApart r ||
          (l.inFlow && (startsFlowMark r || l.quoteEnd == some l.cursor.index)) then
        mark l.value?
      else l.plainToken?
    | '*' => l.nameToken? .alias
    | '&' => l.nameToken? .anchor
    | '!' => l.tagToken?
    | '|' => if l.inFlow then l.plainToken? else l.blockToken? true
    | '>' => if l.inFlow then l.plainToken? else l.blockToken? false
    | '\x27' => l.quotedToken? false
    | '"' => l.quotedToken? true
    | '%' => none
    | '@' => none
    | '\x60' => none
    | _ => l.plainToken?

def toEnd? (l : Layout) : Option Layout :=
  let start := l.pastGap
  match start.dropExpired? with
  | none => none
  | some settled =>
    match _ : start.cursor.rest with
    | [] => settled.leaveAll?
    | c :: r =>
      match (settled.close (some start.cursor.column)).take? c r with
      | none => none
      | some (next, more) => toEnd? { next with cursor := start.cursor.advance (more + 1) }
termination_by l.cursor.rest.length
decreasing_by
  have hs : start.cursor.rest ≠ [] := fun he => by
    have hc : start.cursor.rest = c :: r := ‹_›
    rw [he] at hc
    exact List.cons_ne_nil _ _ hc.symm
  exact Nat.lt_of_lt_of_le (Cursor.length_rest_advance_lt hs (Nat.succ_ne_zero _))
    (Cursor.length_rest_advance_le _ _)

end Layout

/-- **The tokens of a text.**  There are none where a token or the layout is broken. -/
def tokens? (text : String) : Option (List Token) :=
  (Layout.toEnd? { cursor := .ofText text }).map fun l => l.lexemes.toList.flatMap Lexeme.tokens

end SchemaLang.Yaml
