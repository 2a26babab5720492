import SchemaLang.Yaml.Layout

/-!
# Documents

A document is a tree of scalars, sequences and mappings.  `Node.ofText?` reads a text that
holds one document: it cuts the text into tokens, and the tokens are taken in order.

A value may be left out where the marks around it show its place; then the plain scalar
`~` is read.  After a tag or an anchor it is the empty scalar.

An anchor names a value, and an alias of that name after it stands for that value; of
two values of one name the last before the alias counts.  An alias inside the value that
it stands for is kept as such (`enclosing`), as the tree would not end.
-/

namespace SchemaLang.Yaml

inductive Node where
  /-- A scalar with its tag, whether it is written without marks, and its text. -/
  | scalar (tag : Option Tag) (plain : Bool) (text : String)
  | sequence (items : List Node)
  /-- The fields in the order in which they stand, with their keys. -/
  | mapping (fields : List (Node × Node))
  /-- An alias inside the value that it stands for. -/
  | enclosing

/-- What is read where a value is left out. -/
def Node.missing : Node := .scalar none true "~"

/-! ### Taking tokens -/

/-- What is left of a document, and what its anchors name. -/
structure Unread where
  tokens : List Token
  /-- The anchors with their numbers, the last first. -/
  anchors : List (String × Nat) := []
  /-- The values of the anchors that are read to their end. -/
  values : List (Nat × Node) := []

abbrev Reading := StateT Unread Option

namespace Reading

def peek : Reading (Option Token) := return (← get).tokens.head?

def skip : Reading Unit := modify fun u => { u with tokens := u.tokens.drop 1 }

def expect (token : Token) : Reading Unit := do
  if (← peek) = some token then skip else failure

def nextIn (tokens : List Token) : Reading Bool := return (← peek).any tokens.contains

/-- A value that is left out if one of some tokens is next. -/
def unlessNext (tokens : List Token) (read : Reading Node) : Reading Node := do
  if ← nextIn tokens then return .missing else read

def aliased (name : String) : Reading Node := do
  let u ← get
  match u.anchors.lookup name with
  | none => failure
  | some n => return (u.values.lookup n).getD .enclosing

/-! ### Anchors and tags -/

def anchor? : Reading (Option Nat) := do
  match ← peek with
  | some (.anchor name) =>
    skip
    let n := (← get).anchors.length
    modify fun u => { u with anchors := (name, n) :: u.anchors }
    return some n
  | _ => return none

def tag? : Reading (Option Tag) := do
  match ← peek with
  | some (.tag tag) =>
    skip
    return some tag
  | _ => return none

/-- Takes an anchor and a tag, in any order and each if it is there. -/
def properties : Reading (Option Nat × Option Tag) := do
  let first ← anchor?
  let tag ← tag?
  let second ← if first.isSome then pure none else anchor?
  return (first.or second, tag)

def name (anchor : Option Nat) (value : Node) : Reading Unit :=
  match anchor with
  | none => pure ()
  | some n => modify fun u => { u with values := (n, value) :: u.values }

/-! ### Values

Each reader calls others only for what is inside the value that it reads.  The number that
it is given bounds how deep the calls may go. -/

mutual

/-- A value.  In `block` style it may be a collection of that style, and, where items need
no indentation, a sequence of them. -/
def node (block bareItems : Bool) : Nat → Reading Node
  | 0 => failure
  | depth + 1 => do
    match ← peek with
    | some (.alias name) =>
      skip
      aliased name
    | _ =>
      let (anchor, tag) ← properties
      let value ←
        match ← peek with
        | some (.scalar plain text) => do
          skip
          pure (Node.scalar tag plain text)
        | some .flowSequenceStart => do
          skip
          pure (.sequence (← flowItems true depth))
        | some .flowMappingStart => do
          skip
          pure (.mapping (← flowFields true depth))
        | next => do
          if bareItems && next == some .blockEntry then
            pure (.sequence (← bareSequence depth))
          else if block && next == some .blockSequenceStart then
            skip
            pure (.sequence (← blockItems depth))
          else if block && next == some .blockMappingStart then
            skip
            pure (.mapping (← blockFields depth))
          else if anchor.isSome || tag.isSome then pure (.scalar tag true "")
          else failure
      name anchor value
      return value

def blockItems : Nat → Reading (List Node)
  | 0 => failure
  | depth + 1 => do
    if ← nextIn [.blockEnd] then
      skip
      return []
    else
      expect .blockEntry
      let item ← unlessNext [.blockEntry, .blockEnd] (node true false depth)
      return item :: (← blockItems depth)

/-- The items of a sequence in block style that is not indented, as far as they go. -/
def bareSequence : Nat → Reading (List Node)
  | 0 => failure
  | depth + 1 => do
    if ← nextIn [.blockEntry] then
      skip
      let item ← unlessNext [.blockEntry, .key, .value, .blockEnd] (node true false depth)
      return item :: (← bareSequence depth)
    else return []

def blockFields : Nat → Reading (List (Node × Node))
  | 0 => failure
  | depth + 1 => do
    if ← nextIn [.blockEnd] then
      skip
      return []
    else
      let ends := [.key, .value, .blockEnd]
      let key ←
        if ← nextIn [.value] then pure Node.missing
        else do
          expect .key
          unlessNext ends (node true true depth)
      let value ←
        if ← nextIn [.value] then do
          skip
          unlessNext ends (node true true depth)
        else pure Node.missing
      return (key, value) :: (← blockFields depth)

/-- The items of a sequence in flow style, up to its end; a comma stands before each but the
first, and may stand before the end. -/
def flowItems (first : Bool) : Nat → Reading (List Node)
  | 0 => failure
  | depth + 1 => do
    if ← nextIn [.flowSequenceEnd] then
      skip
      return []
    else
      if !first then expect .flowEntry
      if ← nextIn [.flowSequenceEnd] then
        skip
        return []
      else
        let item ←
          if ← nextIn [.key] then do
            skip
            pure (.mapping [← flowPair depth])
          else node false false depth
        return item :: (← flowItems false depth)

/-- The one field of a mapping that is an item in flow style, after the mark of its key.  Where
the key is left out, the token that shows it is passed over. -/
def flowPair : Nat → Reading (Node × Node)
  | 0 => failure
  | depth + 1 => do
    let key ←
      if ← nextIn [.value, .flowEntry, .flowSequenceEnd] then do
        skip
        pure Node.missing
      else node false false depth
    return (key, ← flowValue .flowSequenceEnd depth)

def flowValue (stop : Token) : Nat → Reading Node
  | 0 => failure
  | depth + 1 => do
    if ← nextIn [.value] then
      skip
      unlessNext [.flowEntry, stop] (node false false depth)
    else return .missing

def flowFields (first : Bool) : Nat → Reading (List (Node × Node))
  | 0 => failure
  | depth + 1 => do
    if ← nextIn [.flowMappingEnd] then
      skip
      return []
    else
      if !first then expect .flowEntry
      if ← nextIn [.flowMappingEnd] then
        skip
        return []
      else
        let field ←
          if ← nextIn [.key] then do
            skip
            let key ← unlessNext [.value, .flowEntry, .flowMappingEnd] (node false false depth)
            pure (key, ← flowValue .flowMappingEnd depth)
          else if ← nextIn [.value] then do
            pure (Node.missing, ← flowValue .flowMappingEnd depth)
          else do
            pure (← node false false depth, Node.missing)
        return field :: (← flowFields false depth)

end

/-! ### Documents -/

/-- Passes over a token as often as it is next, `n` times at most. -/
def skipAll (token : Token) : Nat → Reading Unit
  | 0 => pure ()
  | n + 1 => do
    if ← nextIn [token] then
      skip
      skipAll token n

/-- The one document of `n` tokens: directives and a boundary may precede it and boundaries
may follow.  Of two calls of readers inside each other, one takes a token, so that twice as many
calls as tokens suffice. -/
def document (n : Nat) : Reading Node := do
  let value ←
    if ← nextIn [.directive, .documentStart] then do
      skipAll .directive n
      expect .documentStart
      if (← peek).isNone then pure Node.missing
      else unlessNext [.directive, .documentStart, .documentEnd] (node true false (2 * n + 2))
    else node true false (2 * n + 2)
  skipAll .documentEnd n
  if (← peek).isNone then return value else failure

end Reading

/-- The document that tokens make. -/
def Node.ofTokens? (tokens : List Token) : Option Node :=
  (Reading.document tokens.length).run' { tokens }

/-- **The document that a text holds**, if it is well formed. -/
def Node.ofText? (text : String) : Option Node :=
  (tokens? text).bind Node.ofTokens?

end SchemaLang.Yaml
