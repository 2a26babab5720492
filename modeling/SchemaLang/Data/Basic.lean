import SchemaLang.Code

/-!
# Data documents

A document is a tree of scalars, sequences and mappings.  A mapping keeps the order
of its fields; its keys are texts or codes, which formats write differently.

Schemas become documents, and formats write documents.
-/

namespace SchemaLang

inductive Data.Key where
  | text (s : String)
  | code (c : Code)
deriving DecidableEq

inductive Data where
  | null
  | boolean (b : Bool)
  | integer (i : Int)
  | text (s : String)
  | sequence (items : List Data)
  | mapping (fields : List (Data.Key × Data))
deriving Inhabited

namespace Data

def Key.label : Key → String
  | text s => s
  | code c => c.text

def field (name : String) (value : Data) : Key × Data := (.text name, value)

def texts (l : List String) : Data := sequence (l.map text)

/-- A field in its place among fields that ascend by label. -/
def insertField (f : Key × Data) : List (Key × Data) → List (Key × Data)
  | [] => [f]
  | g :: r => if f.1.label < g.1.label then f :: g :: r else g :: insertField f r

mutual

/-- A document with the fields of all its mappings in ascending order of their
labels. -/
def sortFields : Data → Data
  | sequence items => sequence (sortItems items)
  | mapping fields => mapping (sortEach fields)
  | d => d

def sortItems : List Data → List Data
  | [] => []
  | d :: r => d.sortFields :: sortItems r

def sortEach : List (Key × Data) → List (Key × Data)
  | [] => []
  | (k, d) :: r => insertField (k, d.sortFields) (sortEach r)

end

end Data
end SchemaLang
