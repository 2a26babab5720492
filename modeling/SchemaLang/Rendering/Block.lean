import SchemaLang.Code
import SchemaLang.OrderedMap
import SchemaLang.OrderedSet
import SchemaLang.Rendering.OpenType

/-!
# Blocks

A block is what one declaration of an object type writes: a header line, and below
it a line for each property, indented by a tab.  Words are divided by one space.

A block may stem from a model in which the properties of an object share a map with
its index entries, whose keys are numbers.  Such keys (`isIndexLike`) are no
properties, and the public `Block.render` passes them over without looking at their
types.  `Block.renderWith` lets its caller say which keys are written.
-/

namespace SchemaLang

structure BlockEntry (υ : Type) where
  type : OpenType υ
  code : Code
  tags : OrderedSet String

/-- A declaration of an object type over open types. -/
structure Block (υ : Type) where
  /-- What follows name and code in the header. -/
  tags : OrderedSet String
  entries : OrderedMap String (BlockEntry υ)

def unsigned : List Char → List Char
  | '-' :: r => r
  | '+' :: r => r
  | s => s

/-- Whether a key is that of an index entry: after one optional sign it starts with
an ASCII digit. -/
def isIndexLike (key : String) : Bool :=
  match unsigned key.toList with
  | c :: _ => c.isDigit
  | [] => false

namespace Block

def tagText (tags : OrderedSet String) : String :=
  String.join (tags.toList.map fun t => " " ++ t)

def headerLine (name : String) (code : Code) (tags : OrderedSet String) : String :=
  name ++ " " ++ code.text ++ tagText tags ++ "\n"

def propertyLine (name type : String) (code : Code) (tags : OrderedSet String) : String :=
  "\t" ++ name ++ " " ++ type ++ " " ++ code.text ++ tagText tags ++ "\n"

variable {σ υ : Type}

def entryLine (handler : Handler σ υ) (e : String × BlockEntry υ) : Rendering σ υ String := do
  let type ← e.2.type.render handler
  return propertyLine e.1 type e.2.code e.2.tags

/-- The text of a block with the entries whose keys are kept. -/
def renderWith (keep : String → Bool) (handler : Handler σ υ) (block : Block υ) (name : String)
    (code : Code) : Rendering σ υ String := do
  let lines ← (block.entries.entries.filter fun e => keep e.1).mapM (entryLine handler)
  return headerLine name code block.tags ++ String.join lines

/-- **The text of a block,** without the entries of its index. -/
def render (handler : Handler σ υ) (block : Block υ) (name : String) (code : Code) :
    Rendering σ υ String :=
  block.renderWith (fun key => !isIndexLike key) handler name code

end Block
end SchemaLang
