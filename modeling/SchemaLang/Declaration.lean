import SchemaLang.Logged
import SchemaLang.Options
import SchemaLang.Outline.Node
import SchemaLang.Schema

/-!
# Declarations

The top-level nodes of an outline declare object types.  The words of such a node
are the name, the code and the super types of an object; each node below it
declares a property by its name, its type, its code and its tags, and has no nodes
below itself.

Node by node, `Schema.declare` reads the header, checks that the code is free for
that name, reads the properties into a block of their own, and adds the block to
the schema.  A first block is the object.  A further block of the same object
(`ObjectType.absorb`) adds its super types and its properties; a property that
repeats both name and code of an earlier one takes its place, and one that repeats
only one of the two is an error.

Derived declarations, those with a parenthesis in the name or with `:=` in the
line, are passed over on request.
-/

namespace SchemaLang

/-- How deep the type of a property may nest. -/
def maxTypeDepth : Nat := 64

/-! ### Reading a block -/

structure Header where
  name : String
  code : Code
  superTypes : OrderedSet String

def Header.ofNode (options : Options) (node : Outline.Node) : Except CompileError Header :=
  match node.words with
  | name :: codeWord :: superTypes =>
    match Code.ofText? codeWord with
    | none => .error (.badObjectCode name codeWord)
    | some code =>
      if options.reservesObject name then .error (.reservedObjectName name)
      else .ok ⟨name, code, OrderedSet.ofList superTypes⟩
  | _ => .error (.incompleteObject node.lineNumber)

def Header.object (header : Header) : ObjectType :=
  { name := header.name
    code := header.code
    superTypes := header.superTypes
    subTypes := ∅
    properties := ∅
    propertiesByCode := ∅ }

/-- The property of `owner` that a node spells. -/
def Property.ofNode (options : Options) (owner : String) (node : Outline.Node) :
    Except CompileError Property :=
  if !node.children.isEmpty then .error (.nestedProperty owner (node.words.head?.getD ""))
  else
    match node.words with
    | name :: typeWord :: codeWord :: tags =>
      match Code.ofText? codeWord with
      | none => .error (.badPropertyCode owner name codeWord)
      | some code =>
        if typeWord.toList.count ':' > maxTypeDepth then
          .error (.typeTooDeep owner name maxTypeDepth)
        else if options.reservesProperty name then .error (.reservedPropertyName owner name)
        else
          .ok
            { name := name
              type := TypeExpr.ofText typeWord
              code := code
              tags := OrderedSet.ofList tags
              owner := owner }
    | _ => .error (.incompleteProperty owner node.lineNumber)

namespace ObjectType

/-- Adds a property whose code and name are new. -/
def declare (o : ObjectType) (p : Property) : Except CompileError ObjectType :=
  if o.propertiesByCode.contains p.code then
    .error (.duplicatePropertyCode o.name p.name p.code)
  else if o.properties.contains p.name then .error (.duplicatePropertyName o.name p.name)
  else .ok (o.insertProperty p)

/-- Adds a property of a further block of the same object. -/
def redeclare (o : ObjectType) (p : Property) : Except CompileError ObjectType :=
  match o.property? p.name, o.propertyByCode? p.code with
  | none, none => o.declare p
  | some sameName, some sameCode =>
    if sameName.code = p.code ∧ sameCode.name = p.name then .ok (o.insertProperty p)
    else .error (.duplicatePropertyName o.name p.name)
  | some _, none => .error (.duplicatePropertyName o.name p.name)
  | none, some _ => .error (.duplicatePropertyCode o.name p.name p.code)

/-- Adds the nodes below a header as properties, from top to bottom. -/
def declareAll (options : Options) (o : ObjectType) (nodes : List Outline.Node) :
    Except CompileError ObjectType :=
  nodes.foldlM
    (fun o node => do
      let p ← Property.ofNode options o.name node
      o.declare p)
    o

/-- Adds the super types and the properties of a further block of the object. -/
def absorb (o block : ObjectType) : Except CompileError ObjectType :=
  block.properties.values.foldlM redeclare
    { o with superTypes := o.superTypes.union block.superTypes }

end ObjectType

/-! ### Adding blocks to a schema -/

namespace Schema

def checkCode (s : Schema) (header : Header) : Except CompileError Unit :=
  match s.codes.get? header.code with
  | some existing =>
    if existing = header.name then .ok ()
    else .error (.duplicateObjectCode header.name existing header.code)
  | none => .ok ()

/-- Adds a block: a new object, or more of an object that is there. -/
def addBlock (s : Schema) (block : ObjectType) : Logged Schema :=
  match s.object? block.name with
  | some existing =>
    if existing.code = block.code then do
      Logged.tell (.merging block.name)
      let merged ← existing.absorb block
      return s.setObject block.name merged
    else Logged.fail (.duplicateObjectName block.name existing.code block.code)
  | none =>
    return { objects := s.objects.insert block.name block
             codes := s.codes.insert block.code block.name }

def declare (options : Options) (s : Schema) (node : Outline.Node) : Logged Schema := do
  let header ← Header.ofNode options node
  s.checkCode header
  let block ← header.object.declareAll options node.children
  s.addBlock block

end Schema

def assigns : List Char → Bool
  | [] => false
  | ':' :: '=' :: _ => true
  | _ :: r => assigns r

/-- Whether a top-level node is a derived declaration. -/
def isDerived (node : Outline.Node) : Bool :=
  (match node.words with
    | name :: _ => name.toList.contains '('
    | [] => false) ||
    assigns node.line.toList

def Schema.declareUnlessDerived (options : Options) (s : Schema) (node : Outline.Node) :
    Logged Schema :=
  if options.skipDerived && isDerived node then do
    Logged.tell (.skipping node.lineNumber)
    return s
  else s.declare options node

/-- **The schema that the top-level nodes of an outline declare**, before references
and inheritance are looked at. -/
def declareAll (options : Options) (nodes : List Outline.Node) : Logged Schema := do
  Logged.tell (.building nodes.length)
  nodes.foldlM (Schema.declareUnlessDerived options) ∅

end SchemaLang
