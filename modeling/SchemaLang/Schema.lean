import SchemaLang.CodeMap
import SchemaLang.OrderedMap
import SchemaLang.OrderedSet
import SchemaLang.TypeExpr

/-!
# Schemas

A schema is a collection of object types.  An object type has a name, a code, the
names of its super types, the names of its direct sub types, and properties; a
property has a name, a type, a code, tags, and the object type that declared it,
its *owner*.

Everything can be found twice.  A schema finds an object by name, in the order of
declaration, and by code; an object finds a property by name, in the order in
which the properties came in, and by code.

An object holds its own properties and those it inherits.  An inherited property
is the very property of its owner, so two properties are *the same* when owner
and name agree (`Property.isSame`); two properties that merely look alike, with
different owners, are not.
-/

namespace SchemaLang

/-- A property of an object type. -/
structure Property where
  name : String
  type : TypeExpr
  code : Code
  tags : OrderedSet String
  /-- The name of the object type that declared the property. -/
  owner : String
deriving DecidableEq

namespace Property

/-- Whether two properties are one and the same declaration. -/
def isSame (p q : Property) : Bool := p.owner == q.owner && p.name == q.name

def hasTag (p : Property) (tag : String) : Bool := tag ∈ p.tags

theorem isSame_iff {p q : Property} : p.isSame q = true ↔ p.owner = q.owner ∧ p.name = q.name := by
  simp [isSame]

end Property

/-- An object type, with its own and its inherited properties. -/
structure ObjectType where
  name : String
  code : Code
  superTypes : OrderedSet String
  /-- The object types that name this one among their super types. -/
  subTypes : OrderedSet String
  properties : OrderedMap String Property
  propertiesByCode : CodeMap Property
deriving DecidableEq

namespace ObjectType

def property? (o : ObjectType) (name : String) : Option Property := o.properties.get? name

def propertyByCode? (o : ObjectType) (code : Code) : Option Property := o.propertiesByCode.get? code

/-- The properties that the object type declares itself, in order. -/
def ownProperties (o : ObjectType) : List Property :=
  o.properties.values.filter fun p => p.owner == o.name

def insertProperty (o : ObjectType) (p : Property) : ObjectType :=
  { o with
    properties := o.properties.insert p.name p
    propertiesByCode := o.propertiesByCode.insert p.code p }

end ObjectType

structure Schema where
  objects : OrderedMap String ObjectType
  /-- The names of the objects by their codes. -/
  codes : CodeMap String
deriving DecidableEq

namespace Schema

def empty : Schema := ⟨∅, ∅⟩

instance : EmptyCollection Schema := ⟨empty⟩

def object? (s : Schema) (name : String) : Option ObjectType := s.objects.get? name

def declares (s : Schema) (name : String) : Bool := s.objects.contains name

def objectByCode? (s : Schema) (code : Code) : Option ObjectType :=
  (s.codes.get? code).bind s.object?

/-- The object types, in the order of declaration. -/
def objectList (s : Schema) : List ObjectType := s.objects.values

def size (s : Schema) : Nat := s.objects.size

/-- The number of properties, each counted at its owner. -/
def propertyCount (s : Schema) : Nat :=
  s.objectList.foldr (fun o n => o.ownProperties.length + n) 0

/-- The schema with another object type under a name that it has already. -/
def setObject (s : Schema) (name : String) (o : ObjectType) : Schema :=
  { s with objects := s.objects.insert name o }

theorem object?_setObject {s : Schema} {name other : String} {o : ObjectType} :
    (s.setObject name o).object? other = if name = other then some o else s.object? other :=
  OrderedMap.get?_insert

@[simp] theorem codes_setObject {s : Schema} {name : String} {o : ObjectType} :
    (s.setObject name o).codes = s.codes := rfl

theorem declares_iff {s : Schema} {name : String} :
    s.declares name = true ↔ ∃ o, s.object? name = some o := by
  rw [declares, OrderedMap.contains, Option.isSome_iff_exists]; rfl

end Schema
end SchemaLang
