import SchemaLang.Data.Basic
import SchemaLang.Schema

/-!
# Schemas as documents

The document of a schema holds the objects by name and the names of the objects by
code.  An object gives all its fields except the index of its properties by code,
which its properties determine.  A type names its shape first and its parts after.
-/

namespace SchemaLang

open Data (field)

def TypeExpr.toData : TypeExpr → Data
  | primitive p => .mapping [field "type" (.text "primitive"), field "primitive" (.text p.name)]
  | object name => .mapping [field "type" (.text "object"), field "object" (.text name)]
  | set members => .mapping [field "type" (.text "set"), field "members" members.toData]
  | list members => .mapping [field "type" (.text "list"), field "members" members.toData]
  | map key value =>
    .mapping [field "type" (.text "map"), field "key" key.toData, field "value" value.toData]

def Code.toData (c : Code) : Data := .integer c.toInt

def Property.toData (p : Property) : Data :=
  .mapping
    [field "name" (.text p.name), field "type" p.type.toData, field "code" (Code.toData p.code),
      field "tags" (.texts p.tags.toList), field "owner" (.text p.owner)]

def ObjectType.toData (o : ObjectType) : Data :=
  .mapping
    [field "name" (.text o.name), field "code" (Code.toData o.code),
      field "super_types" (.texts o.superTypes.toList),
      field "sub_types" (.texts o.subTypes.toList),
      field "properties" (.mapping (o.properties.entries.map fun e => field e.1 e.2.toData))]

/-- **A schema as a document.** -/
def Schema.toData (s : Schema) : Data :=
  .mapping
    [field "objects_by_name" (.mapping (s.objects.entries.map fun e => field e.1 e.2.toData)),
      field "objects_by_code" (.mapping (s.codes.entries.map fun e => (.code e.1, .text e.2)))]

end SchemaLang
