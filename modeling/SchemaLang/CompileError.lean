import SchemaLang.Code
import SchemaLang.Outline.Error

/-!
# Compile errors

Why a text or an outline is not a schema.  An error names what it is about: the
line, the object, the property, the codes, the owners.  `kind` sorts the errors
into broad classes and `message` words them.
-/

namespace SchemaLang

inductive ErrorKind where
  | format
  | name
  | duplicate
  | reference
  | collision
  | typeSyntax
deriving DecidableEq

inductive CompileError where
  /-- The text is no outline. -/
  | outline (cause : Outline.Error)
  | incompleteObject (line : Nat)
  | incompleteProperty (object : String) (line : Nat)
  | nestedProperty (object property : String)
  | badObjectCode (object code : String)
  | badPropertyCode (object property code : String)
  | typeTooDeep (object property : String) (limit : Nat)
  | reservedObjectName (object : String)
  | reservedPropertyName (object property : String)
  | duplicatePropertyCode (object property : String) (code : Code)
  | duplicatePropertyName (object property : String)
  | duplicateObjectCode (object existing : String) (code : Code)
  | duplicateObjectName (object : String) (existingCode code : Code)
  | missingObjectType (object property referenced : String)
  | propertyNameCollision (object property existingOwner incomingOwner : String)
  | propertyCodeCollision (object existing existingOwner incoming incomingOwner : String)
      (code : Code)
  | recursiveInheritance (object : String)
deriving DecidableEq

namespace CompileError

def kind : CompileError → ErrorKind
  | outline _ => .format
  | incompleteObject _ => .format
  | incompleteProperty _ _ => .format
  | nestedProperty _ _ => .format
  | badObjectCode _ _ => .typeSyntax
  | badPropertyCode _ _ _ => .typeSyntax
  | typeTooDeep _ _ _ => .typeSyntax
  | reservedObjectName _ => .name
  | reservedPropertyName _ _ => .name
  | duplicatePropertyCode _ _ _ => .duplicate
  | duplicatePropertyName _ _ => .duplicate
  | duplicateObjectCode _ _ _ => .duplicate
  | duplicateObjectName _ _ _ => .duplicate
  | missingObjectType _ _ _ => .reference
  | propertyNameCollision _ _ _ _ => .collision
  | propertyCodeCollision _ _ _ _ _ _ => .collision
  | recursiveInheritance _ => .collision

def message : CompileError → String
  | outline cause => cause.message
  | incompleteObject line => s!"line {line}: an object declaration needs a name and a code"
  | incompleteProperty object line =>
    s!"line {line}: property of `{object}` needs a name, a type and a code"
  | nestedProperty object property =>
    s!"property `{property}` of `{object}` has sub-properties; " ++
      "only one level of indentation is permitted"
  | badObjectCode object code =>
    s!"must provide integer code for object type `{object}`, got `{code}`"
  | badPropertyCode object property code =>
    s!"property `{property}` of `{object}` must have an integer code, got `{code}`"
  | typeTooDeep object property limit =>
    s!"type of property `{property}` of `{object}` nests deeper than {limit} levels"
  | reservedObjectName object => s!"invalid name, reserved: `{object}`"
  | reservedPropertyName object property =>
    s!"property `{property}` of `{object}` has a reserved name"
  | duplicatePropertyCode object property code =>
    s!"object of type `{object}` uses property code {code.text} more than once: `{property}`"
  | duplicatePropertyName object property =>
    s!"duplicate property name `{property}` for `{object}`"
  | duplicateObjectCode object existing code =>
    s!"object `{object}` is using a code that is already taken by `{existing}`: {code.text}"
  | duplicateObjectName object existingCode code =>
    s!"duplicate name already taken: `{object}` (code {existingCode.text}, " ++
      s!"redeclared with code {code.text})"
  | missingObjectType object property referenced =>
    s!"object type referenced but not defined (in `{object}.{property}`): `{referenced}`"
  | propertyNameCollision object property existingOwner incomingOwner =>
    s!"name collision in `{object}` between `{existingOwner}.{property}` and " ++
      s!"super type's `{incomingOwner}.{property}`"
  | propertyCodeCollision object existing existingOwner incoming incomingOwner code =>
    s!"type code collision in `{object}` between `{existingOwner}.{existing}` and " ++
      s!"super type property `{incomingOwner}.{incoming}`, both use type code: {code.text}"
  | recursiveInheritance object => s!"recursive inheritance through `{object}`"

end CompileError
end SchemaLang
