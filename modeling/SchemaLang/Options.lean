import SchemaLang.Text.Lowercase

/-!
# Options of the compiler

Two things can be chosen: the names that a schema must not use, and whether
derived declarations, which a later stage owns, are passed over.

A reserved name bars object types of exactly that name and properties of that name
in any letter case.
-/

namespace SchemaLang

/-- What can be chosen about compiling. -/
structure Options where
  reservedNames : List String := []
  /-- Whether derived declarations are passed over. -/
  skipDerived : Bool := true
deriving DecidableEq

def Options.reservesObject (options : Options) (name : String) : Bool :=
  options.reservedNames.contains name

def Options.reservesProperty (options : Options) (name : String) : Bool :=
  options.reservedNames.any fun r => Text.lowercase r == Text.lowercase name

end SchemaLang
