/-!
# Outline errors

What can be wrong with the indentation of a text, and where.
-/

namespace SchemaLang.Outline

/-- A line whose indentation does not fit the outline. -/
inductive Error where
  /-- The margin of the line holds both a tab and a space. -/
  | mixedMargin (lineNumber : Nat)
  /-- The line closes deeper lines but stands at none of the open levels. -/
  | badDedent (lineNumber : Nat)
deriving DecidableEq

def Error.message : Error → String
  | mixedMargin n => s!"line {n}: indentation mixes tabs and spaces"
  | badDedent n => s!"line {n}: dedent does not match any enclosing indentation level"

end SchemaLang.Outline
