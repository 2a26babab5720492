import SchemaLang.Data.Basic
import SchemaLang.Options

/-!
# Options as a document

Options may be given as a document, a mapping.  Names of fields count by case; a
field that is not there has its default, and fields of other names are passed over.
A sequence is taken too: its items are the reserved names and whether derived
declarations are passed over, in this order, and those at its end may be missing.
Where a value has the wrong shape, nothing included, there are no options at all.
-/

namespace SchemaLang

namespace Data

def field? (name : String) (fields : List (Key × Data)) : Option Data :=
  (fields.reverse.find? fun f => f.1 == .text name).map Prod.snd

def text? : Data → Option String
  | text s => some s
  | _ => none

def texts? : Data → Option (List String)
  | sequence items => items.mapM text?
  | _ => none

def boolean? : Data → Option Bool
  | boolean b => some b
  | _ => none

end Data

/-- What a field gives: its default when it is not there. -/
def Options.readField {α : Type} (read : Data → Option α) (default : α) : Option Data → Option α
  | none => some default
  | some d => read d

/-- **The options that a document spells.** -/
def Options.ofData? : Data → Option Options
  | .mapping fields => do
    let names ← readField Data.texts? [] (Data.field? "reserved_names" fields)
    let skip ← readField Data.boolean? true (Data.field? "skip_derived_declarations" fields)
    return { reservedNames := names, skipDerived := skip }
  | .sequence [] => some {}
  | .sequence [names] => do
    return { reservedNames := ← names.texts? }
  | .sequence [names, skip] => do
    return { reservedNames := ← names.texts?, skipDerived := ← skip.boolean? }
  | _ => none

end SchemaLang
