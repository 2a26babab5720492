import SchemaLang.Options
import SchemaLang.Yaml.Node

/-!
# Configuration files

Options may be given in a file of YAML.  It holds one document, a mapping with scalars as
keys, and two of its keys are options, which may stand once each.  The reserved names are a
sequence of scalars, each of which is the text it spells; whether derived declarations are
passed over is a plain `true` or `false`, or one that is tagged as a truth value.  Keys of
other names are passed over, with values of any shape.

A sequence is taken too: its items are the values of the two options in order, and those at
its end may be missing.
-/

namespace SchemaLang

namespace Yaml.Node

def text? : Node → Option String
  | scalar _ _ text => some text
  | _ => none

def texts? : Node → Option (List String)
  | sequence items => items.mapM text?
  | _ => none

def boolean? : Node → Option Bool
  | scalar tag plain text =>
    if tag = some .boolean ∨ (tag = none ∧ plain) then
      match text with
      | "true" => some true
      | "false" => some false
      | _ => none
    else none
  | _ => none

end Yaml.Node

namespace Options

/-- The value of a field, which may stand once: its default where it does not stand. -/
def onceIn {α : Type} (read : Yaml.Node → Option α) (default : α) (name : String)
    (fields : List (String × Yaml.Node)) : Option α :=
  match fields.filter fun f => f.1 == name with
  | [] => some default
  | [f] => read f.2
  | _ => none

def ofFields? (fields : List (String × Yaml.Node)) : Option Options := do
  let names ← onceIn Yaml.Node.texts? [] "reserved_names" fields
  let skip ← onceIn Yaml.Node.boolean? true "skip_derived_declarations" fields
  return { reservedNames := names, skipDerived := skip }

def ofNode? : Yaml.Node → Option Options
  | .mapping fields => do
    ofFields? (← fields.mapM fun (key, value) => key.text?.map fun key => (key, value))
  | .sequence [] => some {}
  | .sequence [names] => do
    return { reservedNames := ← names.texts? }
  | .sequence [names, skip] => do
    return { reservedNames := ← names.texts?, skipDerived := ← skip.boolean? }
  | _ => none

/-- **The options that a configuration file gives.** -/
def ofYaml? (text : String) : Option Options :=
  (Yaml.Node.ofText? text).bind ofNode?

-- Names may stand in flow style and in block style, and a quoted truth value is none.
example : ofYaml? "reserved_names: [id, 'a b']\n" = some { reservedNames := ["id", "a b"] } ∧
    ofYaml? "reserved_names:\n- id\n- a\n  b # both\n" =
      some { reservedNames := ["id", "a b"] } ∧
    ofYaml? "skip_derived_declarations: \"false\"\n" = none ∧ ofYaml? "" = none := by
  decide +kernel

end Options
end SchemaLang
