import SchemaLang.Rendering.Block
import SchemaLang.Schema

/-!
# Schema text

An object type is written as a block: its super types are the tags of the header,
and its own properties are the entries, in order.  Inherited properties are not
written, since reading the text brings them back.

All properties of a compiled object are real, so the text of a schema passes over
no key, unlike the rendering of a block on its own.  Nothing in it is foreign, so
rendering it cannot stop.
-/

namespace SchemaLang

/-- An object type as a block of its own properties. -/
def ObjectType.toBlock {υ : Type} (o : ObjectType) : Block υ where
  tags := o.superTypes
  entries :=
    OrderedMap.ofList (o.ownProperties.map fun p => (p.name, ⟨p.type.toOpen, p.code, p.tags⟩))

def Rendering.value {α : Type} (r : Rendering Unit Empty α) : α :=
  match (r.run.run ()).1 with
  | .ok a => a
  | .error e => e.type.elim

/-- **An object type as schema text.** -/
def ObjectType.text (o : ObjectType) : String :=
  Rendering.value (o.toBlock.renderWith (fun _ => true) (fun e => e.elim) o.name o.code)

/-- **A schema as schema text.** -/
def Schema.text (s : Schema) : String := String.join (s.objectList.map ObjectType.text)

end SchemaLang
