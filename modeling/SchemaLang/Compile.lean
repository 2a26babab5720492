import SchemaLang.Declaration
import SchemaLang.Inheritance
import SchemaLang.Outline.Reader
import SchemaLang.References

/-!
# Compiling

From an outline, or from a text, to a schema: the declarations are collected, the
references checked, and the properties inherited.  Each part starts only when the
one before it found nothing wrong.
-/

namespace SchemaLang

/-- **The schema of an outline.** -/
def compile (options : Options) (nodes : List Outline.Node) : Logged Schema := do
  let declared ← declareAll options nodes
  Logged.tell .validating
  declared.checkReferences
  declared.resolve

/-- **The schema of a text.** -/
def compileText (options : Options) (source : String) : Logged Schema :=
  match Outline.read source with
  | .ok nodes => compile options nodes
  | .error e => Logged.fail (.outline e)

end SchemaLang
