import SchemaLang.CompileError
import SchemaLang.Schema

/-!
# References

The types of properties mention object types by name.  Every mention is a
reference, and a schema is only good when each of them leads to an object type
that the schema declares.  The first reference that does not, in the order of
objects, properties and mentions, is reported.

`checkReferences_eq_ok_iff` says that the check passes exactly when nothing is
missing.
-/

namespace SchemaLang

/-- A mention of an object type in the type of a property. -/
structure Reference where
  object : String
  property : String
  target : String
deriving DecidableEq

namespace Schema

def references (s : Schema) : List Reference :=
  s.objectList.flatMap fun o =>
    o.properties.entries.flatMap fun (name, p) =>
      p.type.references.map fun target => ⟨o.name, name, target⟩

/-- Reports the first reference to an object type that is not declared. -/
def checkReferences (s : Schema) : Except CompileError Unit :=
  match s.references.find? fun r => !s.declares r.target with
  | some r => .error (.missingObjectType r.object r.property r.target)
  | none => .ok ()

/-- **The check passes exactly when nothing is missing.** -/
theorem checkReferences_eq_ok_iff {s : Schema} :
    s.checkReferences = .ok () ↔ ∀ r ∈ s.references, s.declares r.target = true := by
  rw [checkReferences]
  split
  · next r h =>
    have hr := List.find?_some h
    simp only [Bool.not_eq_true'] at hr
    constructor
    · intro h'; cases h'
    · intro h'; rw [h' r (List.mem_of_find?_eq_some h)] at hr; cases hr
  · next h =>
    simp only [List.find?_eq_none, Bool.not_eq_true', Bool.not_eq_false] at h
    simpa using h

end Schema
end SchemaLang
