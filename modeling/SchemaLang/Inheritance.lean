import SchemaLang.Logged
import SchemaLang.Schema

/-!
# Inheritance

An object type inherits the properties of its declared super types, and what those
inherit; a super type learns the name of each direct sub type.  A super type that
is not declared counts for nothing.

`extend` completes one object: it completes each super type in turn and takes over
its properties.  It carries the *path*, the objects that are being completed,
innermost first.  To meet an object of the path again is recursive inheritance, so
every step down the path leaves fewer declared objects outside it
(`outside_cons_lt`), and the completion ends on every graph of super types.  An
ancestor that is reached along several paths is completed again, which changes
nothing, because a property that is there already as the same property is passed
over.

`resolve` completes all objects, in ascending order of their codes.
-/

namespace SchemaLang

namespace ObjectType

def inheritName (o : ObjectType) (name : String) (p : Property) : Logged ObjectType :=
  match o.property? name with
  | some existing =>
    if existing.isSame p then return o
    else Logged.fail (.propertyNameCollision o.name name existing.owner p.owner)
  | none => do
    Logged.tell (.inherits o.name p.owner name)
    return { o with properties := o.properties.insert name p }

def inheritCode (o : ObjectType) (code : Code) (p : Property) : Except CompileError ObjectType :=
  match o.propertyByCode? code with
  | some existing =>
    if existing.isSame p then .ok o
    else
      .error (.propertyCodeCollision o.name existing.name existing.owner p.name p.owner code)
  | none => .ok { o with propertiesByCode := o.propertiesByCode.insert code p }

def inheritNames (o superType : ObjectType) : Logged ObjectType :=
  superType.properties.entries.foldlM (fun o e => o.inheritName e.1 e.2) o

def inheritCodes (o superType : ObjectType) : Except CompileError ObjectType :=
  superType.propertiesByCode.entries.foldlM (fun o e => o.inheritCode e.1 e.2) o

/-- **Takes over all properties of a super type**: first under their names, then under
their codes. -/
def inherit (o superType : ObjectType) : Logged ObjectType := do
  let o ← o.inheritNames superType
  o.inheritCodes superType

end ObjectType

namespace Schema

/-- The object `name` takes over the properties of its completed super type
`superName`, which learns that `name` is a sub type. -/
def inheritFrom (s : Schema) (name superName : String) : Logged Schema :=
  match s.object? superName with
  | none => return s
  | some superType =>
    let s :=
      s.setObject superName { superType with subTypes := superType.subTypes.insert name }
    match s.object? name with
    | none => return s
    | some o => do
      let o ← o.inherit superType
      return s.setObject name o

def outside (s : Schema) (path : List String) : Nat :=
  (s.objects.keys.filter fun name => name ∉ path).length

/-- **A longer path leaves fewer declared objects outside it.** -/
theorem outside_cons_lt {s : Schema} {path : List String} {name : String} {o : ObjectType}
    (hp : name ∉ path) (ho : s.object? name = some o) :
    s.outside (name :: path) < s.outside path := by
  have hmem : name ∈ s.objects.keys := by
    rw [← OrderedMap.contains_iff_mem_keys, OrderedMap.contains]
    exact Option.isSome_iff_exists.2 ⟨o, ho⟩
  have hsplit : (s.objects.keys.filter fun n => n ∉ name :: path) =
      (s.objects.keys.filter fun n => n ∉ path).filter fun n => n ≠ name := by
    rw [List.filter_filter]
    refine List.filter_congr fun n _ => ?_
    simp [List.mem_cons, not_or]
  rw [outside, outside, hsplit]
  refine List.length_filter_lt_length_iff_exists.2 ⟨name, ?_, by simp⟩
  exact List.mem_filter.2 ⟨hmem, by simpa using hp⟩

/-- **Completes an object**: each declared super type is completed first and then
inherited from.  `declared` is the schema before any inheritance, from which the
super types are read. -/
def extend (declared : Schema) (path : List String) (name : String) (s : Schema) : Logged Schema :=
  if _ : name ∈ path then Logged.fail (.recursiveInheritance name)
  else
    match _ : declared.object? name with
    | none => return s
    | some o =>
      o.superTypes.toList.foldlM
        (fun s superName =>
          if declared.declares superName then do
            let s ← extend declared (name :: path) superName s
            s.inheritFrom name superName
          else do
            Logged.tell (.undeclaredSuperType superName name)
            return s)
        s
termination_by declared.outside path
decreasing_by exact outside_cons_lt ‹_› ‹_›

/-- **Completes all objects**, in ascending order of their codes. -/
def resolve (declared : Schema) : Logged Schema := do
  Logged.tell .resolving
  declared.codes.values.foldlM (fun s name => declared.extend [] name s) declared

end Schema
end SchemaLang
