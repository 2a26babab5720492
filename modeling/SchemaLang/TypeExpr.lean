/-!
# Type expressions

The type of a property: a primitive, a reference to an object type, a set or a
list of members, or a map from keys to values.

In schema text a type is one word, divided into *segments* by colons.  A last
segment is a leaf, the name of a primitive or else of an object.  Any other
segment takes the rest of the word as one type: `set` and `list` make it the
members of a collection, and any other segment is the leaf key of a map whose
values it is.  So every word is a type, `a:set:b` maps `a` to sets of `b`, and
`set` alone is an object of that name.

A boolean may be spelled `bool` or `boolean`; it is written `boolean`.
-/

namespace SchemaLang

inductive Primitive where
  | string
  | int
  | boolean
  | long
  | timestamp
  | binary
  | byte
  | real
  /-- Any primitive value. -/
  | primitive
deriving DecidableEq

namespace Primitive

def name : Primitive → String
  | string => "string"
  | int => "int"
  | boolean => "boolean"
  | long => "long"
  | timestamp => "timestamp"
  | binary => "binary"
  | byte => "byte"
  | real => "real"
  | primitive => "primitive"

def all : List Primitive :=
  [string, int, boolean, long, timestamp, binary, byte, real, primitive]

/-- The primitive of a name; `bool` is a second name of `boolean`. -/
def ofName? (text : String) : Option Primitive :=
  if text = "bool" then some boolean else all.find? fun p => p.name = text

theorem name_injective : ∀ {p q : Primitive}, p.name = q.name → p = q := by
  intro p q
  cases p <;> cases q <;> decide

theorem name_ne_bool (p : Primitive) : p.name ≠ "bool" := by cases p <;> decide

@[simp] theorem ofName?_name (p : Primitive) : ofName? p.name = some p := by
  cases p <;> decide

theorem ofName?_eq_some_iff {text : String} {p : Primitive} :
    ofName? text = some p ↔ text = p.name ∨ text = "bool" ∧ p = boolean := by
  constructor
  · intro h
    rw [ofName?] at h
    split at h
    · next hb => exact Or.inr ⟨hb, (Option.some.inj h).symm⟩
    · have hp := List.find?_some h
      exact Or.inl (by simpa [eq_comm] using hp)
  · rintro (rfl | ⟨rfl, rfl⟩)
    · exact ofName?_name p
    · rfl

end Primitive

inductive TypeExpr where
  | primitive (kind : Primitive)
  | object (name : String)
  | set (members : TypeExpr)
  | list (members : TypeExpr)
  | map (key value : TypeExpr)
deriving DecidableEq

namespace TypeExpr

def segments (word : String) : List String :=
  (word.toList.splitOn ':').map String.ofList

/-- The type that a segment is when nothing follows it. -/
def leaf (segment : String) : TypeExpr :=
  match Primitive.ofName? segment with
  | some p => primitive p
  | none => object segment

/-- The type that a segment makes of the type after it. -/
def wrap (segment : String) (rest : TypeExpr) : TypeExpr :=
  if segment = "set" then set rest
  else if segment = "list" then list rest
  else map (leaf segment) rest

def ofSegments : List String → TypeExpr
  | [] => leaf ""
  | [s] => leaf s
  | s :: t :: r => wrap s (ofSegments (t :: r))

/-- **The type that a word spells.**  Every word spells one. -/
def ofText (word : String) : TypeExpr := ofSegments (segments word)

/-- A type as a word of schema text. -/
def text : TypeExpr → String
  | primitive p => p.name
  | object name => name
  | set members => "set:" ++ members.text
  | list members => "list:" ++ members.text
  | map key value => key.text ++ ":" ++ value.text

def references : TypeExpr → List String
  | primitive _ => []
  | object name => [name]
  | set members => members.references
  | list members => members.references
  | map key value => key.references ++ value.references

def objectName? : TypeExpr → Option String
  | object name => some name
  | _ => none

/-- How deep sets, lists and maps nest in a type. -/
def depth : TypeExpr → Nat
  | primitive _ => 0
  | object _ => 0
  | set members => members.depth + 1
  | list members => members.depth + 1
  | map key value => max key.depth value.depth + 1

@[simp] theorem depth_leaf (segment : String) : (leaf segment).depth = 0 := by
  rw [leaf]; split <;> rfl

theorem depth_ofSegments : ∀ segments : List String,
    (ofSegments segments).depth = segments.length - 1
  | [] => depth_leaf ""
  | [s] => depth_leaf s
  | s :: t :: r => by
    have ih := depth_ofSegments (t :: r)
    have hw : ∀ rest, (wrap s rest).depth = rest.depth + 1 := by
      intro rest
      rw [wrap]
      split
      · rfl
      · split
        · rfl
        · rw [depth, depth_leaf, Nat.zero_max]
    rw [ofSegments, hw, ih]
    simp

end TypeExpr
end SchemaLang
