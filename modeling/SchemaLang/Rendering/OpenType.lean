import SchemaLang.TypeExpr

/-!
# Open types

A renderer also serves type models that it does not know in full.  An open type has
the shapes of a type expression, with primitives and objects under any name, and
one shape more: a type of some foreign kind `υ`, about which only a *handler* can
say how it is written.

The handler may keep a state.  It is asked once for each foreign type, from left to
right; where it has no answer, rendering stops with that foreign type as the error.
-/

namespace SchemaLang

/-- A type whose leaves may be of a foreign kind. -/
inductive OpenType (υ : Type) where
  | primitive (name : String)
  | object (name : String)
  | set (members : OpenType υ)
  | list (members : OpenType υ)
  | map (key value : OpenType υ)
  | foreign (type : υ)
deriving Inhabited

structure Unhandled (υ : Type) where
  type : υ

def Unhandled.message {υ : Type} (describe : υ → String) (e : Unhandled υ) : String :=
  "no unknown type handler result for: " ++ describe e.type

/-- What writes foreign types: it may keep a state and may have no answer. -/
abbrev Handler (σ υ : Type) := υ → StateM σ (Option String)

/-- A computation that asks a handler and stops where it has no answer. -/
abbrev Rendering (σ υ α : Type) := ExceptT (Unhandled υ) (StateM σ) α

/-- **The text of an open type.** -/
def OpenType.render {σ υ : Type} (handler : Handler σ υ) : OpenType υ → Rendering σ υ String
  | primitive name => pure name
  | object name => pure name
  | set members => do
    let m ← members.render handler
    return "set:" ++ m
  | list members => do
    let m ← members.render handler
    return "list:" ++ m
  | map key value => do
    let k ← key.render handler
    let v ← value.render handler
    return k ++ ":" ++ v
  | foreign type => do
    match ← handler type with
    | some text => return text
    | none => throw ⟨type⟩

def TypeExpr.toOpen {υ : Type} : TypeExpr → OpenType υ
  | primitive p => .primitive p.name
  | object name => .object name
  | set members => .set members.toOpen
  | list members => .list members.toOpen
  | map key value => .map key.toOpen value.toOpen

/-- **A type expression renders as its text,** and no handler is asked. -/
@[simp] theorem TypeExpr.render_toOpen {σ υ : Type} (handler : Handler σ υ) :
    ∀ t : TypeExpr, t.toOpen.render handler = pure t.text
  | primitive _ => rfl
  | object _ => rfl
  | set members => by simp [toOpen, OpenType.render, render_toOpen handler members, text]
  | list members => by simp [toOpen, OpenType.render, render_toOpen handler members, text]
  | map key value => by
    simp [toOpen, OpenType.render, render_toOpen handler key, render_toOpen handler value, text]

end SchemaLang
