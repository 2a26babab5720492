import SchemaLang.CompileError

/-!
# Logged computations

Compiling keeps a log.  A record says what was done, to what, and has a level.

`Logged α` is a computation that ends with an `α` or with a compile error, and has
written records on the way.  The records of a computation that fails are kept: in
a sequence, the log is that of the first part followed, if the first part
succeeds, by that of the second.

* `result_bind`, `log_bind_of_ok`, `log_bind_of_error`: what a sequence does to the two sides.
* `result_bind_eq_ok_iff`: a sequence succeeds through its parts.
-/

namespace SchemaLang

inductive LogLevel where
  | trace
  | debug
  | warn
deriving DecidableEq

def LogLevel.name : LogLevel → String
  | trace => "TRACE"
  | debug => "DEBUG"
  | warn => "WARN"

inductive LogRecord where
  /-- Compiling starts on so many top-level nodes. -/
  | building (count : Nat)
  /-- A derived declaration was passed over. -/
  | skipping (line : Nat)
  /-- A further block of an object was met. -/
  | merging (object : String)
  | validating
  | resolving
  /-- An object took over a property of a super type. -/
  | inherits (object owner property : String)
  /-- A super type is not declared and counts for nothing. -/
  | undeclaredSuperType (superType object : String)
deriving DecidableEq

namespace LogRecord

def level : LogRecord → LogLevel
  | inherits _ _ _ => .trace
  | undeclaredSuperType _ _ => .warn
  | _ => .debug

def message : LogRecord → String
  | building count => s!"building {count} declarations"
  | skipping line => s!"skipping derived declaration on line {line}"
  | merging object => s!"merging another declaration block into `{object}`"
  | validating => "validating references"
  | resolving => "resolving inheritance"
  | inherits object owner property => s!"`{object}` inherits `{owner}.{property}`"
  | undeclaredSuperType superType object =>
    s!"super type `{superType}` of `{object}` is not declared; ignoring"

def line (r : LogRecord) : String := r.level.name ++ " " ++ r.message

end LogRecord

/-- A computation that keeps a log and may fail. -/
structure Logged (α : Type) where
  log : List LogRecord
  result : Except CompileError α

namespace Logged

variable {α β : Type}

@[ext] theorem ext {x y : Logged α} (hl : x.log = y.log) (hr : x.result = y.result) : x = y := by
  cases x; cases y; cases hl; cases hr; rfl

protected def pure (a : α) : Logged α := ⟨[], .ok a⟩

protected def bind (x : Logged α) (f : α → Logged β) : Logged β :=
  match x.result with
  | .ok a => ⟨x.log ++ (f a).log, (f a).result⟩
  | .error e => ⟨x.log, .error e⟩

instance : Monad Logged where
  pure := Logged.pure
  bind := Logged.bind

def fail (e : CompileError) : Logged α := ⟨[], .error e⟩

def tell (r : LogRecord) : Logged Unit := ⟨[r], .ok ()⟩

def ofExcept (x : Except CompileError α) : Logged α := ⟨[], x⟩

instance : MonadLift (Except CompileError) Logged := ⟨ofExcept⟩

@[simp] theorem log_pure (a : α) : (pure a : Logged α).log = [] := rfl
@[simp] theorem result_pure (a : α) : (pure a : Logged α).result = .ok a := rfl
@[simp] theorem log_fail (e : CompileError) : (fail e : Logged α).log = [] := rfl
@[simp] theorem result_fail (e : CompileError) : (fail e : Logged α).result = .error e := rfl
@[simp] theorem log_tell (r : LogRecord) : (tell r).log = [r] := rfl
@[simp] theorem result_tell (r : LogRecord) : (tell r).result = .ok () := rfl
@[simp] theorem log_ofExcept (x : Except CompileError α) : (ofExcept x).log = [] := rfl
@[simp] theorem result_ofExcept (x : Except CompileError α) : (ofExcept x).result = x := rfl

@[simp] theorem liftM_eq_ofExcept (x : Except CompileError α) :
    (liftM x : Logged α) = ofExcept x := rfl

@[simp] theorem result_bind (x : Logged α) (f : α → Logged β) :
    (x >>= f).result = x.result.bind fun a => (f a).result := by
  change (Logged.bind x f).result = _
  rw [Logged.bind]
  cases x.result <;> rfl

theorem log_bind_of_ok {x : Logged α} {a : α} (h : x.result = .ok a) (f : α → Logged β) :
    (x >>= f).log = x.log ++ (f a).log := by
  change (Logged.bind x f).log = _
  rw [Logged.bind, h]

theorem log_bind_of_error {x : Logged α} {e : CompileError} (h : x.result = .error e)
    (f : α → Logged β) : (x >>= f).log = x.log := by
  change (Logged.bind x f).log = _
  rw [Logged.bind, h]

/-- **A sequence succeeds through its parts.** -/
theorem result_bind_eq_ok_iff {x : Logged α} {f : α → Logged β} {b : β} :
    (x >>= f).result = .ok b ↔ ∃ a, x.result = .ok a ∧ (f a).result = .ok b := by
  rw [result_bind]
  cases x.result with
  | ok a => simp [Except.bind]
  | error e => simp [Except.bind]

private theorem map_id (x : Logged α) : id <$> x = x := by
  apply Logged.ext
  · cases h : x.result with
    | ok a => exact (log_bind_of_ok h _).trans (List.append_nil _)
    | error e => exact log_bind_of_error h _
  · exact (result_bind x _).trans (by cases x.result <;> rfl)

private theorem bind_bind {γ : Type} (x : Logged α) (f : α → Logged β) (g : β → Logged γ) :
    x >>= f >>= g = x >>= fun a => f a >>= g := by
  apply Logged.ext
  · cases h : x.result with
    | ok a =>
      rw [log_bind_of_ok h]
      cases h' : (f a).result with
      | ok b =>
        rw [log_bind_of_ok (a := b) (by rw [result_bind, h]; exact h'), log_bind_of_ok h,
          log_bind_of_ok h', List.append_assoc]
      | error e =>
        rw [log_bind_of_error (e := e) (by rw [result_bind, h]; exact h'), log_bind_of_ok h,
          log_bind_of_error h']
    | error e =>
      rw [log_bind_of_error h, log_bind_of_error (e := e) (by rw [result_bind, h]; rfl),
        log_bind_of_error h]
  · simp only [result_bind]
    cases x.result <;> rfl

instance : LawfulMonad Logged :=
  LawfulMonad.mk' Logged map_id (fun _ _ => Logged.ext rfl rfl) bind_bind

end Logged
end SchemaLang
