import SchemaLang.Proofs.Sequence
import Mathlib.Data.List.Forall2

/-!
# Outcomes up to line numbers

Some errors carry the number of a line, which moves when lines are put in above it.  Two
computations have the same outcome when they end with one value, or with two errors that differ
in the number of their line at most.

Sequences whose steps have the same outcome have the same outcome: `SameOutcome.bind` for two
steps, `SameOutcome.foldlM` for two lists of steps.
-/

namespace SchemaLang

def Outline.Error.unnumbered : Outline.Error → Outline.Error
  | mixedMargin _ => mixedMargin 0
  | badDedent _ => badDedent 0

def CompileError.unnumbered : CompileError → CompileError
  | outline cause => outline cause.unnumbered
  | incompleteObject _ => incompleteObject 0
  | incompleteProperty object _ => incompleteProperty object 0
  | e => e

variable {α β γ : Type}

/-- Both end with one value, or both with an error, which is the same up to line numbers. -/
def SameOutcome (x y : Except CompileError α) : Prop :=
  x.mapError CompileError.unnumbered = y.mapError CompileError.unnumbered

namespace SameOutcome

variable {x y z : Except CompileError α}

theorem refl (x : Except CompileError α) : SameOutcome x x := rfl

theorem trans (h : SameOutcome x y) (h' : SameOutcome y z) : SameOutcome x z := Eq.trans h h'

theorem of_error {e e' : CompileError} (h : e.unnumbered = e'.unnumbered) :
    SameOutcome (.error e : Except CompileError α) (.error e') :=
  congrArg Except.error h

theorem cases_iff : SameOutcome x y ↔
    (∃ a, x = .ok a ∧ y = .ok a) ∨
      ∃ e e', x = .error e ∧ y = .error e' ∧ e.unnumbered = e'.unnumbered := by
  cases x with
  | error e =>
    cases y with
    | error e' => simp [SameOutcome, Except.mapError]
    | ok b => simp [SameOutcome, Except.mapError]
  | ok a =>
    cases y with
    | error e' => simp [SameOutcome, Except.mapError]
    | ok b => simp [SameOutcome, Except.mapError, eq_comm]

theorem bind {f g : α → Except CompileError β} (h : SameOutcome x y)
    (hfg : ∀ a, SameOutcome (f a) (g a)) : SameOutcome (x.bind f) (y.bind g) := by
  rcases cases_iff.1 h with ⟨a, rfl, rfl⟩ | ⟨e, e', rfl, rfl, he⟩
  · exact hfg a
  · exact of_error he

/-- **Lists of steps**, each of which has the same outcome as its like, wherever it starts. -/
theorem foldlM {f : γ → α → Except CompileError γ} {g : γ → β → Except CompileError γ}
    {l : List α} {m : List β} (h : List.Forall₂ (fun a b => ∀ c, SameOutcome (f c a) (g c b)) l m)
    (c : γ) : SameOutcome (l.foldlM f c) (m.foldlM g c) := by
  induction h generalizing c with
  | nil => exact refl _
  | cons hab _ ih =>
    rw [List.foldlM_cons, List.foldlM_cons]
    exact (hab c).bind ih

end SameOutcome
end SchemaLang
