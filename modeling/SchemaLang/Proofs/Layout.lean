import SchemaLang.Proofs.Declaration.Alike
import SchemaLang.Proofs.Outline.Layout
import Mathlib.Logic.Relation

/-!
# Layout does not matter

A text that is laid out anew, once or in many steps, has rows that are alike to those of the text
it comes from.  Its margins are therefore good or bad alike, its nodes are alike, and what they
declare has the same outcome.
-/

namespace SchemaLang

open Relation (ReflTransGen)

variable {options : Options} {source edited : String}

/-- **Texts whose rows are alike** compile to one schema, or fail with one error up to line
numbers. -/
theorem compileText_alike {k : Nat}
    (h : List.Forall₂ (Outline.Row.Alike k) (Outline.rows source) (Outline.rows edited)) :
    SameOutcome (compileText options source).result (compileText options edited).result := by
  have hcompile := @compile_alike options _ _ (Outline.forest_alike h)
  have hmargins := Outline.checkMargins_alike h []
  rw [List.map_nil] at hmargins
  rw [compileText, compileText, Outline.read, Outline.read]
  cases hx : Outline.checkMargins [] (Outline.rows source) with
  | ok a =>
    cases hy : Outline.checkMargins [] (Outline.rows edited) with
    | ok b => exact hcompile
    | error e => rw [hx, hy] at hmargins; cases hmargins
  | error e =>
    cases hy : Outline.checkMargins [] (Outline.rows edited) with
    | ok b => rw [hx, hy] at hmargins; cases hmargins
    | error e' =>
      rw [hx, hy] at hmargins
      exact .of_error (congrArg CompileError.outline (Except.error.inj hmargins))

/-- **Layout does not matter.**  A text that is laid out anew compiles to the schema of the text it
comes from, or fails with its error, in which the number of a line may have changed. -/
theorem compileText_relaid (h : ReflTransGen Outline.Relaid source edited) :
    SameOutcome (compileText options source).result (compileText options edited).result := by
  induction h with
  | refl => exact .refl _
  | tail _ hstep ih =>
    obtain ⟨k, hrows⟩ := Outline.exists_rows_alike hstep
    exact ih.trans (compileText_alike hrows)

def plainText : String := "thing 1\n\tid int 1\nsub 2 thing"

/-- The same with a comment and a blank line in front, other line ends, and two tabs further in. -/
def laidOutText : String :=
  "\t\t // things\r\n\t\t\r\n\t\tthing 1\r\n\t\t\tid int 1\r\n\t\tsub 2 thing"

theorem laidOutText_compiles : ∃ s, (compileText {} plainText).result = .ok s ∧
    (compileText {} laidOutText).result = .ok s := by
  let headed := " // things\n\nthing 1\n\tid int 1\nsub 2 thing"
  let ended := " // things\r\n\r\nthing 1\r\n\tid int 1\r\nsub 2 thing"
  have hheaded : Outline.Relaid plainText headed := by
    refine .passedOver [] [] [" // things".toList, []] (Text.stretches plainText) ?_ ?_ ?_ ?_
    all_goals decide
  have hlines : Text.stretches ended = [" // things\r".toList, "\r".toList, "thing 1\r".toList,
      "\tid int 1\r".toList, "sub 2 thing".toList] := by decide
  have hended : Outline.Relaid headed ended := by
    have hstart : Text.stretches headed = [" // things".toList, [], "thing 1".toList,
      "\tid int 1".toList, "sub 2 thing".toList] := by decide
    refine .trailing ?_
    rw [hstart, hlines]
    have hcr : ∀ c ∈ ['\r'], Text.isBlank c = true := List.forall_mem_singleton.2 (by decide)
    exact .cons ⟨['\r'], by decide, hcr⟩ (.cons ⟨['\r'], by decide, hcr⟩
      (.cons ⟨['\r'], by decide, hcr⟩ (.cons ⟨['\r'], by decide, hcr⟩
        (.cons ⟨[], by decide, List.forall_mem_nil _⟩ .nil))))
  have hinner : Outline.Relaid ended laidOutText := by
    refine .indented 2 '\t' ' ' (Or.inl rfl) ?_ ?_
    · rw [hlines]
      decide
    · have hmap : Text.stretches laidOutText =
          (Text.stretches ended).map (List.replicate 2 '\t' ++ ·) := by decide
      rw [hmap, List.forall₂_map_right_iff]
      exact List.forall₂_same.2 fun l _ => Or.inl rfl
  have hsteps : ReflTransGen Outline.Relaid plainText laidOutText :=
    ((ReflTransGen.single hheaded).tail hended).tail hinner
  have hok : (compileText {} plainText).result.toOption.isSome := by decide +kernel
  rcases SameOutcome.cases_iff.1 (compileText_relaid hsteps) with hsame | ⟨e, _, he, _⟩
  · exact hsame
  · rw [he] at hok
    cases hok

end SchemaLang
