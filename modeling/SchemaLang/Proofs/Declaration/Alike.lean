import SchemaLang.Compile
import SchemaLang.Proofs.Outline.Alike

/-!
# Compiling outlines that are alike

The layout of an outline has no say in what it declares.  Nodes that are alike have headers and
properties with the same outcome, so each declaration of the one outline has the same outcome as
its like in the other, whatever schema it starts from, and the two outlines compile to one schema
or fail with one error up to line numbers (`compile_alike`).
-/

namespace SchemaLang

open List (Forall₂)
open Outline (Node)

variable {options : Options} {a b : Node} {nodes nodes' : List Node}

namespace Outline.Node.Alike

theorem words_eq (h : a.Alike b) : a.words = b.words := by
  cases h
  assumption

theorem children_alike (h : a.Alike b) : Forall₂ Node.Alike a.children b.children := by
  cases h
  assumption

theorem isEmpty_children (h : a.Alike b) : a.children.isEmpty = b.children.isEmpty := by
  have hlength := h.children_alike.length_eq
  rw [Bool.eq_iff_iff, List.isEmpty_iff_length_eq_zero, List.isEmpty_iff_length_eq_zero, hlength]

theorem isDerived_eq (h : a.Alike b) : isDerived a = isDerived b := by
  obtain ⟨hwords, hassigns, _⟩ := h
  rw [isDerived, isDerived, hwords, hassigns]

end Outline.Node.Alike

/-! ### One declaration -/

theorem Header.ofNode_alike (h : a.Alike b) :
    SameOutcome (Header.ofNode options a) (Header.ofNode options b) := by
  rw [Header.ofNode, Header.ofNode, h.words_eq]
  split
  · exact .refl _
  · exact .of_error rfl

theorem Property.ofNode_alike (h : a.Alike b) (owner : String) :
    SameOutcome (Property.ofNode options owner a) (Property.ofNode options owner b) := by
  rw [Property.ofNode, Property.ofNode, h.isEmpty_children, h.words_eq]
  split
  · exact .refl _
  · split
    · exact .refl _
    · exact .of_error rfl

theorem ObjectType.declareAll_alike (h : Forall₂ Node.Alike nodes nodes') (o : ObjectType) :
    SameOutcome (o.declareAll options nodes) (o.declareAll options nodes') := by
  refine SameOutcome.foldlM (h.imp fun a b hab o => ?_) o
  exact (Property.ofNode_alike hab o.name).bind fun p => .refl (o.declare p)

/-- **A declaration has the same outcome as its like.** -/
theorem Schema.declareUnlessDerived_alike (h : a.Alike b) (s : Schema) :
    SameOutcome (s.declareUnlessDerived options a).result
      (s.declareUnlessDerived options b).result := by
  rw [declareUnlessDerived, declareUnlessDerived, h.isDerived_eq]
  split
  · exact .refl (.ok s)
  · simp only [declare, Logged.result_bind, Logged.liftM_eq_ofExcept, Logged.result_ofExcept]
    refine (Header.ofNode_alike h).bind fun header => ?_
    refine (SameOutcome.refl (s.checkCode header)).bind fun _ => ?_
    exact (ObjectType.declareAll_alike h.children_alike header.object).bind fun block =>
      .refl (s.addBlock block).result

/-! ### All declarations -/

theorem declareAll_alike (h : Forall₂ Node.Alike nodes nodes') :
    SameOutcome (declareAll options nodes).result (declareAll options nodes').result := by
  rw [declareAll, declareAll, Logged.result_bind, Logged.result_bind, Logged.result_foldlM,
    Logged.result_foldlM]
  exact SameOutcome.foldlM (h.imp fun a b hab s => Schema.declareUnlessDerived_alike hab s) ∅

/-- **Outlines that are alike compile to one schema,** or fail with one error up to line
numbers. -/
theorem compile_alike (h : Forall₂ Node.Alike nodes nodes') :
    SameOutcome (compile options nodes).result (compile options nodes').result := by
  rw [compile, compile, Logged.result_bind, Logged.result_bind]
  exact (declareAll_alike h).bind fun d => .refl _

end SchemaLang
