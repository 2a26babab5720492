import Mathlib.Data.List.Forall2
import SchemaLang.Declaration
import SchemaLang.Outline.Reader
import SchemaLang.Proofs.Outcome

/-!
# Outlines that are alike

Two nodes are alike when they differ only in how they are laid out: they have the same words, both
or neither of their lines assign, and the nodes below them are alike.  Two rows are alike at a
shift `k` when they have the same words, and the second one stands `k` blanks further in.

Reading keeps the two texts in step.  The levels that are open are shifted like the rows, so that a
row fits the ones exactly when its like fits the others (`fits_map_add`), and the trees that a row
adopts are the likes of those that its like adopts (`adopt_alike`).

* `checkMargins_alike`: rows that are alike have margins that are good or bad alike.
* `forest_alike`: the forests of rows that are alike are alike.
-/

namespace SchemaLang.Outline

open List (Forall₂)

/-- Two nodes that differ only in how they are laid out. -/
inductive Node.Alike : Node → Node → Prop
  | intro {a b : Node} (words : a.words = b.words)
      (assigns : assigns a.line.toList = assigns b.line.toList)
      (children : Forall₂ Node.Alike a.children b.children) : Node.Alike a b

/-- The second row has the words of the first one and stands `k` blanks further in. -/
structure Row.Alike (k : Nat) (r s : Row) : Prop where
  words : Text.words r.line = Text.words s.line
  assigns : SchemaLang.assigns r.line = SchemaLang.assigns s.line
  width : s.width = r.width + k
  mixed : r.mixed = s.mixed

variable {k : Nat} {r s : Row} {rows rows' : List Row}

/-! ### Margins -/

theorem fits_map_add (width k : Nat) (levels : List Nat) :
    fits (width + k) (levels.map (· + k)) = fits width levels := by
  have hclosed : (levels.map (· + k)).takeWhile (fun w => decide (width + k ≤ w)) =
      (levels.takeWhile fun w => decide (width ≤ w)).map (· + k) := by
    rw [List.takeWhile_map]
    refine congrArg (List.map (· + k)) (congrArg (List.takeWhile · levels) ?_)
    funext w
    simp
  rw [fits, fits, hclosed, List.getLast?_map]
  cases (levels.takeWhile fun w => decide (width ≤ w)).getLast? with
  | none => rfl
  | some w => simp

theorem reopen_map_add (width k : Nat) (levels : List Nat) :
    reopen (width + k) (levels.map (· + k)) = (reopen width levels).map (· + k) := by
  rw [reopen, reopen, List.map_cons, List.dropWhile_map]
  refine congrArg (fun l => (width + k) :: l.map (· + k)) (congrArg (List.dropWhile · levels) ?_)
  funext w
  simp

/-- **The margins of rows that are alike are good or bad alike**, when the open levels are shifted
like the rows. -/
theorem checkMargins_alike (h : Forall₂ (Row.Alike k) rows rows') (levels : List Nat) :
    (checkMargins levels rows).mapError Error.unnumbered =
      (checkMargins (levels.map (· + k)) rows').mapError Error.unnumbered := by
  induction h generalizing levels with
  | nil => rfl
  | @cons r s _ _ hrow _ ih =>
    rw [checkMargins, checkMargins, ← hrow.mixed, hrow.width, fits_map_add, reopen_map_add]
    by_cases hmixed : r.mixed = true
    · rw [if_pos hmixed, if_pos hmixed]
      rfl
    · rw [if_neg hmixed, if_neg hmixed]
      by_cases hfits : fits r.width levels = true
      · rw [if_pos hfits, if_pos hfits]
        exact ih (reopen r.width levels)
      · rw [if_neg hfits, if_neg hfits]
        rfl

/-! ### Forests -/

section While

variable {α β : Type} {R : α → β → Prop} {p : α → Bool} {q : β → Bool} {l : List α} {m : List β}

theorem forall₂_takeWhile (h : Forall₂ R l m) (hpq : ∀ a b, R a b → p a = q b) :
    Forall₂ R (l.takeWhile p) (m.takeWhile q) := by
  induction h with
  | nil => exact .nil
  | @cons a b _ _ hab _ ih =>
    rw [List.takeWhile_cons, List.takeWhile_cons, hpq a b hab]
    split
    · exact .cons hab ih
    · exact .nil

theorem forall₂_dropWhile (h : Forall₂ R l m) (hpq : ∀ a b, R a b → p a = q b) :
    Forall₂ R (l.dropWhile p) (m.dropWhile q) := by
  induction h with
  | nil => exact .nil
  | @cons a b _ _ hab hrest ih =>
    rw [List.dropWhile_cons, List.dropWhile_cons, hpq a b hab]
    split
    · exact ih
    · exact .cons hab hrest

end While

def TreeAlike (k : Nat) (t u : Nat × Node) : Prop := u.1 = t.1 + k ∧ t.2.Alike u.2

theorem Row.Alike.node (h : Row.Alike k r s) {children children' : List Node}
    (hc : Forall₂ Node.Alike children children') : (r.node children).Alike (s.node children') := by
  refine .intro ?_ ?_ hc
  · show wordsOf (String.ofList r.line) = wordsOf (String.ofList s.line)
    rw [wordsOf, wordsOf, String.toList_ofList, String.toList_ofList, h.words]
  · show SchemaLang.assigns (String.ofList r.line).toList =
      SchemaLang.assigns (String.ofList s.line).toList
    rw [String.toList_ofList, String.toList_ofList, h.assigns]

theorem adopt_alike (h : Row.Alike k r s) {trees trees' : List (Nat × Node)}
    (ht : Forall₂ (TreeAlike k) trees trees') :
    Forall₂ (TreeAlike k) (adopt r trees) (adopt s trees') := by
  have hwider : ∀ t u : Nat × Node, TreeAlike k t u →
      decide (r.width < t.1) = decide (s.width < u.1) := fun t u htu => by
    rw [h.width, htu.1]
    simp
  rw [adopt, adopt]
  refine .cons ⟨h.width, h.node ?_⟩ (forall₂_dropWhile ht hwider)
  rw [List.forall₂_map_left_iff, List.forall₂_map_right_iff]
  exact (forall₂_takeWhile ht hwider).imp fun _ _ htu => htu.2

/-- **The forests of rows that are alike are alike.** -/
theorem forest_alike (h : Forall₂ (Row.Alike k) rows rows') :
    Forall₂ Node.Alike (forest rows) (forest rows') := by
  have htrees : Forall₂ (TreeAlike k) (rows.foldr adopt []) (rows'.foldr adopt []) := by
    induction h with
    | nil => exact .nil
    | cons hrow _ ih => exact adopt_alike hrow ih
  rw [forest, forest, List.forall₂_map_left_iff, List.forall₂_map_right_iff]
  exact htrees.imp fun _ _ htu => htu.2

end SchemaLang.Outline
