import SchemaLang.Proofs.Declaration.Block
import SchemaLang.Proofs.TypeText

/-!
# What a type mentions, and how deep it nests

Both are read off the word that spells the type, without reading the type itself.  A segment
mentions an object unless it is the name of a primitive, or opens a set or a list: `set` and `list`
do that where a further segment follows, and are names of objects at the end.  Each colon is one
level of depth, whichever of the collections it belongs to.

So it is right to look for types that nest too deep by counting colons, before any type is read.

* `references_ofSegments`: the mentions of a row of segments.
* `depth_ofText`: depth is the number of colons.
* `Property.ofNode_eq_typeTooDeep_iff`: which lines are refused for the depth of their type.
-/

namespace SchemaLang

namespace TypeExpr

/-! ### Mentions -/

theorem references_leaf (segment : String) :
    (leaf segment).references = if Primitive.ofName? segment = none then [segment] else [] := by
  rw [leaf]
  split
  · next p hp => rw [if_neg (by simp [hp])]; rfl
  · next hnone => rw [if_pos hnone]; rfl

theorem references_wrap (segment : String) (rest : TypeExpr) :
    (wrap segment rest).references =
      (if ¬(segment = "set" ∨ segment = "list") ∧ Primitive.ofName? segment = none then [segment]
        else []) ++ rest.references := by
  rw [wrap]
  by_cases hset : segment = "set"
  · rw [if_pos hset, if_neg (by simp [hset])]
    rfl
  · by_cases hlist : segment = "list"
    · rw [if_neg hset, if_pos hlist, if_neg (by simp [hlist])]
      rfl
    · rw [if_neg hset, if_neg hlist, references, references_leaf]
      simp [hset, hlist]

/-- Segment `i` of `n` segments mentions an object: it does not open a set or a list with the
segment after it, and it is not the name of a primitive. -/
def Mentions (n : Nat) (segment : String) (i : Nat) : Prop :=
  ¬((segment = "set" ∨ segment = "list") ∧ i + 1 < n) ∧ Primitive.ofName? segment = none

instance (n : Nat) (segment : String) (i : Nat) : Decidable (Mentions n segment i) :=
  inferInstanceAs (Decidable (_ ∧ _))

/-- **A type mentions what its segments mention.**  The segments are counted from `k`, so that
those behind the first one can be counted on. -/
theorem references_ofSegments : ∀ (segments : List String) (k : Nat), segments ≠ [] →
    (ofSegments segments).references =
      ((segments.zipIdx k).filter fun x => Mentions (k + segments.length) x.1 x.2).map Prod.fst
  | [], _, h => absurd rfl h
  | [s], k, _ => by
    have hlast : Mentions (k + 1) s k ↔ Primitive.ofName? s = none := by simp [Mentions]
    rw [ofSegments, references_leaf, List.zipIdx_singleton, List.filter_singleton]
    by_cases hs : Primitive.ofName? s = none
    · simp [hlast, hs]
    · simp [hlast, hs]
  | s :: t :: r, k, _ => by
    have ih := references_ofSegments (t :: r) (k + 1) (List.cons_ne_nil t r)
    have hlength : k + (s :: t :: r).length = k + 1 + (t :: r).length := by
      simp only [List.length_cons]
      omega
    -- something follows the first segment
    have hfirst : Mentions (k + 1 + (t :: r).length) s k ↔
        ¬(s = "set" ∨ s = "list") ∧ Primitive.ofName? s = none := by
      simp [Mentions]
    have hcons : (s :: t :: r).zipIdx k = (s, k) :: (t :: r).zipIdx (k + 1) := List.zipIdx_cons
    rw [ofSegments, references_wrap, ih, hlength, hcons, List.filter_cons]
    by_cases hs : ¬(s = "set" ∨ s = "list") ∧ Primitive.ofName? s = none
    · rw [if_pos hs, if_pos (decide_eq_true (hfirst.2 hs)), List.map_cons]
      rfl
    · rw [if_neg hs, if_neg (mt of_decide_eq_true (mt hfirst.1 hs)), List.nil_append]

theorem references_ofText (word : String) :
    (ofText word).references =
      ((segments word).zipIdx.filter fun x => Mentions (segments word).length x.1 x.2).map
        Prod.fst := by
  have h := references_ofSegments (segments word) 0 (segments_ne_nil word)
  rwa [Nat.zero_add] at h

/-! ### Depth -/

/-- **Each colon is one level of depth.** -/
theorem depth_ofText (word : String) : (ofText word).depth = word.toList.count ':' := by
  rw [ofText, depth_ofSegments, length_segments, Nat.add_sub_cancel]

end TypeExpr

open Outline (Node)

variable {options : Options} {owner object property : String} {limit : Nat} {node : Node}

/-- **A line is refused for the depth of its type** when it has no lines below it, its code is one,
and its type nests deeper than is allowed. -/
theorem Property.ofNode_eq_typeTooDeep_iff :
    Property.ofNode options owner node = .error (.typeTooDeep object property limit) ↔
      node.children = [] ∧ (∃ code, node.propertyCode? = some code) ∧
        (∃ word, node.words[1]? = some word ∧ maxTypeDepth < (TypeExpr.ofText word).depth) ∧
        object = owner ∧ node.name? = some property ∧ limit = maxTypeDepth := by
  have hnone : ¬∃ code : Code, none = some code := by simp
  obtain ⟨words, children, line, lineNumber⟩ := node
  cases children with
  | cons c cs => exact ⟨fun h => (by cases h), fun h => (by cases h.1)⟩
  | nil =>
    match words with
    | [] => exact ⟨fun h => (by cases h), fun h => absurd h.2.1 hnone⟩
    | [_] => exact ⟨fun h => (by cases h), fun h => absurd h.2.1 hnone⟩
    | [_, _] => exact ⟨fun h => (by cases h), fun h => absurd h.2.1 hnone⟩
    | name :: word :: codeWord :: tags =>
      have hcode : Node.propertyCode? ⟨name :: word :: codeWord :: tags, [], line, lineNumber⟩ =
        Code.ofText? codeWord := rfl
      rw [Property.ofNode, if_neg (by simp), hcode]
      cases hc : Code.ofText? codeWord with
      | none => exact ⟨fun h => (by simp [hc] at h), fun h => absurd h.2.1 hnone⟩
      | some code =>
        simp only [hc, true_and]
        by_cases hd : maxTypeDepth < word.toList.count ':'
        · rw [if_pos hd, Except.error.injEq, CompileError.typeTooDeep.injEq]
          constructor
          · rintro ⟨rfl, rfl, rfl⟩
            refine ⟨⟨code, rfl⟩, ⟨word, rfl, ?_⟩, rfl, rfl, rfl⟩
            rw [TypeExpr.depth_ofText]
            exact hd
          · rintro ⟨_, _, rfl, hname, rfl⟩
            cases hname
            exact ⟨rfl, rfl, rfl⟩
        · rw [if_neg hd]
          constructor
          · intro h
            split at h
            · cases h
            · cases h
          · rintro ⟨_, ⟨type, htype, hdeep⟩, _⟩
            cases htype
            rw [TypeExpr.depth_ofText] at hdeep
            exact absurd hdeep hd

/-- **Mentions and depth are read off the word.**  A type mentions, in order and with repetitions,
the segments that are not the name of a primitive and do not open a set or a list with a further
segment.  It nests as deep as there are colons, one less than there are segments.  So a line whose
other words are in order is refused by the colons of its type exactly when the type nests too
deep. -/
theorem TypeExpr.ofText_mentions_depth :
    (∀ word : String,
      (ofText word).references =
        ((segments word).zipIdx.filter fun x =>
          ¬((x.1 = "set" ∨ x.1 = "list") ∧ x.2 + 1 < (segments word).length) ∧
            Primitive.ofName? x.1 = none).map Prod.fst ∧
      (ofText word).depth = (segments word).length - 1 ∧
      (ofText word).depth = word.toList.count ':') ∧
    ∀ (options : Options) (owner object property : String) (limit : Nat) (node : Node),
      Property.ofNode options owner node = .error (.typeTooDeep object property limit) ↔
        node.children = [] ∧ (∃ code, node.propertyCode? = some code) ∧
          (∃ word, node.words[1]? = some word ∧ maxTypeDepth < (ofText word).depth) ∧
          object = owner ∧ node.name? = some property ∧ limit = maxTypeDepth := by
  refine ⟨fun word => ⟨references_ofText word, ?_, depth_ofText word⟩, fun _ _ _ _ _ _ => ?_⟩
  · rw [ofText, depth_ofSegments]
  · exact Property.ofNode_eq_typeTooDeep_iff

example : (TypeExpr.ofText "set:list:set:a:bool:list").references = ["a", "list"] := by decide

end SchemaLang
