import SchemaLang.Proofs.TypeReading

/-!
# Canonical types

Every word is read as a type, but there are types that no word is read as.  A key with colons in
its text would be cut at them, a key `set` or `list` would be taken for a collection, and an object
with the name of a primitive would be read as that primitive.  A type without any of these is
*canonical*.

* `canonical_ofText`: what a word is read as is canonical.
* `Canonical.ofText_text`: a canonical type is read back from its text.
* `ofText_image`: so the canonical types are those that words are read as, and two words are read
  as one type when they differ in the spelling of `bool` only.
-/

namespace SchemaLang

theorem Primitive.colon_not_mem_name (p : Primitive) : ':' ∉ p.name.toList := by
  cases p <;> decide

namespace TypeExpr

variable {t key value : TypeExpr} {segment : String}

/-- The type can be the key of a map: it is a leaf, and its text does not start a collection. -/
def IsKey : TypeExpr → Prop
  | primitive _ => True
  | object name => name ≠ "set" ∧ name ≠ "list"
  | _ => False

/-- **A type that its text spells**: no object has a colon in its name or the name of a primitive,
and all keys of maps can be keys. -/
def Canonical : TypeExpr → Prop
  | primitive _ => True
  | object name => ':' ∉ name.toList ∧ Primitive.ofName? name = none
  | set members => members.Canonical
  | list members => members.Canonical
  | map key value => key.IsKey ∧ key.Canonical ∧ value.Canonical

instance : DecidablePred IsKey
  | primitive _ => .isTrue trivial
  | object name => inferInstanceAs (Decidable (name ≠ "set" ∧ name ≠ "list"))
  | set _ => .isFalse id
  | list _ => .isFalse id
  | map _ _ => .isFalse id

instance decidableCanonical : DecidablePred Canonical
  | primitive _ => .isTrue trivial
  | object name =>
    inferInstanceAs (Decidable (':' ∉ name.toList ∧ Primitive.ofName? name = none))
  | set members => decidableCanonical members
  | list members => decidableCanonical members
  | map key value =>
    have := decidableCanonical key
    have := decidableCanonical value
    inferInstanceAs (Decidable (key.IsKey ∧ key.Canonical ∧ value.Canonical))

/-! ### What is read is canonical -/

theorem canonical_leaf (h : ':' ∉ segment.toList) : (leaf segment).Canonical := by
  rw [leaf]
  split
  · exact trivial
  · next hnone => exact ⟨h, hnone⟩

theorem isKey_leaf (hset : segment ≠ "set") (hlist : segment ≠ "list") :
    (leaf segment).IsKey := by
  rw [leaf]
  split
  · exact trivial
  · exact ⟨hset, hlist⟩

theorem canonical_wrap (h : ':' ∉ segment.toList) (ht : t.Canonical) :
    (wrap segment t).Canonical := by
  rw [wrap]
  split
  · exact ht
  · next hset =>
    split
    · exact ht
    · next hlist => exact ⟨isKey_leaf hset hlist, canonical_leaf h, ht⟩

theorem canonical_ofSegments : ∀ {segments : List String}, (∀ s ∈ segments, ':' ∉ s.toList) →
    (ofSegments segments).Canonical
  | [], _ => canonical_leaf (by decide)
  | [s], h => canonical_leaf (h s List.mem_cons_self)
  | s :: t :: r, h => by
    have ih : (ofSegments (t :: r)).Canonical :=
      canonical_ofSegments fun u hu => h u (List.mem_cons_of_mem s hu)
    rw [ofSegments]
    exact canonical_wrap (h s List.mem_cons_self) ih

/-- **What a word is read as is canonical.** -/
theorem canonical_ofText (word : String) : (ofText word).Canonical :=
  canonical_ofSegments fun _ => colon_not_mem_of_mem_segments

/-! ### What is canonical is read back -/

theorem IsKey.text_segment (hkey : key.IsKey) (h : key.Canonical) :
    ':' ∉ key.text.toList ∧ key.text ≠ "set" ∧ key.text ≠ "list" := by
  cases key with
  | primitive p =>
    refine ⟨p.colon_not_mem_name, ?_⟩
    cases p <;> decide
  | object name => exact ⟨h.1, hkey⟩
  | set members => exact hkey.elim
  | list members => exact hkey.elim
  | map key value => exact hkey.elim

/-- **A canonical type is read back from its text.** -/
theorem Canonical.ofText_text (h : t.Canonical) : ofText t.text = t := by
  induction t with
  | primitive p =>
    rw [text, ofText_of_no_colon p.colon_not_mem_name, leaf, Primitive.ofName?_name]
  | object name => rw [text, ofText_of_no_colon h.1, leaf, h.2]
  | set members ih => rw [text, ofText_set, ih h]
  | list members ih => rw [text, ofText_list, ih h]
  | map key value ihkey ihvalue =>
    obtain ⟨hkey, hcanonical, hvalue⟩ := h
    obtain ⟨hcolon, hset, hlist⟩ := hkey.text_segment hcanonical
    rw [text, ofText_map hcolon hset hlist, ihkey hcanonical, ihvalue hvalue]

/-! ### The image of reading -/

/-- **The canonical types are those that are read back from their texts, and those that some word
is read as.**  Two words are read as the same type exactly when they become equal once each segment
`bool` is spelled `boolean`. -/
theorem ofText_image :
    (∀ t : TypeExpr, (ofText t.text = t ↔ t.Canonical) ∧
      (t.Canonical ↔ ∃ word, t = ofText word)) ∧
    ∀ a b : String, ofText a = ofText b ↔
      ":".intercalate ((segments a).map fun s => if s = "bool" then "boolean" else s) =
        ":".intercalate ((segments b).map fun s => if s = "bool" then "boolean" else s) := by
  refine ⟨fun t => ⟨⟨fun h => ?_, Canonical.ofText_text⟩, fun h => ?_, ?_⟩, fun a b => ?_⟩
  · rw [← h]
    exact canonical_ofText t.text
  · exact ⟨t.text, h.ofText_text.symm⟩
  · rintro ⟨word, rfl⟩
    exact canonical_ofText word
  · have hrespelled : ∀ word : String, (ofText word).text =
        ":".intercalate ((segments word).map fun s => if s = "bool" then "boolean" else s) :=
      text_ofText
    rw [← hrespelled, ← hrespelled]
    constructor
    · exact congrArg text
    · intro h
      rw [← ofText_text_ofText a, h, ofText_text_ofText]

example : ¬(map (set (object "a")) (object "b")).Canonical ∧ (list (object "set")).Canonical := by
  decide

end TypeExpr
end SchemaLang
