import SchemaLang.Text.Blank
import SchemaLang.TypeExpr

/-!
# The text of a type

A type is written with the segments that spelled it, but for `bool`, which is written
`boolean` (`spell`).  So the segments of the text are the spelled segments of the word
(`segments_text_ofText`), and reading the text gives the type again (`ofText_text_ofText`).
-/

namespace SchemaLang.TypeExpr

def spell (segment : String) : String := if segment = "bool" then "boolean" else segment

/-! ### Segments -/

theorem text_leaf (s : String) : (leaf s).text = spell s := by
  rw [leaf, spell]
  split
  · next p hp =>
    rcases Primitive.ofName?_eq_some_iff.1 hp with rfl | ⟨rfl, rfl⟩
    · rw [if_neg p.name_ne_bool]; rfl
    · rfl
  · next hnone =>
    rw [if_neg]
    · rfl
    · rintro rfl
      cases hnone

theorem leaf_spell (s : String) : leaf (spell s) = leaf s := by
  rw [spell]
  split
  · next hs => rw [hs]; decide
  · rfl

theorem text_wrap (s : String) (t : TypeExpr) : (wrap s t).text = spell s ++ ":" ++ t.text := by
  rw [wrap]
  split
  · next hs => rw [hs]; rfl
  · split
    · next hs => rw [hs]; rfl
    · rw [text, text_leaf]

theorem wrap_spell (s : String) (t : TypeExpr) : wrap (spell s) t = wrap s t := by
  by_cases hs : s = "bool"
  · rw [hs]
    show wrap "boolean" t = wrap "bool" t
    rw [wrap, wrap]
    simp only [String.reduceEq, if_false]
    exact congrArg (map · t) (leaf_spell "bool")
  · rw [spell, if_neg hs]

theorem ofSegments_map_spell : ∀ segments : List String,
    ofSegments (segments.map spell) = ofSegments segments
  | [] => rfl
  | [s] => leaf_spell s
  | s :: t :: r => by
    have ih := ofSegments_map_spell (t :: r)
    rw [List.map_cons] at ih
    rw [List.map_cons, List.map_cons, ofSegments, ofSegments, wrap_spell, ih]

/-- **A type is written with its segments.** -/
theorem toList_text_ofSegments : ∀ {segments : List String}, segments ≠ [] →
    (ofSegments segments).text.toList =
      [':'].intercalate (segments.map fun s => (spell s).toList) := by
  intro segments
  induction segments with
  | nil => intro h; exact absurd rfl h
  | cons s r ih =>
    intro _
    cases r with
    | nil => rw [ofSegments, text_leaf, List.map_singleton, List.intercalate_singleton]
    | cons t r =>
      have iht := ih (List.cons_ne_nil t r)
      have hmap : (s :: t :: r).map (fun s => (spell s).toList) =
          (spell s).toList :: (spell t).toList :: r.map fun s => (spell s).toList := rfl
      rw [ofSegments, text_wrap, String.toList_append, String.toList_append, iht, hmap,
        List.intercalate_cons_cons]
      rfl

/-! ### Words -/

theorem segments_ne_nil (word : String) : segments word ≠ [] := by
  rw [segments, ne_eq, List.map_eq_nil_iff]
  exact List.splitOn_ne_nil ':' word.toList

theorem colon_not_mem_of_mem_segments {word s : String} (h : s ∈ segments word) :
    ':' ∉ s.toList := by
  obtain ⟨w, hw, rfl⟩ := List.mem_map.1 h
  rw [String.toList_ofList]
  rw [List.splitOn_eq_splitOnP] at hw
  intro hc
  exact absurd (Text.not_of_mem_splitOnP hw hc) (by decide)

theorem colon_not_mem_spell {s : String} (h : ':' ∉ s.toList) : ':' ∉ (spell s).toList := by
  rw [spell]
  split
  · decide
  · exact h

/-- **The text of a type has the segments that spelled it.** -/
theorem segments_text_ofText (word : String) :
    segments (ofText word).text = (segments word).map spell := by
  rw [segments, ofText, toList_text_ofSegments (segments_ne_nil word), List.splitOn_intercalate,
    List.map_map]
  · exact List.map_congr_left fun s _ => String.ofList_toList
  · intro l hl
    obtain ⟨s, hs, rfl⟩ := List.mem_map.1 hl
    exact colon_not_mem_spell (colon_not_mem_of_mem_segments hs)
  · rw [ne_eq, List.map_eq_nil_iff]
    exact segments_ne_nil word

/-- **Reading the text of a type gives the type again.** -/
theorem ofText_text_ofText (word : String) : ofText (ofText word).text = ofText word := by
  rw [ofText, segments_text_ofText, ofSegments_map_spell, ofText]

theorem length_segments (word : String) : (segments word).length = word.toList.count ':' + 1 := by
  rw [segments, List.length_map]
  induction word.toList with
  | nil => rfl
  | cons c r ih =>
    rw [List.splitOn_cons_eq_if_modifyHead, List.count_cons]
    split
    · rw [List.length_cons, ih]
    · rw [List.length_modifyHead, ih]

theorem count_text_ofText (word : String) :
    (ofText word).text.toList.count ':' = word.toList.count ':' := by
  have h := congrArg List.length (segments_text_ofText word)
  rw [List.length_map, length_segments, length_segments] at h
  omega

theorem segments_of_no_colon {word : String} (h : ':' ∉ word.toList) : segments word = [word] := by
  rw [segments, List.splitOn_eq_singleton h, List.map_singleton, String.ofList_toList]

theorem text_ofText_ne_nil {word : String} (h : word.toList ≠ []) :
    (ofText word).text.toList ≠ [] := by
  intro hnil
  have hcount := count_text_ofText word
  rw [hnil, List.count_nil, eq_comm, List.count_eq_zero] at hcount
  -- without a colon in the word, its one segment would have to be written as nothing
  rw [ofText, segments_of_no_colon hcount, ofSegments, text_leaf, spell] at hnil
  split at hnil
  · revert hnil; decide
  · exact h hnil

theorem mem_intercalate_singleton {α : Type} {x a : α} : ∀ {ls : List (List α)},
    a ∈ [x].intercalate ls → a = x ∨ ∃ l ∈ ls, a ∈ l := by
  intro ls
  induction ls with
  | nil => intro h; cases h
  | cons l ls ih =>
    intro h
    cases ls with
    | nil => exact Or.inr ⟨l, List.mem_cons_self, by rwa [List.intercalate_singleton] at h⟩
    | cons m ls =>
      rw [List.intercalate_cons_cons, List.append_assoc] at h
      rcases List.mem_append.1 h with h | h
      · exact Or.inr ⟨l, List.mem_cons_self, h⟩
      · rcases List.mem_cons.1 h with rfl | h
        · exact Or.inl rfl
        · exact (ih h).imp_right fun ⟨k, hk, ha⟩ => ⟨k, List.mem_cons_of_mem l hk, ha⟩

theorem mem_text_ofText {word : String} {c : Char} (h : c ∈ (ofText word).text.toList) :
    c ∈ word.toList ∨ c ∈ "boolean".toList := by
  have hmem := h
  rw [ofText, toList_text_ofSegments (segments_ne_nil word)] at hmem
  rcases mem_intercalate_singleton hmem with rfl | ⟨l, hl, hc⟩
  · -- a colon: the word has as many as the text
    refine Or.inl (List.count_pos_iff.1 ?_)
    rw [← count_text_ofText]
    exact List.count_pos_iff.2 h
  · obtain ⟨s, hs, rfl⟩ := List.mem_map.1 hl
    rw [spell] at hc
    split at hc
    · exact Or.inr hc
    · obtain ⟨w, hw, rfl⟩ := List.mem_map.1 hs
      rw [String.toList_ofList] at hc
      rw [List.splitOn_eq_splitOnP] at hw
      exact Or.inl (((Text.infix_of_mem_splitOnP word.toList).2 w hw).subset hc)

end SchemaLang.TypeExpr
