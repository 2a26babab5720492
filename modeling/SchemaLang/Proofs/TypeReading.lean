import SchemaLang.Proofs.TypeText
import SchemaLang.Rendering.OpenType

/-!
# Reading a type and writing it again

A word is read by its first segment: `set:` and `list:` make a collection of what follows, any
other first segment is the key of a map, and a word without a colon is a leaf.  What has been
read is written with the same segments in the same places, where only `bool` is spelled anew.

* `ofText_set`, `ofText_list`, `ofText_map`, `ofText_of_no_colon`: the rules of reading, one for
  each form of a word.
* `ofText_respells`: the law of segments, for every word and for both renderings of a type.
-/

namespace SchemaLang.TypeExpr

variable {word key : String}

/-! ### The rules of reading -/

theorem segments_append_colon (h : ':' ∉ key.toList) (word : String) :
    segments (key ++ ":" ++ word) = key :: segments word := by
  have hsplit : (key.toList ++ ':' :: word.toList).splitOn ':' =
      key.toList :: word.toList.splitOn ':' := by
    rw [List.splitOn_eq_splitOnP, List.splitOnP_append_cons _ _ (by simp),
      ← List.splitOn_eq_splitOnP, ← List.splitOn_eq_splitOnP, List.splitOn_eq_singleton h]
    rfl
  have htext : (key ++ ":" ++ word).toList = key.toList ++ ':' :: word.toList := by
    rw [String.toList_append, String.toList_append, List.append_assoc]
    rfl
  rw [segments, htext, hsplit, List.map_cons, String.ofList_toList, segments]

/-- **A word is read by its first segment.** -/
theorem ofText_append_colon (h : ':' ∉ key.toList) (word : String) :
    ofText (key ++ ":" ++ word) = wrap key (ofText word) := by
  obtain ⟨s, r, hr⟩ := List.exists_cons_of_ne_nil (segments_ne_nil word)
  rw [ofText, segments_append_colon h, hr, ofSegments, ofText, hr]

theorem ofText_set (word : String) : ofText ("set:" ++ word) = set (ofText word) :=
  @ofText_append_colon "set" (by decide) word

theorem ofText_list (word : String) : ofText ("list:" ++ word) = list (ofText word) :=
  @ofText_append_colon "list" (by decide) word

theorem ofText_of_no_colon (h : ':' ∉ word.toList) : ofText word = leaf word := by
  rw [ofText, segments_of_no_colon h, ofSegments]

theorem ofText_map (h : ':' ∉ key.toList) (hset : key ≠ "set") (hlist : key ≠ "list")
    (word : String) : ofText (key ++ ":" ++ word) = map (ofText key) (ofText word) := by
  rw [ofText_append_colon h, wrap, if_neg hset, if_neg hlist, ofText_of_no_colon h]

/-! ### The law of segments -/

theorem intercalate_segments (word : String) : ":".intercalate (segments word) = word := by
  have hid : String.toList ∘ String.ofList = id := funext fun l => String.toList_ofList
  have hcolon : ":".toList = [':'] := rfl
  rw [← String.toList_inj, String.toList_intercalate, segments, List.map_map, hid, List.map_id,
    hcolon, List.intercalate_splitOn]

theorem text_ofText (word : String) :
    (ofText word).text = ":".intercalate ((segments word).map spell) := by
  rw [← String.toList_inj, ofText, toList_text_ofSegments (segments_ne_nil word),
    String.toList_intercalate, List.map_map]
  rfl

/-- **Every word is a type, and the type is written as the word** with each segment `bool` spelled
`boolean` and all other segments, and all colons, in their places.

The segments are the stretches of the word between its colons.  Rendering the type by way of a
handler gives the same text, whatever the handler and its state, which is left as it was. -/
theorem ofText_respells (word : String) :
    ":".intercalate (segments word) = word ∧ (∀ s ∈ segments word, ':' ∉ s.toList) ∧
      (ofText word).text =
        ":".intercalate ((segments word).map fun s => if s = "bool" then "boolean" else s) ∧
      ∀ (σ υ : Type) (handler : Handler σ υ) (state : σ),
        ((ofText word).toOpen.render handler).run.run state = (.ok (ofText word).text, state) := by
  refine ⟨intercalate_segments word, fun s => colon_not_mem_of_mem_segments, text_ofText word, ?_⟩
  intro σ υ handler state
  rw [render_toOpen]
  rfl

example : (ofText "bool:set:bool:").text = "boolean:set:boolean:" := by decide

end SchemaLang.TypeExpr
