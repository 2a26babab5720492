import SchemaLang.Text.CaseTable

/-!
# Lower case

Names are compared without regard to letter case by comparing their lower-case
forms.  The form follows the full lower-case mapping: character by character,
with two exceptions.

* U+0130, the capital I with a dot, becomes two characters, `i` and U+0307.
* Σ becomes ς where it ends a word and σ elsewhere.  It ends a word when a
  letter with case stands before it and none after it, looking through the
  characters that are ignored for case.

There is no folding beyond the mapping: ß and ẞ agree, ß and `ss` do not.
-/

namespace SchemaLang.Text

def lowerChar (c : Char) : Char :=
  match lowerRuns.find? fun run => c.toNat ≤ run.last with
  | some run => ((run.lower? c.toNat).map Char.ofNat).getD c
  | none => c

/-- Whether the first character that is not looked through has case. -/
def meetsCased (s : List Char) : Bool :=
  match s.dropWhile fun c => inIntervals caseIgnorable c.toNat with
  | c :: _ => inIntervals cased c.toNat
  | [] => false

/-- Lower case of `s`, where `before` are the characters left of `s`, nearest
first. -/
def lowercaseAfter (before : List Char) : List Char → List Char
  | [] => []
  | c :: r =>
    let here :=
      if c = 'Σ' then [if meetsCased before && !meetsCased r then 'ς' else 'σ']
      else if c = '\u0130' then ['i', '\u0307']
      else [lowerChar c]
    here ++ lowercaseAfter (c :: before) r

/-- **The lower-case form of a name.** -/
def lowercase (name : String) : String :=
  String.ofList (lowercaseAfter [] name.toList)

example : lowercase "İ" = "i̇" ∧ lowercase "ΣΑΣ" = "σας" ∧ lowercase "Σ" = "σ" ∧
    lowercase "STRAẞE" = "straße" := by
  decide +kernel

end SchemaLang.Text
