import SchemaLang.Text.Decimal

/-!
# Codes

Every object type and every property carries a code, a signed 64-bit integer.
Schemas order their objects by code, as numbers and not as text.  In schema text
a code is a decimal integer; one that does not fit in 64 bits is no code.

`Code.ofText?_text` says that a written code reads back as itself.
-/

namespace SchemaLang

/-- The code of an object type or of a property. -/
abbrev Code := Int64

namespace Code

def ofInt? (i : Int) : Option Code :=
  if Int64.minValue.toInt ≤ i ∧ i ≤ Int64.maxValue.toInt then some (Int64.ofInt i) else none

/-- The code that a word of schema text spells. -/
def ofText? (word : String) : Option Code :=
  (Text.readInteger? word.toList).bind ofInt?

def text (code : Code) : String :=
  String.ofList (Text.decimal code.toInt)

@[simp] theorem ofInt?_toInt (code : Code) : ofInt? code.toInt = some code := by
  rw [ofInt?, if_pos ⟨code.minValue_le_toInt, code.toInt_le⟩, Int64.ofInt_toInt]

/-- **A written code reads back as itself.** -/
theorem ofText?_text (code : Code) : ofText? (text code) = some code := by
  rw [ofText?, text, String.toList_ofList, Text.readInteger?_decimal, Option.bind_some,
    ofInt?_toInt]

theorem text_injective {a b : Code} (h : text a = text b) : a = b := by
  have := congrArg ofText? h
  rw [ofText?_text, ofText?_text] at this
  exact Option.some.inj this

end Code
end SchemaLang
