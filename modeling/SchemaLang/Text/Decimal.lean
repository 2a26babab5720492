/-!
# Decimal integers

An integer is written with a minus sign when it is negative and without leading
zeros.  Reading is a little wider: one sign of either kind may stand in front,
and zeros may lead, but there is at least one digit, every digit is ASCII, and
nothing else is let through, not even a blank.

`readInteger?_decimal` says that reading undoes writing.
-/

namespace SchemaLang.Text

def readDigits? (s : List Char) : Option Nat :=
  if s ≠ [] ∧ s.all Char.isDigit then some (Nat.ofDigitChars 10 s 0) else none

/-- The integer written by one optional sign and ASCII digits. -/
def readInteger? : List Char → Option Int
  | '-' :: s => (readDigits? s).map fun n => -(n : Int)
  | '+' :: s => (readDigits? s).map fun n => (n : Int)
  | s => (readDigits? s).map fun n => (n : Int)

def decimal : Int → List Char
  | .ofNat n => Nat.toDigits 10 n
  | .negSucc n => '-' :: Nat.toDigits 10 (n + 1)

theorem isDigit_of_mem_toDigits_ten {n : Nat} {c : Char} (h : c ∈ Nat.toDigits 10 n) :
    c.isDigit = true :=
  Nat.isDigit_of_mem_toDigits (by decide) (by decide) h

@[simp] theorem readDigits?_toDigits (n : Nat) : readDigits? (Nat.toDigits 10 n) = some n := by
  have h : (Nat.toDigits 10 n).all Char.isDigit = true :=
    List.all_eq_true.2 fun c hc => isDigit_of_mem_toDigits_ten hc
  rw [readDigits?, if_pos ⟨Nat.toDigits_ne_nil, h⟩, Nat.ofDigitChars_ten_toDigits]

theorem readInteger?_of_no_sign {s : List Char} (hm : ∀ r, s ≠ '-' :: r) (hp : ∀ r, s ≠ '+' :: r) :
    readInteger? s = (readDigits? s).map fun n => (n : Int) := by
  rw [readInteger?]
  · exact fun r h => hm r h
  · exact fun r h => hp r h

/-- **Reading undoes writing.** -/
theorem readInteger?_decimal (i : Int) : readInteger? (decimal i) = some i := by
  cases i with
  | ofNat n =>
    have hd : ∀ c r, Nat.toDigits 10 n = c :: r → c.isDigit = true := fun c r h =>
      isDigit_of_mem_toDigits_ten (h ▸ List.mem_cons_self)
    rw [decimal, readInteger?_of_no_sign, readDigits?_toDigits]
    · rfl
    · intro r h; exact absurd (hd _ _ h) (by decide)
    · intro r h; exact absurd (hd _ _ h) (by decide)
  | negSucc n => rw [decimal, readInteger?, readDigits?_toDigits]; rfl

theorem decimal_ne_nil (i : Int) : decimal i ≠ [] := by
  cases i with
  | ofNat n => exact Nat.toDigits_ne_nil
  | negSucc n => exact List.cons_ne_nil _ _

end SchemaLang.Text
