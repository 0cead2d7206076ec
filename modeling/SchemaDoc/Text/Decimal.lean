import SchemaDoc.Text.Blank

/-!
# Decimal counts

A count is written in ASCII digits, with any number of leading zeros and at most one plus sign in
front, and lies below a bound. `readCount?` accepts exactly those texts.
-/
namespace SchemaDoc.Text

theorem toNat_of_isDigit {c : Char} (h : c.isDigit) : 0x30 ≤ c.toNat ∧ c.toNat ≤ 0x39 := by
  simp only [Char.isDigit, Bool.and_eq_true, decide_eq_true_eq, UInt32.le_iff_toNat_le] at h
  exact h

/-- The digits of a count without its sign. -/
def unsigned : List Char → List Char
  | '+' :: digits => digits
  | digits => digits

/-- Reads a count below `bound`. -/
def readCount? (bound : Nat) (s : List Char) : Option Nat :=
  let digits := unsigned s
  let value := Nat.ofDigitChars 10 digits 0
  if digits ≠ [] ∧ digits.all Char.isDigit ∧ value < bound then some value else none

theorem readCount?_toDigits {bound n : Nat} (h : n < bound) :
    readCount? bound (Nat.toDigits 10 n) = some n := by
  have hd : ∀ c ∈ Nat.toDigits 10 n, c.isDigit := fun c hc =>
    Nat.isDigit_of_mem_toDigits (by omega) (by omega) hc
  have hu : unsigned (Nat.toDigits 10 n) = Nat.toDigits 10 n := by
    unfold unsigned
    split
    next rest heq =>
      have := hd '+' (by simp [heq])
      simp at this
    next => rfl
  have ha : (Nat.toDigits 10 n).all Char.isDigit := List.all_eq_true.mpr hd
  simp [readCount?, hu, ha, Nat.toDigits_ne_nil, Nat.ofDigitChars_ten_toDigits, h]

end SchemaDoc.Text
