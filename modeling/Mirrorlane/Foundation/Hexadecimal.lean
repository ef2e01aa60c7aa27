import Mathlib.Data.List.Basic

/-!
# Hexadecimal numerals of a least width

Numbers are written by `Nat.toDigits 16`, in lower case, and filled up with zeros on the left.  The
zeros do not change the value, so numerals of one least width are read back (`readHex_paddedHex`).
-/

namespace Mirrorlane

/-- The value of a digit in lower case. -/
def hexDigitValue (c : Char) : ℕ :=
  if c.isDigit then c.toNat - '0'.toNat else c.toNat - 'a'.toNat + 10

/-- The value of a numeral, most significant digit first. -/
def readHex (digits : List Char) : ℕ :=
  digits.foldl (fun v c => 16 * v + hexDigitValue c) 0

/-- A number in hexadecimal, filled up with zeros to `width` digits. -/
def paddedHex (width n : ℕ) : List Char := (Nat.toDigits 16 n).leftpad width '0'

theorem hexDigitValue_digitChar {d : ℕ} (h : d < 16) : hexDigitValue d.digitChar = d := by
  have hall : ∀ d : Fin 16, hexDigitValue (Nat.digitChar d.val) = d.val := by decide
  exact hall ⟨d, h⟩

theorem readHex_concat (digits : List Char) (c : Char) :
    readHex (digits ++ [c]) = 16 * readHex digits + hexDigitValue c := by
  unfold readHex
  rw [List.foldl_append]
  rfl

/-- A numeral reads back. -/
theorem readHex_toDigits (n : ℕ) : readHex (Nat.toDigits 16 n) = n := by
  induction n using Nat.strongRecOn with
  | ind n ih =>
    by_cases hlt : n < 16
    · rw [Nat.toDigits_of_lt_base hlt]
      show 16 * 0 + hexDigitValue n.digitChar = n
      rw [hexDigitValue_digitChar hlt]
      omega
    · -- the last digit is the remainder, the digits before it the quotient
      have hmod : n % 16 < 16 := Nat.mod_lt n (by omega)
      rw [Nat.toDigits_of_base_le (by omega) (by omega), readHex_concat, ih (n / 16) (by omega),
        hexDigitValue_digitChar hmod]
      omega

/-- Zeros on the left do not count. -/
theorem readHex_replicate_append (k : ℕ) (digits : List Char) :
    readHex (List.replicate k '0' ++ digits) = readHex digits := by
  induction k with
  | zero => rfl
  | succ k ih => exact ih

/-- **A padded numeral reads back.** -/
theorem readHex_paddedHex (width n : ℕ) : readHex (paddedHex width n) = n := by
  unfold paddedHex List.leftpad
  rw [readHex_replicate_append, readHex_toDigits]

theorem paddedHex_injective (width : ℕ) : Function.Injective (paddedHex width) := by
  intro n n' h
  have hvalue := congrArg readHex h
  rwa [readHex_paddedHex, readHex_paddedHex] at hvalue

end Mirrorlane
