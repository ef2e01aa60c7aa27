import Mathlib.Data.List.Induction

/-!
# Decimal numerals

Numbers are written by `Nat.toDigits 10` and read back by `parseDecimal`, which also fails on a
number that does not fit: below `bound` a number reads back (`parseDecimal_toDigits`), and a numeral
contains nothing but digits (`notMem_toDigits`).
-/

namespace Mirrorlane

/-- One digit of a number below `bound`. -/
def parseDigit (bound v : ℕ) (c : Char) : Option ℕ :=
  let v' := 10 * v + (c.toNat - '0'.toNat)
  if c.isDigit ∧ v' < bound then some v' else none

/-- Read a number below `bound`, most significant digit first. -/
def parseDecimal (bound : ℕ) (digits : List Char) : Option ℕ :=
  digits.foldlM (parseDigit bound) 0

/-- Digits are read as their value, when it fits. -/
theorem parseDecimal_of_isDigit {bound : ℕ} {digits : List Char}
    (hdigits : ∀ c ∈ digits, c.isDigit) (hlt : Nat.ofDigitChars 10 digits 0 < bound) :
    parseDecimal bound digits = some (Nat.ofDigitChars 10 digits 0) := by
  induction digits using List.reverseRecOn with
  | nil => rfl
  | append_singleton digits c ih =>
    have hvalue : Nat.ofDigitChars 10 (digits ++ [c]) 0 =
        10 * Nat.ofDigitChars 10 digits 0 + (c.toNat - '0'.toNat) := by
      rw [Nat.ofDigitChars_append, Nat.ofDigitChars_cons, Nat.ofDigitChars_nil]
    rw [hvalue] at hlt ⊢
    -- the number read so far is at most the whole one
    have hread := ih (fun c' hc' => hdigits c' (List.mem_append_left _ hc')) (by omega)
    have hc : c.isDigit := hdigits c (by simp)
    have hstep : parseDigit bound (Nat.ofDigitChars 10 digits 0) c =
        some (10 * Nat.ofDigitChars 10 digits 0 + (c.toNat - '0'.toNat)) := if_pos ⟨hc, hlt⟩
    unfold parseDecimal at hread ⊢
    rw [List.foldlM_append, hread, Option.bind_eq_bind, Option.bind_some, List.foldlM_cons, hstep]
    rfl

/-- **A numeral reads back**, below the bound. -/
theorem parseDecimal_toDigits {bound n : ℕ} (h : n < bound) :
    parseDecimal bound (Nat.toDigits 10 n) = some n := by
  have hvalue : Nat.ofDigitChars 10 (Nat.toDigits 10 n) 0 = n := Nat.ofDigitChars_ten_toDigits
  have hdigits : ∀ c ∈ Nat.toDigits 10 n, c.isDigit := fun c hc =>
    Nat.isDigit_of_mem_toDigits (by omega) (by omega) hc
  rw [parseDecimal_of_isDigit hdigits (by rwa [hvalue]), hvalue]

theorem toDigits_inj {n n' : ℕ} : Nat.toDigits 10 n = Nat.toDigits 10 n' ↔ n = n' := by
  constructor
  · intro h
    have hvalue := congrArg (fun digits => Nat.ofDigitChars 10 digits 0) h
    simpa using hvalue
  · exact congrArg _

theorem notMem_toDigits {c : Char} (hc : c.isDigit = false) (n : ℕ) : c ∉ Nat.toDigits 10 n := by
  intro h
  rw [Nat.isDigit_of_mem_toDigits (by omega) (by omega) h] at hc
  exact Bool.noConfusion hc

end Mirrorlane
