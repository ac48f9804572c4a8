import Mathlib.Algebra.Order.Floor.Semifield
import Mathlib.Data.Nat.Digits.Defs
import Mathlib.Data.Rat.Floor
import Mathlib.Tactic

/-!
# Decimal numbers

`Decimal` : a non-negative decimal number without exponent, by its integer part and the digits of its fraction.
`floor_value_mul` says what is left of it in units of `1 / b`, rounded down, in natural numbers alone.
-/

/-- An integer part, and the digits of a fraction in the order they are written in. -/
structure Decimal where
  integer : Nat
  fraction : List Nat
  digits : ∀ d ∈ fraction, d < 10

namespace Decimal
variable (d : Decimal)

/-- The digits of the fraction read as an integer. -/
def numerator : Nat := Nat.ofDigits 10 d.fraction.reverse

def value : ℚ := d.integer + d.numerator / 10 ^ d.fraction.length

theorem numerator_lt : d.numerator < 10 ^ d.fraction.length := by
  have hdigits : ∀ x ∈ d.fraction.reverse, x < 10 := fun x hx => d.digits x (List.mem_reverse.mp hx)
  rw [← List.length_reverse]
  exact Nat.ofDigits_lt_base_pow_length (by decide) hdigits

theorem floor_value_mul (b : Nat) :
    ⌊d.value * b⌋₊ = d.integer * b + d.numerator * b / 10 ^ d.fraction.length := by
  have hsplit : d.value * b = ((d.integer * b : Nat) : ℚ) + ((d.numerator * b : Nat) : ℚ) /
      ((10 ^ d.fraction.length : Nat) : ℚ) := by
    push_cast
    rw [value]
    ring
  rw [hsplit, add_comm, Nat.floor_add_natCast (by positivity), Nat.floor_div_eq_div, add_comm]

/-- Hundredths of a fraction of two digits or more: the digits after the second are dropped. -/
theorem hundredths (h : 2 ≤ d.fraction.length) :
    d.numerator * 100 / 10 ^ d.fraction.length = d.numerator / 10 ^ (d.fraction.length - 2) := by
  have hpow : 10 ^ d.fraction.length = 10 ^ (d.fraction.length - 2) * 100 := by
    rw [show (100 : Nat) = 10 ^ 2 by rfl, ← pow_add, Nat.sub_add_cancel h]
  rw [hpow]
  exact Nat.mul_div_mul_right _ _ (by decide)

/-- A fraction of more than two digits, the first two of which are zero, has no hundredths. -/
theorem hundredths_eq_zero_iff (h : 2 ≤ d.fraction.length) :
    d.numerator * 100 / 10 ^ d.fraction.length = 0 ↔ d.numerator < 10 ^ (d.fraction.length - 2) := by
  rw [d.hundredths h, Nat.div_eq_zero_iff]
  have hpos : 0 < 10 ^ (d.fraction.length - 2) := Nat.pow_pos (by decide)
  omega

end Decimal
