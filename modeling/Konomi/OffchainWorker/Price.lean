import Konomi.Lib.Decimal
import Konomi.OffchainWorker.Members

/-!
# The price in cents

`parse_price` divides the digits of the fraction by `10.pow(fraction_length - 2)`, a subtraction that stops at zero and
a power that wraps. `price_in_cents_iff` says for every number whether the cents come of it: a fraction of one digit is
not scaled up (`toNat_cents` at the scale 1), and from 22 digits on the power is no longer the power (`scale_long`),
until it is zero and the division panics (`scale_eq_zero`).
-/

namespace Konomi.OffchainWorker
open Machine Iterator

variable {parseJson : String → Option JsonValue} {text : String} {number : NumberValue} {d : Decimal} {c : BitVec 32}
  {p : Profile}

/-- What lite-json returns for a decimal number without exponent: its integer part, the digits of its fraction read as
an integer, and their count. -/
structure NumberValue.Reads (number : NumberValue) (d : Decimal) : Prop where
  integer : number.integer.toInt = d.integer
  fraction : number.fraction.toNat = d.numerator
  length : number.fractionLength.toNat = d.fraction.length
  exponent : number.exponent = 0

/-- The divisor of a fraction of `k` digits, as the release build computes it. -/
def scale (k : Nat) : Nat := 10 ^ (k - 2) % 2 ^ 64

theorem scale_short {k : Nat} (h : k ≤ 21) : scale k = 10 ^ (k - 2) := by
  have hle : 10 ^ (k - 2) ≤ 10 ^ 19 := Nat.pow_le_pow_right (by decide) (by omega)
  exact Nat.mod_eq_of_lt (hle.trans_lt (by decide))

/-- The wrapped power stays large as long as it is not zero. -/
theorem scale_long {k : Nat} (h : 21 < k) (hk : k < 66) : 2 ^ 32 ≤ scale k := by
  have hall : ∀ n < 64, 19 < n → 2 ^ 32 ≤ 10 ^ n % 2 ^ 64 := by decide
  exact hall (k - 2) (by omega) (by omega)

theorem scale_eq_zero {k : Nat} (h : 66 ≤ k) : scale k = 0 := by
  refine Nat.mod_eq_zero_of_dvd ?_
  calc 2 ^ 64 ∣ 2 ^ (k - 2) := Nat.pow_dvd_pow 2 (by omega)
    _ ∣ 10 ^ (k - 2) := pow_dvd_pow_of_dvd (by decide) _

/-! ## What is computed -/

theorem parsePrice_single (hjson : parseJson text = some (.object [(usd, .number number)])) :
    parsePrice parseJson p text = (cents p number).map some := by
  have hfind : findNumber (.object [(usd, .number number)]) = some number := rfl
  rw [parsePrice, hjson, Option.bind_some, hfind]

theorem cents_eq_none (hnumber : number.Reads d) (h : scale d.fraction.length = 0) : cents .release number = none := by
  have hzero : BitVec.ofNat 64 ((10 : BitVec 64).toNat ^ (d.fraction.length - 2)) = 0 := by
    apply BitVec.eq_of_toNat_eq
    rw [BitVec.toNat_ofNat]
    exact h
  unfold cents
  simp only [mul_release, pow_release, hnumber.length, Option.bind_eq_bind, Option.bind_some]
  rw [hzero, div, if_pos rfl, Option.bind_none]

theorem toNat_cents (hnumber : number.Reads d) (hfits : d.integer * 100 + 99 < 2 ^ 32)
    (h : scale d.fraction.length ≠ 0) : ∃ c, cents .release number = some c ∧
      c.toNat = (d.integer * 100 + d.numerator / scale d.fraction.length) % 2 ^ 32 := by
  have hscale : (BitVec.ofNat 64 ((10 : BitVec 64).toNat ^ (d.fraction.length - 2))).toNat =
      scale d.fraction.length := BitVec.toNat_ofNat ..
  have hne : BitVec.ofNat 64 ((10 : BitVec 64).toNat ^ (d.fraction.length - 2)) ≠ 0 := by
    intro hzero
    rw [hzero] at hscale
    exact h hscale.symm
  have hinteger : number.integer.toNat = d.integer := by
    have hint := hnumber.integer
    have hlt := number.integer.isLt
    rw [BitVec.toInt_eq_toNat_cond] at hint
    split at hint <;> omega
  refine ⟨number.integer.setWidth 32 * 100 +
    (number.fraction / BitVec.ofNat 64 ((10 : BitVec 64).toNat ^ (d.fraction.length - 2))).setWidth 32, ?_, ?_⟩
  · unfold cents
    simp only [mul_release, pow_release, add_release, hnumber.length, div, if_neg hne, Option.bind_eq_bind,
      Option.bind_some]
  · rw [BitVec.toNat_add, BitVec.toNat_mul, BitVec.toNat_setWidth, BitVec.toNat_setWidth, BitVec.toNat_udiv, hscale,
      hnumber.fraction, hinteger]
    have hhundred : (100 : BitVec 32).toNat = 100 := rfl
    rw [hhundred]
    omega

/-! ## What should be computed -/

theorem floor_cents (d : Decimal) :
    ⌊d.value * 100⌋₊ = d.integer * 100 + d.numerator * 100 / 10 ^ d.fraction.length := d.floor_value_mul 100

/-- Up to 21 digits the result is right, except after a single digit that is not zero. -/
theorem short_iff (hfits : d.integer * 100 + 99 < 2 ^ 32) (hshort : d.fraction.length ≤ 21) :
    (d.integer * 100 + d.numerator / scale d.fraction.length) % 2 ^ 32 =
      d.integer * 100 + d.numerator * 100 / 10 ^ d.fraction.length ↔ (d.fraction.length = 1 → d.numerator = 0) := by
  have hlt := d.numerator_lt
  rw [scale_short hshort]
  by_cases htwo : 2 ≤ d.fraction.length
  · have hhundred : d.numerator * 100 / 10 ^ d.fraction.length < 100 := by
      rw [Nat.div_lt_iff_lt_mul (Nat.pow_pos (by decide))]
      omega
    rw [d.hundredths htwo] at hhundred ⊢
    rw [Nat.mod_eq_of_lt (by omega)]
    exact iff_of_true rfl fun hone => by omega
  · obtain hlength | hlength : d.fraction.length = 0 ∨ d.fraction.length = 1 := by omega
    · rw [hlength] at hlt ⊢
      have hnone : d.numerator = 0 := by omega
      rw [hnone, Nat.zero_mul, Nat.zero_div, Nat.add_zero]
      exact iff_of_true (Nat.mod_eq_of_lt (by omega)) fun _ => rfl
    · rw [hlength, pow_one] at hlt
      have hone : 10 ^ (1 - 2) = 1 := by simp
      have htens : d.numerator * 100 / 10 = d.numerator * 10 := by omega
      rw [hlength, hone, pow_one, Nat.div_one, htens, Nat.mod_eq_of_lt (by omega)]
      omega

/-- From 22 digits on there are no cents in the fraction, and the result says so while the wrapped power is larger. -/
theorem long_iff (hfits : d.integer * 100 + 99 < 2 ^ 32) (hfraction : d.numerator < 2 ^ 64)
    (hlong : 21 < d.fraction.length) (hscale : scale d.fraction.length ≠ 0) :
    (d.integer * 100 + d.numerator / scale d.fraction.length) % 2 ^ 32 =
      d.integer * 100 + d.numerator * 100 / 10 ^ d.fraction.length ↔ d.numerator < scale d.fraction.length := by
  have hcents : d.numerator * 100 / 10 ^ d.fraction.length = 0 := by
    rw [d.hundredths_eq_zero_iff (by omega)]
    have hle : 10 ^ 20 ≤ 10 ^ (d.fraction.length - 2) := Nat.pow_le_pow_right (by decide) (by omega)
    exact hfraction.trans ((by decide : 2 ^ 64 < 10 ^ 20).trans_le hle)
  have hlarge : 2 ^ 32 ≤ scale d.fraction.length := by
    refine scale_long hlong ?_
    by_contra hge
    exact hscale (scale_eq_zero (by omega))
  have hquotient : d.numerator / scale d.fraction.length < 2 ^ 32 := by
    rw [Nat.div_lt_iff_lt_mul (by omega)]
    have := Nat.mul_le_mul_left (2 ^ 32) hlarge
    omega
  have hzero : d.numerator / scale d.fraction.length = 0 ↔ d.numerator < scale d.fraction.length := by
    rw [Nat.div_eq_zero_iff]
    omega
  rw [hcents, ← hzero]
  generalize d.numerator / scale d.fraction.length = quotient at hquotient ⊢
  omega

/-- **When the parsed price is the price in cents.** For every object whose only member is `"USD"` with a non-negative
decimal number whose cents fit, `parse_price` of the release build returns `floor(value * 100)` if and only if the
fraction is not a single digit other than zero and, when it has more than 21 digits, is less than the wrapped power. -/
theorem price_in_cents_iff (hjson : parseJson text = some (.object [(usd, .number number)]))
    (hnumber : number.Reads d) (hfits : d.integer * 100 + 99 < 2 ^ 32) :
    (∃ c, parsePrice parseJson .release text = some (some c) ∧ c.toNat = ⌊d.value * 100⌋₊) ↔
      (d.fraction.length = 1 → d.numerator = 0) ∧
        (21 < d.fraction.length → d.numerator < 10 ^ (d.fraction.length - 2) % 2 ^ 64) := by
  have hfraction : d.numerator < 2 ^ 64 := by
    rw [← hnumber.fraction]
    exact number.fraction.isLt
  rw [parsePrice_single hjson, floor_cents]
  show _ ↔ _ ∧ (_ → d.numerator < scale d.fraction.length)
  by_cases hzero : scale d.fraction.length = 0
  · -- the division panics
    have hlong : 21 < d.fraction.length := by
      by_contra hshort
      rw [scale_short (Nat.not_lt.mp hshort)] at hzero
      exact absurd hzero (Nat.pow_pos (by decide)).ne'
    rw [cents_eq_none hnumber hzero, hzero]
    refine iff_of_false ?_ ?_
    · rintro ⟨c, hc, _⟩
      cases hc
    · rintro ⟨_, hless⟩
      exact absurd (hless hlong) (Nat.not_lt_zero _)
  · obtain ⟨c, hc, hvalue⟩ := toNat_cents hnumber hfits hzero
    have hresult : (∃ c', (cents .release number).map some = some (some c') ∧
        c'.toNat = d.integer * 100 + d.numerator * 100 / 10 ^ d.fraction.length) ↔
        (d.integer * 100 + d.numerator / scale d.fraction.length) % 2 ^ 32 =
          d.integer * 100 + d.numerator * 100 / 10 ^ d.fraction.length := by
      rw [hc, ← hvalue]
      constructor
      · rintro ⟨c', hc', hv⟩
        cases hc'
        exact hv
      · exact fun hv => ⟨c, rfl, hv⟩
    rw [hresult]
    by_cases hshort : d.fraction.length ≤ 21
    · rw [short_iff hfits hshort]
      exact ⟨fun h => ⟨h, fun hlong => absurd hshort (Nat.not_le.mpr hlong)⟩, And.left⟩
    · have hlong := Nat.not_le.mp hshort
      rw [long_iff hfits hfraction hlong hzero]
      exact ⟨fun h => ⟨fun hone => by omega, fun _ => h⟩, fun h => h.2 hlong⟩

/-- A price as the exchange reports it. -/
theorem price_in_cents_two_digits : ∃ (parseJson : String → Option JsonValue) (number : NumberValue) (d : Decimal),
    parseJson "\x7b\"USD\":19203.45\x7d" = some (.object [(usd, .number number)]) ∧ number.Reads d ∧
    ∃ c, parsePrice parseJson .release "\x7b\"USD\":19203.45\x7d" = some (some c) ∧ c.toNat = ⌊d.value * 100⌋₊ := by
  let number : NumberValue := ⟨19203, 45, 2, 0⟩
  let d : Decimal := ⟨19203, [4, 5], by decide⟩
  have hnumber : number.Reads d := ⟨rfl, rfl, rfl, rfl⟩
  have hjson := knows_self "\x7b\"USD\":19203.45\x7d" (.object [(usd, .number number)])
  have hdigits : (d.fraction.length = 1 → d.numerator = 0) ∧
      (21 < d.fraction.length → d.numerator < 10 ^ (d.fraction.length - 2) % 2 ^ 64) := by decide
  exact ⟨knows _ _, number, d, hjson, hnumber, (price_in_cents_iff hjson hnumber (by decide)).mpr hdigits⟩

/-- Half a dollar is parsed as five cents. -/
theorem half_dollar : ∃ (parseJson : String → Option JsonValue) (number : NumberValue) (d : Decimal),
    parseJson "\x7b\"USD\":0.5\x7d" = some (.object [(usd, .number number)]) ∧ number.Reads d ∧
    parsePrice parseJson .release "\x7b\"USD\":0.5\x7d" = some (some 5) ∧ ⌊d.value * 100⌋₊ = 50 := by
  refine ⟨knows _ _, ⟨0, 5, 1, 0⟩, ⟨0, [5], by decide⟩, knows_self _ _, ⟨rfl, rfl, rfl, rfl⟩, ?_, ?_⟩
  · rw [parsePrice_single (knows_self _ _)]
    decide
  · rw [floor_cents]
    decide

end Konomi.OffchainWorker
