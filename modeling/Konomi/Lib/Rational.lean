import Mathlib.Tactic

/-!
# Products over a divisor, in words

`multiplyByRational w a b c` is `a * b / c` as `multiply_by_rational` of `sp_arithmetic::helpers_128bit` computes it on
`w`-bit words, `w = 128` there: an exact division first, then the product in the word, and if that overflows, big
integers with limbs of 32 bits. The last two do not round alike: in the word and over a divisor of one limb the quotient
is rounded down, over a longer divisor it is rounded to the nearest.

How it is rounded depends on the product and the divisor only (`multiplyByRational_eq`), so everything is stated for
`rounded`: multiples are exact (`rounded_mul`), the order is kept (`rounded_mono`, `rounded_cross`), the error is less
than one downwards (`lt_rounded`) and at most a half upwards (`rounded_le_half`), and there is none upwards while the
product is in the word (`rounded_of_lt`).
-/

namespace Machine

/-- The end of `multiply_by_rational`: the product in the word, or in big integers. -/
def productQuotient (w a b c : Nat) : Nat :=
  if a * b < 2 ^ w then a * b / c
  -- a divisor of one limb goes to `div_unit`
  else if c < 2 ^ 32 then a * b / c
  else a * b / c + if c / 2 < a * b % c then 1 else 0

/-- `multiply_by_rational`. `none` is its only error, a quotient that does not fit. -/
def multiplyByRational (w a b c : Nat) : Option Nat :=
  if a = 0 ∨ b = 0 then some 0
  else
    let c := max c 1
    -- `a` is to be the bigger factor
    let (a, b) := (max a b, min a b)
    let q :=
      if a % c = 0 then productQuotient w (a / c) b 1
      else if b % c = 0 then productQuotient w a (b / c) 1
      else productQuotient w a b c
    if q < 2 ^ w then some q else none

/-- The quotient of the product `n` by `c`. -/
def rounded (w n c : Nat) : Nat :=
  if n < 2 ^ w ∨ c < 2 ^ 32 then n / c else n / c + if c / 2 < n % c then 1 else 0

variable {w a b c n m k : Nat}

/-! ## Bounds -/

theorem rounded_of_lt (h : n < 2 ^ w) : rounded w n c = n / c := if_pos (Or.inl h)

theorem div_le_rounded (w n c : Nat) : n / c ≤ rounded w n c := by
  unfold rounded
  split
  · exact le_refl _
  · exact Nat.le_add_right _ _

/-- What is lost is less than one. -/
theorem lt_rounded (hc : 0 < c) : n < c * (rounded w n c + 1) :=
  (Nat.lt_mul_div_succ n hc).trans_le (Nat.mul_le_mul_left c (Nat.succ_le_succ (div_le_rounded w n c)))

/-- What is gained is at most a half. -/
theorem rounded_le_half (w n c : Nat) : 2 * (c * rounded w n c) ≤ 2 * n + c := by
  have hsplit := Nat.div_add_mod n c
  unfold rounded
  split
  · omega
  · split
    · rw [Nat.mul_add, Nat.mul_one]
      omega
    · rw [Nat.add_zero]
      omega

theorem rounded_le_of_le (hc : 0 < c) (h : n ≤ c * m) : rounded w n c ≤ m := by
  have hhalf := rounded_le_half w n c
  by_contra hlt
  have hmul : c * (m + 1) ≤ c * rounded w n c := Nat.mul_le_mul_left c (by omega)
  rw [Nat.mul_add, Nat.mul_one] at hmul
  omega

theorem le_rounded_of_le (hc : 0 < c) (h : c * m ≤ n) : m ≤ rounded w n c :=
  ((Nat.le_div_iff_mul_le hc).mpr (by rwa [Nat.mul_comm])).trans (div_le_rounded w n c)

theorem rounded_mul (w m : Nat) (hc : 0 < c) : rounded w (c * m) c = m :=
  Nat.le_antisymm (rounded_le_of_le hc (le_refl _)) (le_rounded_of_le hc (le_refl _))

theorem rounded_mul_right (w m : Nat) (hc : 0 < c) : rounded w (m * c) c = m := by
  rw [Nat.mul_comm]
  exact rounded_mul w m hc

@[simp] theorem rounded_zero (w c : Nat) : rounded w 0 c = 0 := by
  simp [rounded]

/-- A number below `m` and a half is not rounded up to `m + 1`. -/
theorem rounded_le_iff (hc : 0 < c) : rounded w n c ≤ m ↔
    if n < 2 ^ w ∨ c < 2 ^ 32 then n < c * (m + 1) else 2 * n ≤ c * (2 * m + 1) := by
  have hsplit := Nat.div_add_mod n c
  have hmod := Nat.mod_lt n hc
  unfold rounded
  split
  · rw [← Nat.lt_succ_iff, Nat.div_lt_iff_lt_mul hc, Nat.mul_comm]
  · have hexpand : c * (2 * m + 1) = 2 * (c * m) + c := by ring
    rw [hexpand]
    constructor
    · intro hle
      have hmul : c * (n / c + if c / 2 < n % c then 1 else 0) ≤ c * m := Nat.mul_le_mul_left c hle
      split at hmul
      · rw [Nat.mul_add, Nat.mul_one] at hmul
        omega
      · rw [Nat.add_zero] at hmul
        omega
    · intro hle
      have hq : n / c ≤ m := by
        by_contra hlt
        have hmul : c * (m + 1) ≤ c * (n / c) := Nat.mul_le_mul_left c (by omega)
        rw [Nat.mul_add, Nat.mul_one] at hmul
        omega
      split
      · rename_i hup
        by_contra hlt
        have heq : n / c = m := by omega
        rw [heq] at hsplit
        omega
      · exact hq

theorem rounded_le_of_half (hc : 0 < c) (h : 2 * n ≤ c * (2 * m + 1)) : rounded w n c ≤ m := by
  rw [rounded_le_iff hc]
  split
  · have hexpand : c * (2 * m + 1) + c = 2 * (c * (m + 1)) := by ring
    omega
  · exact h

/-! ## Order -/

/-- **A larger product over a divisor that grew by no more is rounded to no less.** -/
theorem rounded_cross (hc : 0 < c) (hn : n ≤ m) (hck : c ≤ k) (h : n * k ≤ m * c) : rounded w n c ≤ rounded w m k := by
  have hk : 0 < k := hc.trans_le hck
  have hfloor : n / c ≤ m / k := by
    rw [Nat.le_div_iff_mul_le hk]
    refine Nat.le_of_mul_le_mul_right (?_ : _ * c ≤ _) hc
    calc n / c * k * c = n / c * c * k := by ring
      _ ≤ n * k := Nat.mul_le_mul_right k (Nat.div_mul_le_self n c)
      _ ≤ m * c := h
  by_cases hup : n < 2 ^ w ∨ c < 2 ^ 32
  · rw [rounded, if_pos hup]
    exact hfloor.trans (div_le_rounded w m k)
  · -- the second product is rounded to the nearest as well
    obtain ⟨hlarge, hlong⟩ := not_or.mp hup
    have hup' : ¬ (m < 2 ^ w ∨ k < 2 ^ 32) := by omega
    rw [rounded_le_iff hc, if_neg hup]
    have hnearest := (rounded_le_iff (m := rounded w m k) hk).mp (le_refl _)
    rw [if_neg hup'] at hnearest
    refine Nat.le_of_mul_le_mul_right (?_ : _ * k ≤ _) hk
    calc 2 * n * k = 2 * (n * k) := by ring
      _ ≤ 2 * (m * c) := Nat.mul_le_mul_left 2 h
      _ = 2 * m * c := by ring
      _ ≤ k * (2 * rounded w m k + 1) * c := Nat.mul_le_mul_right c hnearest
      _ = c * (2 * rounded w m k + 1) * k := by ring

theorem rounded_mono (hc : 0 < c) (h : n ≤ m) : rounded w n c ≤ rounded w m c :=
  rounded_cross hc h (le_refl c) (Nat.mul_le_mul_right c h)

/-- A proportion `n / c` that falls by little, measured in parts of `1 / a`, loses at most one of them. -/
theorem rounded_drop {a : Nat} (hc : 0 < c) (hk : 0 < k) (hlarge : 3 * a ≤ k)
    (hdrop : 2 * (n * k) ≤ 2 * (m * c) + 3 * c) : rounded w (n * a) c ≤ rounded w (m * a) k + 1 := by
  have hlt := lt_rounded (w := w) (n := m * a) hk
  refine rounded_le_of_half hc (Nat.le_of_mul_le_mul_left (?_ : k * _ ≤ k * _) hk)
  calc k * (2 * (n * a)) = a * (2 * (n * k)) := by ring
    _ ≤ a * (2 * (m * c) + 3 * c) := Nat.mul_le_mul_left a hdrop
    _ = c * (2 * (m * a) + 3 * a) := by ring
    _ ≤ c * (2 * (k * (rounded w (m * a) k + 1)) + k) := Nat.mul_le_mul_left c (by omega)
    _ = k * (c * (2 * (rounded w (m * a) k + 1) + 1)) := by ring

/-- If two sums do not grow, their rounded terms grow by less than three together. -/
theorem rounded_exchange {n' m' : Nat} (hc : 0 < c) (h : n + m' ≤ n' + m) :
    rounded w n c + rounded w m' c ≤ rounded w n' c + rounded w m c + 2 := by
  have hn := rounded_le_half w n c
  have hm' := rounded_le_half w m' c
  have hn' : n' < c * (rounded w n' c + 1) := lt_rounded hc
  have hm : m < c * (rounded w m c + 1) := lt_rounded hc
  by_contra hlt
  have hmul : c * (rounded w n' c + rounded w m c + 3) ≤ c * (rounded w n c + rounded w m' c) :=
    Nat.mul_le_mul_left c (by omega)
  rw [Nat.mul_add, Nat.mul_add, Nat.mul_add] at hmul
  rw [Nat.mul_add] at hn' hm
  omega

/-! ## The crate -/

theorem rounded_one (w n : Nat) : rounded w n 1 = n := by
  rw [rounded, if_pos (Or.inr (by decide)), Nat.div_one]

theorem rounded_div_left (hc : 0 < c) (ha : a % c = 0) : rounded w (a / c * b) 1 = rounded w (a * b) c := by
  have hmul : a * b = c * (a / c * b) := by
    rw [← Nat.mul_assoc, Nat.mul_div_cancel' (Nat.dvd_of_mod_eq_zero ha)]
  rw [rounded_one, hmul, rounded_mul w _ hc]

theorem productQuotient_eq (w a b c : Nat) : productQuotient w a b c = rounded w (a * b) c := by
  unfold productQuotient rounded
  by_cases hfits : a * b < 2 ^ w
  · rw [if_pos hfits, if_pos (Or.inl hfits)]
  · by_cases hlimb : c < 2 ^ 32
    · rw [if_neg hfits, if_pos hlimb, if_pos (Or.inr hlimb)]
    · rw [if_neg hfits, if_neg hlimb, if_neg (not_or.mpr ⟨hfits, hlimb⟩)]

/-- **What the crate computes.** -/
theorem multiplyByRational_eq (hc : 0 < c) : multiplyByRational w a b c =
    if rounded w (a * b) c < 2 ^ w then some (rounded w (a * b) c) else none := by
  have hproduct : max a b * min a b = a * b := by
    rcases le_total a b with h | h
    · rw [max_eq_right h, min_eq_left h, Nat.mul_comm]
    · rw [max_eq_left h, min_eq_right h]
  unfold multiplyByRational
  by_cases hzero : a = 0 ∨ b = 0
  · rw [if_pos hzero, Nat.mul_eq_zero.mpr hzero, rounded_zero, if_pos (Nat.two_pow_pos w)]
  · have hquotient : (if max a b % c = 0 then productQuotient w (max a b / c) (min a b) 1
        else if min a b % c = 0 then productQuotient w (max a b) (min a b / c) 1
        else productQuotient w (max a b) (min a b) c) = rounded w (a * b) c := by
      rw [← hproduct]
      split_ifs with hbig hsmall
      · rw [productQuotient_eq, rounded_div_left hc hbig]
      · rw [productQuotient_eq, Nat.mul_comm, rounded_div_left hc hsmall, Nat.mul_comm]
      · exact productQuotient_eq ..
    rw [if_neg hzero, max_eq_left (Nat.succ_le_of_lt hc)]
    simp only [hquotient]

end Machine
