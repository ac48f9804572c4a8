import Konomi.Lib.Rational
import Konomi.Lib.Word

/-!
# Unsigned fixed-point numbers

`Fixed w d` is a `w`-bit word read as a multiple of `1 / d`: `FixedU128` of `sp_arithmetic` at `w = 128`. Products and
quotients are `multiply_by_rational`; one that does not fit stops the program. The plain sum follows the profile,
`saturatingMulInt` and `saturatingFromRational` clamp.

The values are stated on `toNat` of the words, through `rounded`: `toNat_mul`, `toNat_div`, `toNat_mulInt`.
-/

namespace Machine

/-- A `w`-bit fixed-point number with `d` units to the whole. -/
@[ext]
structure Fixed (w d : Nat) where
  inner : BitVec w
  deriving DecidableEq

namespace Fixed
variable {w d : Nat} {p : Profile} {x y z : Fixed w d}

/-- The numerator of a fixed-point number. -/
def toNat (x : Fixed w d) : Nat := x.inner.toNat

theorem toNat_lt (x : Fixed w d) : x.toNat < 2 ^ w := x.inner.isLt

/-- The number itself. -/
def toRat (x : Fixed w d) : ℚ := x.toNat / d

/-- The whole number one. -/
def one : Fixed w d := ⟨BitVec.ofNat w d⟩

/-- A quotient of two constants. -/
def ofRational (n m : Nat) : Fixed w d := ⟨Profile.clamp w (n * d / m)⟩

def add (p : Profile) (x y : Fixed w d) : Option (Fixed w d) := (p.add x.inner y.inner).map mk

def mul (x y : Fixed w d) : Option (Fixed w d) :=
  (multiplyByRational w x.toNat y.toNat d).map fun n => ⟨BitVec.ofNat w n⟩

def div (x y : Fixed w d) : Option (Fixed w d) :=
  if y.toNat = 0 then none else (multiplyByRational w x.toNat d y.toNat).map fun n => ⟨BitVec.ofNat w n⟩

/-- `checked_mul_int`, with a bound in place of an error. -/
def saturatingMulInt (p : Profile) (x : Fixed w d) (n : BitVec w) : Option (BitVec w) :=
  p.saturate ((multiplyByRational w x.toNat n.toNat d).getD (2 ^ w))

/-- `checked_from_rational`, with a bound in place of an error. -/
def saturatingFromRational (p : Profile) (n m : BitVec w) : Option (Fixed w d) :=
  if m = 0 then none else (p.saturate ((multiplyByRational w n.toNat d m.toNat).getD (2 ^ w))).map mk

def saturatingFromInteger (p : Profile) {v : Nat} (n : BitVec v) : Option (Fixed w d) :=
  (p.saturate (n.toNat * d)).map mk

/-! ## Values -/

theorem toNat_one (hd : d < 2 ^ w) : (one : Fixed w d).toNat = d := by
  rw [one, toNat, BitVec.toNat_ofNat, Nat.mod_eq_of_lt hd]

theorem map_multiplyByRational {a b c : Nat} (hc : 0 < c) :
    (multiplyByRational w a b c).map (fun n => (⟨BitVec.ofNat w n⟩ : Fixed w d)) =
      (fit w (rounded w (a * b) c)).map mk := by
  rw [multiplyByRational_eq hc, fit]
  split <;> rfl

theorem saturate_multiplyByRational {a b c : Nat} (hc : 0 < c) :
    p.saturate ((multiplyByRational w a b c).getD (2 ^ w)) = (p.saturate (rounded w (a * b) c) : Option (BitVec w)) := by
  rw [multiplyByRational_eq hc]
  split
  · rfl
  · rename_i hlarge
    have hlarge := Nat.not_lt.mp hlarge
    have hmin : min (rounded w (a * b) c) (2 ^ w - 1) = min (2 ^ w) (2 ^ w - 1) := by
      rw [min_eq_right ((Nat.sub_le _ 1).trans hlarge), min_eq_right (Nat.sub_le _ 1)]
    rw [Option.getD_none, Profile.saturate, Profile.saturate, Profile.clamp, Profile.clamp, hmin]
    simp only [Nat.lt_irrefl, Nat.not_lt.mpr hlarge]

theorem mul_eq [NeZero d] (x y : Fixed w d) : x.mul y = (fit w (rounded w (x.toNat * y.toNat) d)).map mk :=
  map_multiplyByRational (NeZero.pos d)

theorem div_eq (hy : y.toNat ≠ 0) : x.div y = (fit w (rounded w (x.toNat * d) y.toNat)).map mk := by
  rw [div, if_neg hy, map_multiplyByRational (Nat.pos_of_ne_zero hy)]

theorem mulInt_eq [NeZero d] (p : Profile) (x : Fixed w d) (n : BitVec w) :
    x.saturatingMulInt p n = p.saturate (rounded w (x.toNat * n.toNat) d) :=
  saturate_multiplyByRational (NeZero.pos d)

theorem fromRational_eq {n m : BitVec w} (hm : m ≠ 0) : (saturatingFromRational p n m : Option (Fixed w d)) =
    (p.saturate (rounded w (n.toNat * d) m.toNat)).map mk := by
  have hpos : 0 < m.toNat := Nat.pos_of_ne_zero fun h => hm (BitVec.eq_of_toNat_eq (by simpa using h))
  rw [saturatingFromRational, if_neg hm, saturate_multiplyByRational hpos]

theorem toNat_mul [NeZero d] (h : x.mul y = some z) : z.toNat = rounded w (x.toNat * y.toNat) d := by
  rw [mul_eq] at h
  obtain ⟨n, hn, rfl⟩ := Option.map_eq_some_iff.mp h
  exact toNat_fit hn

theorem mul_isSome [NeZero d] (hy : y.toNat ≤ d) : (x.mul y).isSome := by
  have hle : rounded w (x.toNat * y.toNat) d ≤ x.toNat :=
    rounded_le_of_le (NeZero.pos d) (by rw [Nat.mul_comm d]; exact Nat.mul_le_mul_left _ hy)
  rw [mul_eq, fit, if_pos (hle.trans_lt x.toNat_lt)]
  rfl

theorem toNat_div (h : x.div y = some z) : y.toNat ≠ 0 ∧ z.toNat = rounded w (x.toNat * d) y.toNat := by
  have hy : y.toNat ≠ 0 := by
    intro hzero
    rw [div, if_pos hzero] at h
    cases h
  rw [div_eq hy] at h
  obtain ⟨n, hn, rfl⟩ := Option.map_eq_some_iff.mp h
  exact ⟨hy, toNat_fit hn⟩

theorem toNat_add (hp : p.wraps = false) (h : x.add p y = some z) : z.toNat = x.toNat + y.toNat := by
  obtain ⟨n, hn, rfl⟩ := Option.map_eq_some_iff.mp h
  exact Machine.toNat_add hp hn

theorem toNat_mulInt [NeZero d] {n m : BitVec w} (h : x.saturatingMulInt p n = some m) :
    m.toNat = min (rounded w (x.toNat * n.toNat) d) (2 ^ w - 1) := by
  rw [mulInt_eq] at h
  exact toNat_saturate h

theorem toNat_mulInt_strict [NeZero d] {n m : BitVec w} (hp : p.saturates = false)
    (h : x.saturatingMulInt p n = some m) : m.toNat = rounded w (x.toNat * n.toNat) d := by
  rw [mulInt_eq] at h
  exact toNat_saturate_strict hp h

theorem toNat_fromRational {n m : BitVec w} (h : saturatingFromRational p n m = some z) :
    m.toNat ≠ 0 ∧ z.toNat = min (rounded w (n.toNat * d) m.toNat) (2 ^ w - 1) := by
  have hm : m ≠ 0 := by
    intro hzero
    rw [saturatingFromRational, if_pos hzero] at h
    cases h
  rw [fromRational_eq hm] at h
  obtain ⟨k, hk, rfl⟩ := Option.map_eq_some_iff.mp h
  exact ⟨fun h0 => hm (BitVec.eq_of_toNat_eq (by simpa using h0)), toNat_saturate hk⟩

theorem toNat_fromRational_strict {n m : BitVec w} (hp : p.saturates = false)
    (h : saturatingFromRational p n m = some z) : z.toNat = rounded w (n.toNat * d) m.toNat := by
  have hm : m ≠ 0 := fun hzero => by
    rw [saturatingFromRational, if_pos hzero] at h
    cases h
  rw [fromRational_eq hm] at h
  obtain ⟨k, hk, rfl⟩ := Option.map_eq_some_iff.mp h
  exact toNat_saturate_strict hp hk

theorem mulInt_fits [NeZero d] {n m : BitVec w} (hp : p.saturates = false) (h : x.saturatingMulInt p n = some m) :
    rounded w (x.toNat * n.toNat) d < 2 ^ w := by
  rw [← toNat_mulInt_strict hp h]
  exact m.isLt

theorem toNat_fromInteger {v : Nat} {n : BitVec v} (hfit : 2 ^ v * d ≤ 2 ^ w)
    (h : saturatingFromInteger p n = some z) : z.toNat = n.toNat * d := by
  obtain ⟨k, hk, rfl⟩ := Option.map_eq_some_iff.mp h
  have hle : (n.toNat + 1) * d ≤ 2 ^ v * d := Nat.mul_le_mul_right d n.isLt
  rw [Nat.add_mul] at hle
  show k.toNat = n.toNat * d
  rw [toNat_saturate hk]
  rcases Nat.eq_zero_or_pos d with rfl | hd
  · simp
  · omega

/-! ## Compounding -/

/-- **Rounded compounding.** Two multipliers `1 + r m` and `1 + r' n` applied one after the other, each product rounded,
give at least `1 + r (m + n)`, if the second rate, with the interest on the first interest, pays for what it has lost
and for the rounding. -/
theorem compound_le {I r r' m n : Nat} (hd : 0 < d) (hI : d ≤ I) (hn : 0 < n)
    (hpays : d * (r + 1) + r' ≤ (d + r * m) * r') :
    rounded w (I * (d + r * (m + n))) d ≤ rounded w (rounded w (I * (d + r * m)) d * (d + r' * n)) d := by
  refine rounded_mono hd (Nat.le_of_mul_le_mul_left (?_ : d * _ ≤ d * _) hd)
  have hround : I * (d + r * m) < d * (rounded w (I * (d + r * m)) d + 1) := lt_rounded hd
  generalize rounded w (I * (d + r * m)) d = J at hround ⊢
  have hgain : d * (I * (d + r * (m + n))) + I * ((d + r') * n) ≤ I * (d + r * m) * (d + r' * n) := by
    calc d * (I * (d + r * (m + n))) + I * ((d + r') * n)
        = I * (d + r * m) * d + I * ((d * (r + 1) + r') * n) := by ring
      _ ≤ I * (d + r * m) * d + I * ((d + r * m) * r' * n) := by gcongr
      _ = I * (d + r * m) * (d + r' * n) := by ring
  have hfloor : I * (d + r * m) * (d + r' * n) ≤ d * (J * (d + r' * n)) + d * (d + r' * n) := by
    calc I * (d + r * m) * (d + r' * n) ≤ d * (J + 1) * (d + r' * n) := Nat.mul_le_mul_right _ hround.le
      _ = d * (J * (d + r' * n)) + d * (d + r' * n) := by ring
  have hround' : d * (d + r' * n) ≤ I * ((d + r') * n) := by
    refine Nat.mul_le_mul hI ?_
    rw [Nat.add_mul]
    exact Nat.add_le_add_right (Nat.le_mul_of_pos_right d hn) _
  omega

/-! ## One -/

theorem mul_one [NeZero d] (hw : d < 2 ^ w) : x.mul one = some x := by
  rw [mul_eq, toNat_one hw, Nat.mul_comm, rounded_mul w _ (NeZero.pos d), fit, if_pos x.toNat_lt]
  simp [toNat]

theorem div_self (hw : d < 2 ^ w) (hx : x.toNat ≠ 0) : x.div x = some one := by
  rw [div_eq hx, rounded_mul w _ (Nat.pos_of_ne_zero hx), fit, if_pos hw]
  rfl

theorem one_mulInt [NeZero d] (hw : d < 2 ^ w) (n : BitVec w) :
    (one : Fixed w d).saturatingMulInt p n = some n := by
  have hlt := n.isLt
  rw [mulInt_eq, toNat_one hw, rounded_mul w _ (NeZero.pos d), Profile.saturate, if_pos (Or.inl hlt), Profile.clamp,
    min_eq_left (by omega), BitVec.ofNat_toNat, BitVec.setWidth_eq]

theorem fromInteger_zero {v : Nat} : (saturatingFromInteger p (0 : BitVec v) : Option (Fixed w d)) = some ⟨0⟩ := by
  have hzero : (0 : BitVec v).toNat * d = 0 := by simp
  rw [saturatingFromInteger, hzero, Profile.saturate, if_pos (Or.inl (Nat.two_pow_pos w)), Profile.clamp,
    Nat.zero_min]
  rfl

theorem mul_zero [NeZero d] (hy : y.toNat = 0) : x.mul y = some ⟨0⟩ := by
  rw [mul_eq, hy, Nat.mul_zero, rounded_zero, fit, if_pos (Nat.two_pow_pos w)]
  rfl

theorem add_zero : x.add p ⟨0⟩ = some x := by
  have hlt : x.inner.toNat + (0 : BitVec w).toNat < 2 ^ w := by simpa using x.inner.isLt
  rw [add, add_isSome_of_lt hlt]
  simp

/-! ## Monotonicity in the profile -/

theorem mono_add (x y : Fixed w d) : Mono (fun p => x.add p y) := Mono.map mk (Mono.add _ _)

theorem mono_mulInt (x : Fixed w d) (n : BitVec w) : Mono (fun p => x.saturatingMulInt p n) := Mono.saturate _

theorem mono_fromRational (n m : BitVec w) : Mono (fun p => (saturatingFromRational p n m : Option (Fixed w d))) :=
  Mono.ite (Mono.const none) (Mono.map mk (Mono.saturate _))

theorem mono_fromInteger {v : Nat} (n : BitVec v) :
    Mono (fun p => (saturatingFromInteger p n : Option (Fixed w d))) := Mono.map mk (Mono.saturate _)

end Fixed

end Machine
