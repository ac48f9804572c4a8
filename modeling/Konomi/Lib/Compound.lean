import Mathlib.Algebra.Order.Field.Basic
import Mathlib.Tactic

/-!
# Simple and compound interest

An index that is multiplied by `1 + r * n` once in `n` periods stays below one that is multiplied by `1 + R` in every
period, if no rate is above `R` (`Compounds.simple`), also if it is rounded up by a part of itself that `R` leaves room
for (`Compounds.rounded`). Such bounds compose along a run (`Compounds.trans`), whatever the periods between two
charges. `pow_le_pow_of_covers` bounds a power of `1 + R` with a large exponent by one with a small exponent.
-/

namespace Compound
variable {K : Type} [Field K] [LinearOrder K] [IsStrictOrderedRing K] {R r i j k : K} {l m n : Nat}

/-- From period `m` to period `n` the index has grown from `i` to `j`, by at most the rate `R` in every period. -/
structure Compounds (R : K) (m n : Nat) (i j : K) : Prop where
  period_le : m ≤ n
  index_le : j ≤ i * (1 + R) ^ (n - m)

omit [IsStrictOrderedRing K] in
theorem Compounds.refl (R : K) (n : Nat) (i : K) : Compounds R n n i i := ⟨le_rfl, by simp⟩

theorem Compounds.trans (hR : 0 ≤ R) (h : Compounds R l m i j) (h' : Compounds R m n j k) : Compounds R l n i k := by
  obtain ⟨hlm, hij⟩ := h
  obtain ⟨hmn, hjk⟩ := h'
  have hpow : 0 ≤ (1 + R) ^ (n - m) := pow_nonneg (by linarith) _
  refine ⟨hlm.trans hmn, ?_⟩
  calc k ≤ j * (1 + R) ^ (n - m) := hjk
    _ ≤ i * (1 + R) ^ (m - l) * (1 + R) ^ (n - m) := mul_le_mul_of_nonneg_right hij hpow
    _ = i * (1 + R) ^ (n - l) := by
      rw [mul_assoc, ← pow_add]
      congr 2
      omega

/-- Interest at a rate of at most `R` that is charged once. -/
theorem Compounds.simple (hR : 0 ≤ R) (hr : r ≤ R) (hi : 0 ≤ i) (hmn : m ≤ n)
    (hj : j ≤ i * (1 + r * ((n - m : Nat) : K))) : Compounds R m n i j := by
  refine ⟨hmn, hj.trans (mul_le_mul_of_nonneg_left ?_ hi)⟩
  have hperiods : (0 : K) ≤ ((n - m : Nat) : K) := Nat.cast_nonneg _
  calc 1 + r * ((n - m : Nat) : K) ≤ 1 + ((n - m : Nat) : K) * R := by
        rw [mul_comm]
        gcongr
    _ ≤ (1 + R) ^ (n - m) := one_add_mul_le_pow (by linarith) _

/-- Interest at a rate of at most `r`, charged once, and rounded up by less than `e` of the index, unless it is charged
for no period. -/
theorem Compounds.rounded {e : K} (hr : 0 ≤ r) (he : 0 ≤ e) (hi : 0 ≤ i) (hmn : m ≤ n) (hsame : m = n → j ≤ i)
    (hj : j ≤ i * (1 + r * ((n - m : Nat) : K)) + i * e) : Compounds (r + e) m n i j := by
  rcases Nat.eq_or_lt_of_le hmn with heq | hlt
  · refine ⟨hmn, ?_⟩
    rw [heq, Nat.sub_self, pow_zero, mul_one]
    exact hsame heq
  · refine Compounds.simple (add_nonneg hr he) le_rfl hi hmn (hj.trans ?_)
    have hperiods : (1 : K) ≤ ((n - m : Nat) : K) := by exact_mod_cast Nat.sub_pos_of_lt hlt
    have hround : i * e ≤ i * (e * ((n - m : Nat) : K)) :=
      mul_le_mul_of_nonneg_left (le_mul_of_one_le_right he hperiods) hi
    calc i * (1 + r * ((n - m : Nat) : K)) + i * e
        ≤ i * (1 + r * ((n - m : Nat) : K)) + i * (e * ((n - m : Nat) : K)) := by gcongr
      _ = i * (1 + (r + e) * ((n - m : Nat) : K)) := by ring

theorem Compounds.later (hR : 0 ≤ R) (h : Compounds R l m i j) (hmn : m ≤ n) (hi : 0 ≤ i) : Compounds R l n i j := by
  refine ⟨h.period_le.trans hmn, h.index_le.trans (mul_le_mul_of_nonneg_left ?_ hi)⟩
  have hperiods : m - l ≤ n - l := by omega
  exact pow_le_pow_right₀ (by linarith) hperiods

/-! ## A bound on compound interest -/

theorem pow_add_le_pow {e : K} (hR : 0 ≤ R) (he : 0 ≤ e) (hn : n ≠ 0) : (1 + R) ^ n + e ≤ (1 + (R + e)) ^ n := by
  obtain ⟨n, rfl⟩ := Nat.exists_eq_succ_of_ne_zero hn
  have hone : 1 ≤ (1 + R) ^ n := one_le_pow₀ (by linarith)
  calc (1 + R) ^ (n + 1) + e ≤ (1 + R) ^ (n + 1) + (1 + R) ^ n * e := by
        gcongr
        exact le_mul_of_one_le_left he hone
    _ = (1 + R) ^ n * (1 + (R + e)) := by ring
    _ ≤ (1 + (R + e)) ^ n * (1 + (R + e)) := by
        gcongr
        linarith
    _ = (1 + (R + e)) ^ (n + 1) := (pow_succ ..).symm

theorem pow_mul_le_one (hR : 0 ≤ R) (hR' : R ≤ 1) (n : Nat) : (1 + R) ^ n * (1 - n * R) ≤ 1 := by
  have hsimple : 1 - n * R ≤ (1 - R) ^ n := by
    have h := one_add_mul_le_pow (a := -R) (by linarith) n
    rwa [mul_neg, ← sub_eq_add_neg, ← sub_eq_add_neg] at h
  have hfactors : (1 + R) * (1 - R) ≤ 1 := by nlinarith
  calc (1 + R) ^ n * (1 - n * R) ≤ (1 + R) ^ n * (1 - R) ^ n := by
        apply mul_le_mul_of_nonneg_left hsimple
        exact pow_nonneg (by linarith) n
    _ = ((1 + R) * (1 - R)) ^ n := (mul_pow ..).symm
    _ ≤ 1 := by
      apply pow_le_one₀ _ hfactors
      apply mul_nonneg <;> linarith

/-- A factor `c` that covers `m` periods covers `m * n` of them as `c ^ n`. -/
theorem pow_le_pow_of_covers {c : K} (hR : 0 ≤ R) (hR' : R ≤ 1) (hm : 0 < 1 - m * R) (hc : 1 ≤ c * (1 - m * R))
    (n : Nat) : (1 + R) ^ (m * n) ≤ c ^ n := by
  have hstep : (1 + R) ^ m ≤ c := by
    apply le_of_mul_le_mul_right _ hm
    exact (pow_mul_le_one hR hR' m).trans hc
  rw [pow_mul]
  exact pow_le_pow_left₀ (pow_nonneg (by linarith) m) hstep n

end Compound
