import Mathlib.Algebra.BigOperators.Field
import Mathlib.Algebra.Order.BigOperators.Group.Finset
import Mathlib.Algebra.Order.Field.Basic
import Mathlib.Data.Fintype.BigOperators
import Mathlib.Tactic

/-!
# Shares of an indexed total

Interest that is charged through an index: a position `(amount, index)` is a share `amount / index` of a pool whose
total is `total` at the index `I`. The total covers the positions when the shares sum to at most `total / I`
(`Covers`). This is kept when the total and the index are multiplied and only the index is rounded down
(`Covers.grow`), when a share is rewritten (`Covers.write`, `Covers.post`), and it bounds the sum of all positions at
any later index (`Covers.sum_le`). A total that is rounded down as well covers the positions but for a part of the index
(`Covers.drift`).
-/

namespace Shares
variable {A K : Type} [Fintype A] [Field K] [LinearOrder K] [IsStrictOrderedRing K]

/-- The shares `w` are covered by `total` at the index `I`. -/
structure Covers (w : A → K) (total I : K) : Prop where
  index_pos : 0 < I
  nonneg : ∀ u, 0 ≤ w u
  sum_le_ratio : ∑ u, w u ≤ total / I

variable {w w' : A → K} {total I J factor : K}

/-- The total at the next index is multiplied and not rounded down, the index is not rounded up. -/
theorem Covers.grow {total' : K} (h : Covers w total I) (hJ : 0 < J) (hle : J ≤ I * factor) (htotal : 0 ≤ total)
    (hround : total * factor ≤ total') : Covers w total' J := by
  refine ⟨hJ, h.nonneg, h.sum_le_ratio.trans ?_⟩
  rw [div_le_div_iff₀ h.index_pos hJ]
  calc total * J ≤ total * (I * factor) := mul_le_mul_of_nonneg_left hle htotal
    _ = total * factor * I := by ring
    _ ≤ total' * I := mul_le_mul_of_nonneg_right hround h.index_pos.le

theorem Covers.mono (h : Covers w total I) (hw' : ∀ u, 0 ≤ w' u) (hle : ∀ u, w' u ≤ w u) : Covers w' total I :=
  ⟨h.index_pos, hw', (Finset.sum_le_sum fun u _ => hle u).trans h.sum_le_ratio⟩

/-- The total at the next index loses up to `k` to rounding: what is missing, in parts of the index, grows by
`k / J`. -/
theorem Covers.drift {e e' k total' : K} (h : Covers w (total + e * I) I) (hJ : 0 < J) (hle : J ≤ I * factor)
    (htotal : 0 ≤ total) (hround : total * factor ≤ total' + k) (he : e + k / J ≤ e') :
    Covers w (total' + e' * J) J := by
  refine ⟨hJ, h.nonneg, h.sum_le_ratio.trans ?_⟩
  have hI := h.index_pos
  have hratio : total / I ≤ (total' + k) / J := by
    rw [div_le_div_iff₀ hI hJ]
    calc total * J ≤ total * (I * factor) := mul_le_mul_of_nonneg_left hle htotal
      _ = total * factor * I := by ring
      _ ≤ (total' + k) * I := mul_le_mul_of_nonneg_right hround hI.le
  rw [add_div, mul_div_cancel_right₀ _ hI.ne', add_div, mul_div_cancel_right₀ _ hJ.ne']
  rw [add_div] at hratio
  linarith

theorem Covers.write [DecidableEq A] (h : Covers w total I) (u : A) (hu : 0 ≤ w' u) (hw : ∀ v, v ≠ u → w' v = w v)
    {total' : K} (htotal : w' u + total / I ≤ w u + total' / I) : Covers w' total' I := by
  have hsum : ∑ v, w' v = ∑ v, w v - w u + w' u := by
    have hrest : ∑ v ∈ Finset.univ.erase u, w' v = ∑ v ∈ Finset.univ.erase u, w v :=
      Finset.sum_congr rfl fun v hv => hw v (Finset.ne_of_mem_erase hv)
    rw [← Finset.sum_erase_add Finset.univ w' (Finset.mem_univ u),
      ← Finset.sum_erase_add Finset.univ w (Finset.mem_univ u), hrest]
    ring
  refine ⟨h.index_pos, fun v => ?_, ?_⟩
  · by_cases hv : v = u
    · rw [hv]
      exact hu
    · rw [hw v hv]
      exact h.nonneg v
  · have := h.sum_le_ratio
    rw [hsum]
    linarith

/-- One position is posted: its value rises by no more than the total, and it was worth no more than its share. -/
theorem Covers.post [DecidableEq A] (h : Covers w total I) (u : A) {v v' total' : K} (hv : v / I ≤ w u)
    (hv' : 0 ≤ v') (hu : w' u = v' / I) (hw : ∀ x, x ≠ u → w' x = w x) (hle : v' + total ≤ v + total') :
    Covers w' total' I := by
  refine h.write u ?_ hw ?_
  · rw [hu]
    exact div_nonneg hv' h.index_pos.le
  · have hdiv : (v' + total) / I ≤ (v + total') / I := div_le_div_of_nonneg_right hle h.index_pos.le
    rw [add_div, add_div] at hdiv
    rw [hu]
    linarith

/-- **Positions that are rounded down from their shares sum to at most the multiplied total.** -/
theorem Covers.sum_le (h : Covers w total I) (hJ : 0 ≤ J) (hle : J ≤ I * factor) (htotal : 0 ≤ total)
    {v : A → K} (hv : ∀ u, v u ≤ J * w u) : ∑ u, v u ≤ total * factor :=
  calc ∑ u, v u ≤ ∑ u, J * w u := Finset.sum_le_sum fun u _ => hv u
    _ = J * ∑ u, w u := (Finset.mul_sum ..).symm
    _ ≤ J * (total / I) := mul_le_mul_of_nonneg_left h.sum_le_ratio hJ
    _ ≤ I * factor * (total / I) := mul_le_mul_of_nonneg_right hle (div_nonneg htotal h.index_pos.le)
    _ = total * factor := by
        have := h.index_pos.ne'
        field_simp

end Shares
