import Mathlib.Data.BitVec
import Mathlib.Data.List.GetD
import Mathlib.Tactic

/-!
# Little-endian bytes

`toBytes n x` are the `n` lowest bytes of a word, the lowest first, and `ofBytes w l` reads bytes back. What is read is
characterised by its bits (`getLsbD_ofBytes`), and each undoes the other when the bytes are as many as the word has
(`ofBytes_toBytes`, `toBytes_ofBytes`).
-/

namespace Bytes
variable {n w i : Nat} {l : List (BitVec 8)}

abbrev Byte := BitVec 8

def toBytes (n : Nat) (x : BitVec w) : List Byte := (List.range n).map fun k => x.extractLsb' (8 * k) 8

def ofBytes (w : Nat) : List Byte → BitVec w
  | [] => 0
  | b :: bs => b.setWidth w ||| ofBytes w bs <<< 8

@[simp] theorem length_toBytes (n : Nat) (x : BitVec w) : (toBytes n x).length = n := by
  unfold toBytes
  rw [List.length_map, List.length_range]

theorem getElem_toBytes (x : BitVec w) (k : Nat) (hk : k < (toBytes n x).length) :
    (toBytes n x)[k] = x.extractLsb' (8 * k) 8 := by simp [toBytes]

/-- Bit `i` of what is read is bit `i % 8` of byte `i / 8`. -/
theorem getLsbD_ofBytes (w : Nat) : ∀ (l : List Byte) (i : Nat),
    (ofBytes w l).getLsbD i = (decide (i < w) && (l.getD (i / 8) 0).getLsbD (i % 8))
  | [], i => by simp [ofBytes]
  | b :: bs, i => by
    rw [ofBytes, BitVec.getLsbD_or, BitVec.getLsbD_setWidth, BitVec.getLsbD_shiftLeft, getLsbD_ofBytes w bs]
    by_cases hi : i < 8
    · rw [Nat.div_eq_of_lt hi, Nat.mod_eq_of_lt hi]
      simp [hi]
    · obtain ⟨k, rfl⟩ : ∃ k, i = k + 8 := ⟨i - 8, by omega⟩
      have hhigh : b.getLsbD (k + 8) = false := BitVec.getLsbD_of_ge b _ (by omega)
      rw [Nat.add_sub_cancel, show (k + 8) / 8 = k / 8 + 1 by omega, Nat.add_mod_right, List.getD_cons_succ, hhigh]
      by_cases hw : k + 8 < w
      · have hk : k < w := by omega
        simp [hw, hk]
      · simp [hw]

theorem ofBytes_toBytes (x : BitVec w) (h : w ≤ 8 * n) : ofBytes w (toBytes n x) = x := by
  refine BitVec.eq_of_getLsbD_eq fun i hi => ?_
  have hk : i / 8 < (toBytes n x).length := by
    rw [length_toBytes]
    omega
  rw [getLsbD_ofBytes, List.getD_eq_getElem _ _ hk, getElem_toBytes, BitVec.getLsbD_extractLsb',
    Nat.div_add_mod]
  simp [hi, Nat.mod_lt]

theorem toBytes_ofBytes (h : l.length = n) : toBytes n (ofBytes (8 * n) l) = l := by
  refine List.ext_getElem (by rw [length_toBytes, h]) fun k hk hk' => ?_
  rw [getElem_toBytes]
  refine BitVec.eq_of_getLsbD_eq fun i hi => ?_
  rw [BitVec.getLsbD_extractLsb', getLsbD_ofBytes, show (8 * k + i) / 8 = k by omega, show (8 * k + i) % 8 = i by omega,
    List.getD_eq_getElem _ _ hk']
  have hfits : 8 * k + i < 8 * n := by omega
  simp [hi, hfits]

end Bytes
