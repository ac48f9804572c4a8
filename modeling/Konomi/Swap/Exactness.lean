import Konomi.Swap.Product
import Konomi.Swap.Quote

/-!
# Exact arithmetic

The products of the pallet are products of `u128`, and no total supply is bounded below `2 ^ 128`. A product that wraps
is never divided to the exact quotient (`mod_div_ne`), so the prices are exact exactly while the largest input that the
caller holds has an exact product (`exactPrices_iff`), and the same holds of what is minted and redeemed
(`exactProducts_iff`, `exactSwaps_iff`).
-/

namespace Konomi.Swap
open Machine Assets Reserves

variable {A : Type}

/-- The product of the release build is the mathematical one. -/
def ExactProduct (a b : Balance) : Prop := ∃ q, Profile.release.mul a b = some q ∧ q.toNat = a.toNat * b.toNat

/-- An input of `x` is sold at exactly the quote. -/
def ExactPrice (fee : BitVec 64) (i o x : Balance) : Prop :=
  ∃ y, calcOutputAtKnownInput .release x i o fee = some (.ok y) ∧ y.toNat = quote i.toNat o.toNat x.toNat

/-- What the arithmetic of the pool of `c` promises the caller `u`: every amount that it holds has the exact price in
both directions and the exact product for a mint, and every liquidity that it has the exact products for a redemption.
An empty pool has no price. -/
structure ExactSwaps (cfg : Config A) (s : Chain A) (u : A) (c : AssetId) : Prop where
  buy : inherentReserve cfg s.assets c ≠ 0 → pairedReserve cfg s.assets c ≠ 0 →
    ∀ x ≤ s.assets.balances (s.assets.inherentAsset, u),
      ExactPrice s.swap.feeRateGlobal (inherentReserve cfg s.assets c) (pairedReserve cfg s.assets c) x
  sell : pairedReserve cfg s.assets c ≠ 0 → inherentReserve cfg s.assets c ≠ 0 →
    ∀ x ≤ s.assets.balances (c, u),
      ExactPrice s.swap.feeRateGlobal (pairedReserve cfg s.assets c) (inherentReserve cfg s.assets c) x
  mint : ∀ x ≤ s.assets.balances (s.assets.inherentAsset, u), ExactProduct (s.swap.totalLiquidities c) x
  redeem : ∀ l ≤ s.swap.accountLiquidities (c, u),
    ExactProduct (inherentReserve cfg s.assets c) l ∧ ExactProduct (pairedReserve cfg s.assets c) l

/-- All that the caller holds fits beside the reserve it is paid into, and its product with the other reserve fits. -/
def Fits (i o h : Balance) : Prop := i.toNat + h.toNat < 2 ^ 128 ∧ o.toNat * h.toNat < 2 ^ 128

/-- The bounds on a pool and a caller under which no product overflows. -/
structure Bounded (cfg : Config A) (s : Chain A) (u : A) (c : AssetId) : Prop where
  buy : inherentReserve cfg s.assets c ≠ 0 → pairedReserve cfg s.assets c ≠ 0 →
    Fits (inherentReserve cfg s.assets c) (pairedReserve cfg s.assets c)
      (s.assets.balances (s.assets.inherentAsset, u))
  sell : pairedReserve cfg s.assets c ≠ 0 → inherentReserve cfg s.assets c ≠ 0 →
    Fits (pairedReserve cfg s.assets c) (inherentReserve cfg s.assets c) (s.assets.balances (c, u))
  mint : (s.swap.totalLiquidities c).toNat * (s.assets.balances (s.assets.inherentAsset, u)).toNat < 2 ^ 128
  redeem : (inherentReserve cfg s.assets c).toNat * (s.swap.accountLiquidities (c, u)).toNat < 2 ^ 128 ∧
    (pairedReserve cfg s.assets c).toNat * (s.swap.accountLiquidities (c, u)).toNat < 2 ^ 128

/-! ## Products and prices -/

section Prices
variable {fee : BitVec 64} {i o x h a : Balance}

theorem exactProduct_iff : ExactProduct a x ↔ a.toNat * x.toNat < 2 ^ 128 := by
  unfold ExactProduct
  rw [mul_release]
  constructor
  · rintro ⟨q, hq, hexact⟩
    rw [← hexact]
    exact q.isLt
  · intro hlt
    refine ⟨_, rfl, ?_⟩
    rw [BitVec.toNat_mul, Nat.mod_eq_of_lt hlt]

theorem exactProducts_iff : (∀ x ≤ h, ExactProduct a x) ↔ a.toNat * h.toNat < 2 ^ 128 := by
  constructor
  · exact fun hall => exactProduct_iff.mp (hall h (BitVec.le_refl h))
  · intro hlt x hx
    exact exactProduct_iff.mpr ((Nat.mul_le_mul_left _ (BitVec.le_def.mp hx)).trans_lt hlt)

theorem exactPrice_iff (hi : i ≠ 0) (ho : o ≠ 0) (hsum : i.toNat + x.toNat < 2 ^ 128) :
    ExactPrice fee i o x ↔ o.toNat * x.toNat < 2 ^ 128 := by
  have hpos : 0 < x.toNat + i.toNat := by bv_omega
  have hquotient : (sold i o x).toNat = o.toNat * x.toNat % 2 ^ 128 / (x.toNat + i.toNat) := by
    rw [sold, BitVec.toNat_udiv, BitVec.toNat_mul, BitVec.toNat_add,
      Nat.mod_eq_of_lt (by omega : x.toNat + i.toNat < 2 ^ 128)]
  constructor
  · rintro ⟨y, hy, hexact⟩
    obtain ⟨_, rfl⟩ := calcOutput_release_iff.mp hy
    rw [hquotient, quote] at hexact
    by_contra hwraps
    exact mod_div_ne (by omega) hpos (by omega) hexact
  · intro hlt
    refine ⟨sold i o x, calcOutput_release_iff.mpr ⟨⟨hi, ho, by bv_omega⟩, rfl⟩, ?_⟩
    rw [hquotient, Nat.mod_eq_of_lt hlt, quote]

/-- The prices of all inputs up to `h` are exact exactly when the largest one fits: an input that fills the reserve up
to `2 ^ 128` divides by zero. -/
theorem exactPrices_iff (hi : i ≠ 0) (ho : o ≠ 0) : (∀ x ≤ h, ExactPrice fee i o x) ↔ Fits i o h := by
  constructor
  · intro hall
    have hsum : i.toNat + h.toNat < 2 ^ 128 := by
      by_contra hover
      obtain ⟨y, hy, _⟩ := hall (-i) (by bv_omega)
      obtain ⟨⟨_, _, hne⟩, _⟩ := calcOutput_release_iff.mp hy
      exact hne (by bv_omega)
    exact ⟨hsum, (exactPrice_iff hi ho hsum).mp (hall h (BitVec.le_refl h))⟩
  · rintro ⟨hsum, hproduct⟩ x hx
    have hle := BitVec.le_def.mp hx
    exact (exactPrice_iff hi ho (by omega)).mpr ((Nat.mul_le_mul_left _ hle).trans_lt hproduct)

end Prices

/-- **The arithmetic of a pool is exact for a caller exactly when the products of all that it holds fit.** -/
theorem exactSwaps_iff (cfg : Config A) (s : Chain A) (u : A) (c : AssetId) :
    ExactSwaps cfg s u c ↔ Bounded cfg s u c := by
  constructor
  · intro h
    refine ⟨fun hI hP => (exactPrices_iff hI hP).mp (h.buy hI hP),
      fun hP hI => (exactPrices_iff hP hI).mp (h.sell hP hI), exactProducts_iff.mp h.mint, ?_, ?_⟩
    · exact exactProducts_iff.mp fun l hl => (h.redeem l hl).1
    · exact exactProducts_iff.mp fun l hl => (h.redeem l hl).2
  · intro h
    refine ⟨fun hI hP => (exactPrices_iff hI hP).mpr (h.buy hI hP),
      fun hP hI => (exactPrices_iff hP hI).mpr (h.sell hP hI), exactProducts_iff.mpr h.mint, fun l hl => ⟨?_, ?_⟩⟩
    · exact exactProducts_iff.mpr h.redeem.1 l hl
    · exact exactProducts_iff.mpr h.redeem.2 l hl

/-- The pool of asset `1` holds 1000 of each side. User `1` holds more than `2 ^ 120` of the inherent asset, which would
buy 999; the product wraps, and the price is 231. -/
theorem wrapped_price : ∃ s s', Reachable pairConfig s ∧
    inherentReserve pairConfig s.assets 1 = 1000 ∧ pairedReserve pairConfig s.assets 1 = 1000 ∧
    quote 1000 1000 (2 ^ 120) = 999 ∧
    dispatch pairConfig .release s (.signed (.inl 1)) (.swapAssetsWithExactInput (.inl 2) 0 1 (1 <<< 120) 0) =
      some (.ok (), s') ∧
    s'.assets.balances (0, .inl 1) = s.assets.balances (0, .inl 1) - 1 <<< 120 ∧
    s'.assets.balances (1, .inl 2) = s.assets.balances (1, .inl 2) + 231 ∧
    ¬ ExactSwaps pairConfig s (.inl 1) 1 := by
  have hplay : ∃ s s', play pairConfig .release pairGenesis (List.flatMap Block.actions
        [⟨1, [(.signed (.inl 1), .swap (.addLiquidity 1 1000 1000 0))], by decide⟩]) = some s ∧
      inherentReserve pairConfig s.assets 1 = 1000 ∧ pairedReserve pairConfig s.assets 1 = 1000 ∧
      dispatch pairConfig .release s (.signed (.inl 1)) (.swapAssetsWithExactInput (.inl 2) 0 1 (1 <<< 120) 0) =
        some (.ok (), s') ∧
      s'.assets.balances (0, .inl 1) = s.assets.balances (0, .inl 1) - 1 <<< 120 ∧
      s'.assets.balances (1, .inl 2) = s.assets.balances (1, .inl 2) + 231 ∧
      1 <<< 120 ≤ s.assets.balances (s.assets.inherentAsset, .inl 1) :=
    ⟨_, _, rfl, by decide, by decide, rfl, by decide, by decide, by decide⟩
  obtain ⟨s, s', hs, hI, hP, hd, hpaid, hreceived, hheld⟩ := hplay
  refine ⟨s, s', ⟨pairGenesis, _, by decide, hs⟩, hI, hP, by decide, hd, hpaid, hreceived, fun h => ?_⟩
  have hprice := h.buy (by rw [hI]; decide) (by rw [hP]; decide) _ hheld
  rw [hI, hP, exactPrice_iff (by decide) (by decide) (by decide)] at hprice
  exact absurd hprice (by decide)

end Konomi.Swap
