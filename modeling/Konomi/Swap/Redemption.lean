import Konomi.Swap.Balances

/-!
# Redeeming liquidity

`_remove_liquidity` computes two payouts, each rounded down, and drops the results of their transfers. Of two different
reserves each payout is covered, so the caller receives both and those who stay keep at least their part
(`Redemption.fair_pair`). The pool of the inherent asset with itself has one balance, out of which both payouts are
made: together they are twice the caller's part (`Redemption.fair_same_iff`).
-/

namespace Konomi.Swap
open Machine Assets Reserves

variable {A : Type} [DecidableEq A]

/-- What liquidity `l` is worth of `j`: its part of the reserve of the inherent asset and its part of the other one,
each rounded down. -/
def proceeds (cfg : Config A) (s : Chain A) (a : AssetId) (l : Balance) (j : AssetId) : Nat :=
  let total := (s.swap.totalLiquidities a).toNat
  (if s.assets.inherentAsset = j then (inherentReserve cfg s.assets a).toNat * l.toNat / total else 0) +
    if a = j then (pairedReserve cfg s.assets a).toNat * l.toNat / total else 0

/-- What a redemption of `l` that leads from `s` to `s'` promises: the caller receives what it is worth, those who stay
keep at least their part of each reserve, and the last provider leaves nothing behind. -/
structure FairRedemption (cfg : Config A) (s s' : Chain A) (u : A) (a : AssetId) (l : Balance) : Prop where
  received : ∀ j, s'.assets.holdings j u = s.assets.holdings j u + proceeds cfg s a l j
  inherent_kept : (inherentReserve cfg s.assets a).toNat * ((s.swap.totalLiquidities a).toNat - l.toNat) ≤
    (inherentReserve cfg s'.assets a).toNat * (s.swap.totalLiquidities a).toNat
  paired_kept : (pairedReserve cfg s.assets a).toNat * ((s.swap.totalLiquidities a).toNat - l.toNat) ≤
    (pairedReserve cfg s'.assets a).toNat * (s.swap.totalLiquidities a).toNat
  emptied : l = s.swap.totalLiquidities a → inherentReserve cfg s'.assets a = 0 ∧ pairedReserve cfg s'.assets a = 0

/-- When a redemption is fair: the pool is of two assets and does not pay itself, or the liquidity is worth nothing. -/
def FairPool (cfg : Config A) (s : Chain A) (u : A) (a : AssetId) (l : Balance) : Prop :=
  (a ≠ s.assets.inherentAsset ∧ u ≠ getExchangeAddress cfg s.assets.inherentAsset a) ∨
    ((inherentReserve cfg s.assets a).toNat * l.toNat < (s.swap.totalLiquidities a).toNat ∧
      (pairedReserve cfg s.assets a).toNat * l.toNat < (s.swap.totalLiquidities a).toNat)

section Redemption
variable {cfg : Config A} {s s' : Chain A} {u : A} {a : AssetId} {l : Balance} {y z : Balance}

/-- Payments of one account to another keep the sum of their holdings. -/
theorem pay_between {p : Profile} {e : A} {i : AssetId} (hp : p.wraps = false) (hu : u ≠ e) :
    ∀ {ts : List (Payment A)} {st st' : Assets A} {done : List Bool},
      (∀ t ∈ ts, t.payer = e ∧ t.id = i ∧ t.payee = u) → pay p st ts = some (done, st') →
      st'.holdings i e + st'.holdings i u = st.holdings i e + st.holdings i u
  | [], st, st', done, _, h => by rw [(pay_nil h).2]
  | t :: ts, st, st', done, hts, h => by
    obtain ⟨⟨hpayer, hid, hpayee⟩, hrest⟩ := List.forall_mem_cons.mp hts
    rcases pay_cons h with ⟨_, done', hpay, _⟩ | ⟨_, st₁, done', hmake, hpay, _⟩
    · exact pay_between hp hu hrest hpay
    · have hfrom := make_exact hp hmake i e
      have hto := make_exact hp hmake i u
      simp only [Payment.debit, Payment.credit, hpayer, hid, hpayee, hu, Ne.symm hu, and_true, and_false, if_true,
        if_false] at hfrom hto
      have hlast := pay_between hp hu hrest hpay
      omega

/-- A redemption in which no operation wraps, with its two payouts. -/
structure Redemption (cfg : Config A) (s s' : Chain A) (u : A) (a : AssetId) (l y z : Balance) : Prop where
  inherent_part : y.toNat = (inherentReserve cfg s.assets a).toNat * l.toNat / (s.swap.totalLiquidities a).toNat
  paired_part : z.toNat = (pairedReserve cfg s.assets a).toNat * l.toNat / (s.swap.totalLiquidities a).toNat
  pos : 0 < (s.swap.totalLiquidities a).toNat
  owned : l.toNat ≤ (s.swap.totalLiquidities a).toNat
  pays : ∃ done, pay .checked s.assets (payouts cfg s.assets u a y z) = some (done, s'.assets)

theorem removeLiquidity_redemption {lo hi : Balance} (h : _removeLiquidity cfg .checked s u a l lo hi = some s') :
    ∃ y z, Redemption cfg s s' u a l y z := by
  obtain ⟨y, z, done, st', left, total, ⟨m, hm, hy⟩, ⟨n, hn, hz⟩, hpay, _, htotal, rfl⟩ := removeLiquidity_cases h
  obtain ⟨hne, rfl⟩ := div_eq hy
  obtain ⟨_, rfl⟩ := div_eq hz
  refine ⟨_, _, ?_, ?_, by bv_omega, ?_, done, hpay⟩
  · rw [BitVec.toNat_udiv, toNat_mul rfl hm]
  · rw [BitVec.toNat_udiv, toNat_mul rfl hn]
  · have := toNat_sub rfl htotal
    omega

namespace Redemption
variable (d : Redemption cfg s s' u a l y z)
include d

theorem proceeds_eq (j : AssetId) : proceeds cfg s a l j =
    (if s.assets.inherentAsset = j then y.toNat else 0) + if a = j then z.toNat else 0 := by
  rw [proceeds, d.inherent_part, d.paired_part]

theorem inherent : s'.assets.inherentAsset = s.assets.inherentAsset := by
  obtain ⟨done, hpay⟩ := d.pays
  exact pay_inherent hpay

/-- The liquidity is worth nothing exactly when both payouts are. -/
theorem worthless_iff : (y.toNat = 0 ∧ z.toNat = 0) ↔
    ((inherentReserve cfg s.assets a).toNat * l.toNat < (s.swap.totalLiquidities a).toNat ∧
      (pairedReserve cfg s.assets a).toNat * l.toNat < (s.swap.totalLiquidities a).toNat) := by
  have hpos := d.pos
  rw [d.inherent_part, d.paired_part, Nat.div_eq_zero_iff, Nat.div_eq_zero_iff]
  omega

theorem whole {b : Nat} (hl : l = s.swap.totalLiquidities a) :
    b * l.toNat / (s.swap.totalLiquidities a).toNat = b := by
  rw [hl]
  exact Nat.mul_div_cancel b d.pos

theorem fair_pair (hu : u ≠ getExchangeAddress cfg s.assets.inherentAsset a) (ha : a ≠ s.assets.inherentAsset) :
    FairRedemption cfg s s' u a l := by
  obtain ⟨done, hpay⟩ := d.pays
  have hy : y.toNat ≤ s.assets.holdings s.assets.inherentAsset (getExchangeAddress cfg s.assets.inherentAsset a) := by
    rw [d.inherent_part]
    exact redeem_le d.owned
  have hz : z.toNat ≤ s.assets.holdings a (getExchangeAddress cfg s.assets.inherentAsset a) := by
    rw [d.paired_part]
    exact redeem_le d.owned
  have hfunded : Funded s.assets.holdings (payouts cfg s.assets u a y z) := by
    simp only [payouts, Funded, Payment.debit, Ne.symm ha, if_false, and_true]
    exact ⟨hy, hz⟩
  have hexact := pay_funded rfl hpay hfunded
  simp only [payouts, debits_cons, credits_cons, debits_nil, credits_nil, Payment.debit, Payment.credit] at hexact
  have hI : (inherentReserve cfg s'.assets a).toNat + y.toNat = (inherentReserve cfg s.assets a).toNat := by
    have h := hexact s.assets.inherentAsset (getExchangeAddress cfg s.assets.inherentAsset a)
    simp only [ha, hu, and_true, and_false, if_true, if_false, Nat.add_zero] at h
    unfold inherentReserve
    rw [d.inherent]
    exact h
  have hA : (pairedReserve cfg s'.assets a).toNat + z.toNat = (pairedReserve cfg s.assets a).toNat := by
    have h := hexact a (getExchangeAddress cfg s.assets.inherentAsset a)
    simp only [Ne.symm ha, hu, and_true, and_false, if_true, if_false, Nat.add_zero, Nat.zero_add] at h
    unfold pairedReserve
    rw [d.inherent]
    exact h
  refine ⟨fun j => ?_, redeem_kept (d.inherent_part ▸ hI), redeem_kept (d.paired_part ▸ hA), fun hl => ?_⟩
  · have h := hexact j u
    simp only [Ne.symm hu, and_false, and_true, if_false, Nat.add_zero] at h
    rw [d.proceeds_eq]
    exact h
  · have hall := d.inherent_part
    have hall' := d.paired_part
    rw [d.whole hl] at hall hall'
    exact ⟨BitVec.eq_of_toNat_eq (by simp; omega), BitVec.eq_of_toNat_eq (by simp; omega)⟩

theorem fair_still_iff (hstill : s'.assets = s.assets) :
    FairRedemption cfg s s' u a l ↔ y.toNat = 0 ∧ z.toNat = 0 := by
  constructor
  · intro h
    have hy := h.received s.assets.inherentAsset
    have hz := h.received a
    rw [hstill, d.proceeds_eq] at hy hz
    rw [if_pos rfl] at hy hz
    omega
  · rintro ⟨hy, hz⟩
    refine ⟨fun j => ?_, ?_, ?_, fun hl => ?_⟩
    · rw [hstill, d.proceeds_eq, hy, hz]
      simp
    · rw [hstill]
      exact Nat.mul_le_mul_left _ (Nat.sub_le _ _)
    · rw [hstill]
      exact Nat.mul_le_mul_left _ (Nat.sub_le _ _)
    · rw [d.inherent_part, d.whole hl] at hy
      rw [d.paired_part, d.whole hl] at hz
      rw [hstill]
      exact ⟨BitVec.eq_of_toNat_eq hy, BitVec.eq_of_toNat_eq hz⟩

theorem fair_self_iff (hu : u = getExchangeAddress cfg s.assets.inherentAsset a) :
    FairRedemption cfg s s' u a l ↔ y.toNat = 0 ∧ z.toNat = 0 := by
  obtain ⟨done, hpay⟩ := d.pays
  refine d.fair_still_iff (pay_still (fun t ht _ => ?_) hpay)
  simp only [payouts, List.mem_cons, List.not_mem_nil, or_false] at ht
  rcases ht with rfl | rfl
  · exact hu.symm
  · exact hu.symm

/-- One balance pays both parts. If the caller received both, twice its part has left the reserve. -/
theorem fair_same_iff (hu : u ≠ getExchangeAddress cfg s.assets.inherentAsset a) (ha : a = s.assets.inherentAsset) :
    FairRedemption cfg s s' u a l ↔ y.toNat = 0 ∧ z.toNat = 0 := by
  obtain ⟨done, hpay⟩ := d.pays
  have hsame : z.toNat = y.toNat := by rw [d.paired_part, d.inherent_part, pairedReserve_inherent ha]
  constructor
  · intro h
    have hreceived := h.received s.assets.inherentAsset
    rw [d.proceeds_eq, if_pos rfl, if_pos ha] at hreceived
    have hsum := pay_between (i := s.assets.inherentAsset) rfl hu (by simp [payouts, ha]) hpay
    have hkept := h.inherent_kept
    have hpart := d.inherent_part
    unfold inherentReserve at hkept hpart
    rw [d.inherent] at hkept
    -- twice its part has left the one balance
    have hleft : s'.assets.holdings s.assets.inherentAsset (getExchangeAddress cfg s.assets.inherentAsset a) +
        2 * y.toNat = s.assets.holdings s.assets.inherentAsset (getExchangeAddress cfg s.assets.inherentAsset a) := by
      omega
    have hzero : y.toNat = 0 := by
      rw [hpart] at hleft ⊢
      exact redeem_twice d.owned d.pos hleft hkept
    exact ⟨hzero, hsame.trans hzero⟩
  · rintro ⟨hy, hz⟩
    refine (d.fair_still_iff (pay_still (fun t ht hc => ?_) hpay)).mpr ⟨hy, hz⟩
    simp only [payouts, List.mem_cons, List.not_mem_nil, or_false] at ht
    rcases ht with rfl | rfl
    · exact absurd (BitVec.eq_of_toNat_eq hy) hc.1
    · exact absurd (BitVec.eq_of_toNat_eq hz) hc.1

end Redemption

/-- **A redemption in which no operation overflows is fair exactly when the pool is of two assets and does not pay
itself, or the liquidity is worth nothing.** -/
theorem fairRedemption_iff {lo hi : Balance}
    (h : dispatch cfg .checked s (.signed u) (.removeLiquidity a l lo hi) = some (.ok (), s')) :
    FairRedemption cfg s s' u a l ↔ FairPool cfg s u a l := by
  obtain ⟨s₁, hs₁, h⟩ := Option.bind_eq_some_iff.mp h
  cases h
  obtain ⟨y, z, d⟩ := removeLiquidity_redemption hs₁
  unfold FairPool
  rw [← d.worthless_iff]
  by_cases hu : u = getExchangeAddress cfg s.assets.inherentAsset a
  · rw [d.fair_self_iff hu]
    simp [hu]
  · by_cases ha : a = s.assets.inherentAsset
    · rw [d.fair_same_iff hu ha]
      simp [ha]
    · exact iff_of_true (d.fair_pair hu ha) (Or.inl ⟨ha, hu⟩)

end Redemption

/-- User `1` redeems 300 of the 1000 it injected, after user `2` has swapped 333 through the pool. -/
theorem fairRedemption_pair : ∃ s s', play pairConfig .release pairGenesis
      [.call (.signed (.inl 1)) (.swap (.addLiquidity 1 1000 1000 0)),
        .call (.signed (.inl 2)) (.swap (.swapAssetsWithExactInput (.inl 2) 0 1 333 0))] = some s ∧
    dispatch pairConfig .checked s (.signed (.inl 1)) (.removeLiquidity 1 300 0 0) = some (.ok (), s') ∧
    s'.assets.balances (0, .inl 1) = s.assets.balances (0, .inl 1) + 399 ∧
    s'.assets.balances (1, .inl 1) = s.assets.balances (1, .inl 1) + 225 ∧
    FairRedemption pairConfig s s' (.inl 1) 1 300 := by
  have hrun : ∃ s s', play pairConfig .release pairGenesis
        [.call (.signed (.inl 1)) (.swap (.addLiquidity 1 1000 1000 0)),
          .call (.signed (.inl 2)) (.swap (.swapAssetsWithExactInput (.inl 2) 0 1 333 0))] = some s ∧
      dispatch pairConfig .checked s (.signed (.inl 1)) (.removeLiquidity 1 300 0 0) = some (.ok (), s') ∧
      s'.assets.balances (0, .inl 1) = s.assets.balances (0, .inl 1) + 399 ∧
      s'.assets.balances (1, .inl 1) = s.assets.balances (1, .inl 1) + 225 ∧
      FairPool pairConfig s (.inl 1) 1 300 :=
    ⟨_, _, rfl, rfl, by decide, by decide, Or.inl ⟨by decide, pairConfig_user 1 0 1⟩⟩
  obtain ⟨s, s', hs, h, hinherent, hpaired, hfair⟩ := hrun
  exact ⟨s, s', hs, h, hinherent, hpaired, (fairRedemption_iff h).mpr hfair⟩

/-- Users `1` and `2` pay 1000 twice each into the pool of the inherent asset with itself. The liquidity of user `2` is
a third of the total, and it redeems two thirds of the reserve. -/
theorem redeemed_twice : ∃ s s', play pairConfig .release pairGenesis
      [.call (.signed (.inl 1)) (.swap (.addLiquidity 0 1000 1000 0)),
        .call (.signed (.inl 2)) (.swap (.addLiquidity 0 1000 1000 0))] = some s ∧
    dispatch pairConfig .checked s (.signed (.inl 2)) (.removeLiquidity 0 500 0 0) = some (.ok (), s') ∧
    s.swap.accountLiquidities (0, .inl 2) = 500 ∧ s.swap.totalLiquidities 0 = 1500 ∧
    inherentReserve pairConfig s.assets 0 = 4000 ∧ inherentReserve pairConfig s'.assets 0 = 1334 ∧
    ¬ FairRedemption pairConfig s s' (.inl 2) 0 500 := by
  refine ⟨_, _, rfl, rfl, by decide, by decide, by decide, by decide, fun h => ?_⟩
  exact absurd h.inherent_kept (by decide)

end Konomi.Swap
