import Konomi.Swap.Balances
import Konomi.Swap.Limits

/-!
# Minting liquidity

`_add_liquidity` makes two deposits, drops their results and mints from the amounts it was asked for: shares grow
without a deposit exactly when the caller cannot pay it (`againstDeposits_iff`).

With the deposits paid, the minted share is computed from the inherent amount alone, so it is worth its price in the
inherent asset (`Reserves.minted_le`), and in the paired asset only if the caller chose the amounts that way
(`notDiluted_iff`).
-/

namespace Konomi.Swap
open Machine Assets Reserves

variable {A : Type} [DecidableEq A]

/-! ## Deposits -/

/-- What a mint promises: where the share of the caller or the total grows, both deposits were made in full. -/
def AgainstDeposits (cfg : Config A) (s : Chain A) (u : A) (a : AssetId) (x y lo : Balance) : Prop :=
  ∀ s', dispatch cfg .release s (.signed u) (.addLiquidity a x y lo) = some (.ok (), s') →
    (s.swap.accountLiquidities (a, u) < s'.swap.accountLiquidities (a, u) ∨
      s.swap.totalLiquidities a < s'.swap.totalLiquidities a) →
    ∃ done, pay .release s.assets (deposits cfg s.assets u a x y) = some (done, s'.assets) ∧
      List.Forall₂ Settled (deposits cfg s.assets u a x y) done

/-- The caller holds what it is to deposit; of the inherent asset both amounts, if that is the paired asset too. -/
def CanDeposit (cfg : Config A) (st : Assets A) (u : A) (a : AssetId) (x y : Balance) : Prop :=
  x ≤ st.balances (st.inherentAsset, u) ∧
    y ≤ if a = st.inherentAsset ∧ u ≠ getExchangeAddress cfg st.inherentAsset a then st.balances (a, u) - x
      else st.balances (a, u)

/-- An injection that writes a larger share or a larger total. -/
def Enlarges (cfg : Config A) (s : Chain A) (u : A) (a : AssetId) (x : Balance) : Prop :=
  s.swap.accountLiquidities (a, u) <
      (if s.swap.totalLiquidities a = 0 then x else s.swap.accountLiquidities (a, u) + minted cfg s a x) ∨
    s.swap.totalLiquidities a < s.swap.totalLiquidities a + minted cfg s a x

section Deposits
variable {cfg : Config A} {s : Chain A} {st : Assets A} {u : A} {a : AssetId} {x y lo : Balance}

theorem settled_deposits_iff : SettledInOrder .release st (deposits cfg st u a x y) ↔ CanDeposit cfg st u a x y := by
  obtain ⟨⟨done, st'⟩, hpay⟩ := pay_release (deposits cfg st u a x y) st
  obtain ⟨done₁, st₁, done₂, hfirst, hsecond, _⟩ := pay_append (l := [_]) hpay
  have hleft := balance_after_output (j := a) hfirst
  unfold CanDeposit deposits
  rw [settled_cons_iff hfirst, settled_one_iff]
  dsimp only
  rw [hleft]
  refine and_congr_right fun hx => ?_
  by_cases ha : a = st.inherentAsset ∧ u ≠ getExchangeAddress cfg st.inherentAsset a
  · rw [if_pos ha]
    by_cases h0 : x = 0
    · rw [h0, if_neg (fun hall => hall.2.2.1 rfl)]
      simp
    · rw [if_pos ⟨ha.1, Ne.symm ha.2, h0, ha.1 ▸ hx⟩]
  · rw [if_neg ha, if_neg (fun hall => ha ⟨hall.1, Ne.symm hall.2.1⟩)]

theorem addLiquidity_writes {s' : Chain A} (h : _addLiquidity cfg .release s u a x y lo = some s') :
    s'.swap.accountLiquidities (a, u) =
      (if s.swap.totalLiquidities a = 0 then x else s.swap.accountLiquidities (a, u) + minted cfg s a x) ∧
    s'.swap.totalLiquidities a = s.swap.totalLiquidities a + minted cfg s a x ∧
    ∃ done, pay .release s.assets (deposits cfg s.assets u a x y) = some (done, s'.assets) := by
  obtain ⟨done, st', m, share, total, hpay, hm, htotal, rfl⟩ := addLiquidity_cases h
  obtain ⟨rfl, rfl, _⟩ := hm.eq
  refine ⟨?_, ?_, done, hpay⟩
  · show Function.update _ _ _ _ = _
    rw [Function.update_self]
  · show Function.update _ _ _ _ = _
    rw [Function.update_self, add_eq htotal]

/-- **Liquidity is minted against deposits exactly when the division by an empty reserve stops the call, when nothing
grows, or when the caller holds what it is to deposit.** -/
theorem againstDeposits_iff (cfg : Config A) (s : Chain A) (u : A) (a : AssetId) (x y lo : Balance) :
    AgainstDeposits cfg s u a x y lo ↔
      (s.swap.totalLiquidities a ≠ 0 ∧ inherentReserve cfg s.assets a = 0) ∨ ¬ Enlarges cfg s u a x ∨
        CanDeposit cfg s.assets u a x y := by
  constructor
  · intro h
    by_cases hpool : s.swap.totalLiquidities a ≠ 0 ∧ inherentReserve cfg s.assets a = 0
    · exact Or.inl hpool
    · refine Or.inr ?_
      by_cases hgrow : Enlarges cfg s u a x
      · obtain ⟨s', hs'⟩ := (addLiquidity_release_iff cfg s u a x y lo).mpr (fun hne he => hpool ⟨hne, he⟩)
        obtain ⟨hshare, htotal, _⟩ := addLiquidity_writes hs'
        obtain ⟨done, hpay, hset⟩ := h s' (by simp [dispatch, ensureSigned, hs']) (by rw [hshare, htotal]; exact hgrow)
        exact Or.inr (settled_deposits_iff.mp ((pay_settled_iff hpay).mp hset))
      · exact Or.inl hgrow
  · intro h s' hd hgrow
    obtain ⟨s₁, hs₁, hd⟩ := Option.bind_eq_some_iff.mp hd
    cases hd
    obtain ⟨hshare, htotal, done, hpay⟩ := addLiquidity_writes hs₁
    rw [hshare, htotal] at hgrow
    refine ⟨done, hpay, (pay_settled_iff hpay).mpr (settled_deposits_iff.mpr ?_)⟩
    rcases h with ⟨hne, hzero⟩ | hstill | hcan
    · exact absurd hzero ((addLiquidity_release_iff cfg s u a x y lo).mp ⟨s', hs₁⟩ hne)
    · exact absurd hgrow hstill
    · exact hcan

/-- User `2` holds 500000 of each asset and asks to deposit 600000 of each. Nothing is deposited, and 600000 of
liquidity are minted. -/
theorem minted_without_deposit : ∃ s s', play pairConfig .release pairGenesis [] = some s ∧
    dispatch pairConfig .release s (.signed (.inl 2)) (.addLiquidity 1 600000 600000 0) = some (.ok (), s') ∧
    s'.swap.totalLiquidities 1 = 600000 ∧ s'.swap.accountLiquidities (1, .inl 2) = 600000 ∧
    s'.assets.balances (1, pairConfig.makeExchangeAddress 0 1) = 0 ∧
    ¬ AgainstDeposits pairConfig s (.inl 2) 1 600000 600000 0 := by
  refine ⟨_, _, rfl, rfl, by decide, by decide, by decide, fun h => ?_⟩
  obtain ⟨done, hpay, hset⟩ := h _ rfl (Or.inr (by decide))
  cases hpay
  revert hset
  simp [deposits, Settled]

end Deposits

/-! ## The other providers -/

/-- What the payments that were made moved of `j`. -/
def moved : List (Payment A) → List Bool → AssetId → Nat
  | t :: ts, d :: ds, j => (if d = true ∧ t.id = j then t.amount.toNat else 0) + moved ts ds j
  | _, _, _ => 0

/-- What an injection that leads from `s` to `s₁` promises the other providers: a unit of liquidity is worth as much of
each asset as before, and redeeming the minted liquidity at once pays out no more of any asset than was paid in. -/
def NotDiluted (cfg : Config A) (s s₁ : Chain A) (u : A) (a : AssetId) (x y : Balance) : Prop :=
  ((inherentReserve cfg s.assets a).toNat : ℚ) / (s.swap.totalLiquidities a).toNat ≤
      (inherentReserve cfg s₁.assets a).toNat / (s₁.swap.totalLiquidities a).toNat ∧
  ((pairedReserve cfg s.assets a).toNat : ℚ) / (s.swap.totalLiquidities a).toNat ≤
      (pairedReserve cfg s₁.assets a).toNat / (s₁.swap.totalLiquidities a).toNat ∧
  ∀ lo hi s₂, dispatch cfg .release s₁ (.signed u)
      (.removeLiquidity a (s₁.swap.totalLiquidities a - s.swap.totalLiquidities a) lo hi) = some (.ok (), s₂) →
    ∃ y' z' done,
      Redeems .release s₁ a (s₁.swap.totalLiquidities a - s.swap.totalLiquidities a)
        (inherentReserve cfg s₁.assets a) y' ∧
      Redeems .release s₁ a (s₁.swap.totalLiquidities a - s.swap.totalLiquidities a)
        (pairedReserve cfg s₁.assets a) z' ∧
      pay .release s₁.assets (payouts cfg s₁.assets u a y' z') = some (done, s₂.assets) ∧
      ∀ j, moved (payouts cfg s₁.assets u a y' z') done j ≤ moved (deposits cfg s.assets u a x y) [true, true] j

/-- When an injection is fair to the other providers: the exchange does not pay itself for a share, and the share costs
its price in the paired asset. Where the inherent asset is paired with itself, both amounts go into one balance, and the
two equal payouts of the share have to stay within them. -/
def FairShare (cfg : Config A) (s : Chain A) (u : A) (a : AssetId) (x y : Balance) : Prop :=
  let total := (s.swap.totalLiquidities a).toNat
  let inherent := (inherentReserve cfg s.assets a).toNat
  let paired := (pairedReserve cfg s.assets a).toNat
  let m := total * x.toNat / inherent
  (u ≠ getExchangeAddress cfg s.assets.inherentAsset a ∨ m = 0) ∧
  if a = s.assets.inherentAsset then
    let pool := inherent + x.toNat + y.toNat
    let payout := pool * m % 2 ^ 128 / (total + m)
    2 * payout ≤ x.toNat + y.toNat ∨ pool < 2 * payout
  else paired * m ≤ y.toNat * total

section Dilution
variable {cfg : Config A} {s s₁ : Chain A} {u : A} {a : AssetId} {x y lo : Balance}

/-- A value for each unit does not drop, with the fractions cleared. -/
theorem ratio_le_iff {b b' l l' : Nat} (hl : 0 < l) (hl' : 0 < l') : (b : ℚ) / l ≤ b' / l' ↔ b * l' ≤ b' * l := by
  rw [div_le_div_iff₀ (by exact_mod_cast hl) (by exact_mod_cast hl')]
  exact_mod_cast Iff.rfl

/-- An injection into a pool in which no operation wraps and whose deposits are made. -/
structure Injection (cfg : Config A) (s s₁ : Chain A) (u : A) (a : AssetId) (x y : Balance) (m : Nat) : Prop where
  minted : m = (s.swap.totalLiquidities a).toNat * x.toNat / (inherentReserve cfg s.assets a).toNat
  total : (s₁.swap.totalLiquidities a).toNat = (s.swap.totalLiquidities a).toNat + m
  inherent : s₁.assets.inherentAsset = s.assets.inherentAsset
  holdings : ∀ j w, s₁.assets.holdings j w + debits (deposits cfg s.assets u a x y) j w =
    s.assets.holdings j w + credits (deposits cfg s.assets u a x y) j w

theorem addLiquidity_injection (htotal : s.swap.totalLiquidities a ≠ 0)
    (hadd : _addLiquidity cfg .checked s u a x y lo = some s₁)
    (hpaid : CoveredInOrder s.assets (deposits cfg s.assets u a x y)) :
    ∃ m, Injection cfg s s₁ u a x y m := by
  obtain ⟨done, st', m, share, total, hpay, hm, hsum, rfl⟩ := addLiquidity_cases hadd
  rcases hm with ⟨hzero, _⟩ | ⟨_, ⟨product, hproduct, hm⟩, _⟩
  · exact absurd hzero htotal
  · obtain ⟨_, rfl⟩ := div_eq hm
    refine ⟨(product / inherentReserve cfg s.assets a).toNat, ?_, ?_, pay_inherent hpay, fun j w => ?_⟩
    · rw [BitVec.toNat_udiv, toNat_mul rfl hproduct]
    · show (Function.update s.swap.totalLiquidities a total a).toNat = _
      rw [Function.update_self, toNat_add rfl hsum]
    · have hrelease : pay .release s.assets (deposits cfg s.assets u a x y) = some (done, st') :=
        mono_pay _ _ Profile.checked_le_release hpay
      exact pay_exact rfl j w hpay (settled_of_all hrelease ((pay_all_iff hrelease).mpr hpaid))

namespace Injection
variable {m : Nat} (d : Injection cfg s s₁ u a x y m)
include d

theorem reserves_pair (hu : u ≠ getExchangeAddress cfg s.assets.inherentAsset a) (ha : a ≠ s.assets.inherentAsset) :
    (inherentReserve cfg s₁.assets a).toNat = (inherentReserve cfg s.assets a).toNat + x.toNat ∧
      (pairedReserve cfg s₁.assets a).toNat = (pairedReserve cfg s.assets a).toNat + y.toNat := by
  have hI := d.holdings s.assets.inherentAsset (getExchangeAddress cfg s.assets.inherentAsset a)
  have hP := d.holdings a (getExchangeAddress cfg s.assets.inherentAsset a)
  simp only [deposits, debits_cons, credits_cons, debits_nil, credits_nil, Payment.debit, Payment.credit, hu, ha,
    Ne.symm ha, and_true, and_false, if_true, if_false, Nat.zero_add, Nat.add_zero] at hI hP
  unfold inherentReserve pairedReserve
  rw [d.inherent]
  exact ⟨hI, hP⟩

/-- Both deposits into the pool of the inherent asset with itself go into one balance. -/
theorem reserves_same (hu : u ≠ getExchangeAddress cfg s.assets.inherentAsset a) (ha : a = s.assets.inherentAsset) :
    (inherentReserve cfg s₁.assets a).toNat = (inherentReserve cfg s.assets a).toNat + x.toNat + y.toNat := by
  subst ha
  have hI := d.holdings s.assets.inherentAsset (getExchangeAddress cfg s.assets.inherentAsset s.assets.inherentAsset)
  simp only [deposits, debits_cons, credits_cons, debits_nil, credits_nil, Payment.debit, Payment.credit, hu, and_true,
    and_false, if_true, if_false, Nat.add_zero] at hI
  unfold inherentReserve
  rw [d.inherent, Nat.add_assoc]
  exact hI

theorem reserves_self (hu : u = getExchangeAddress cfg s.assets.inherentAsset a) :
    (inherentReserve cfg s₁.assets a).toNat = (inherentReserve cfg s.assets a).toNat ∧
      (pairedReserve cfg s₁.assets a).toNat = (pairedReserve cfg s.assets a).toNat := by
  have hI := d.holdings s.assets.inherentAsset (getExchangeAddress cfg s.assets.inherentAsset a)
  have hP := d.holdings a (getExchangeAddress cfg s.assets.inherentAsset a)
  simp only [deposits, debits_cons, credits_cons, debits_nil, credits_nil, Payment.debit, Payment.credit, ← hu,
    and_true] at hI hP
  unfold inherentReserve pairedReserve
  rw [d.inherent, ← hu]
  exact ⟨Nat.add_right_cancel hI, Nat.add_right_cancel hP⟩

theorem redeemed_eq {reserve z : Balance}
    (h : Redeems .release s₁ a (s₁.swap.totalLiquidities a - s.swap.totalLiquidities a) reserve z) :
    z.toNat = reserve.toNat * m % 2 ^ 128 / ((s.swap.totalLiquidities a).toNat + m) := by
  have hm : (s₁.swap.totalLiquidities a - s.swap.totalLiquidities a).toNat = m := by
    have hle : s.swap.totalLiquidities a ≤ s₁.swap.totalLiquidities a := by
      rw [BitVec.le_def, d.total]
      exact Nat.le_add_right _ _
    rw [BitVec.toNat_sub_of_le hle, d.total, Nat.add_sub_cancel_left]
  rw [h.eq, redeemed, BitVec.toNat_udiv, BitVec.toNat_mul, hm, d.total]

/-- A share that costs its price redeems for at most its deposit. -/
theorem redeemed_le {reserve z : Balance} {b c : Nat}
    (h : Redeems .release s₁ a (s₁.swap.totalLiquidities a - s.swap.totalLiquidities a) reserve z)
    (hreserve : reserve.toNat = b + c) (hprice : b * m ≤ c * (s.swap.totalLiquidities a).toNat) : z.toNat ≤ c := by
  rw [d.redeemed_eq h, hreserve]
  exact (Nat.div_le_div_right (Nat.mod_le _ _)).trans (Reserves.redeemed_le hprice)

theorem price : (inherentReserve cfg s.assets a).toNat * m ≤ x.toNat * (s.swap.totalLiquidities a).toNat := by
  rw [d.minted]
  exact minted_le _ _ _

end Injection

omit [DecidableEq A] in
theorem moved_two_le (t₁ t₂ : Payment A) (done : List Bool) (j : AssetId) :
    moved [t₁, t₂] done j ≤ (if t₁.id = j then t₁.amount.toNat else 0) + if t₂.id = j then t₂.amount.toNat else 0 := by
  have hone : ∀ (d : Bool) (t : Payment A),
      (if d = true ∧ t.id = j then t.amount.toNat else 0) ≤ if t.id = j then t.amount.toNat else 0 := by
    intro d t
    by_cases hid : t.id = j <;> cases d <;> simp [hid]
  match done with
  | [] => exact Nat.zero_le _
  | [d] => exact (hone d t₁).trans (Nat.le_add_right _ _)
  | d :: d' :: ds => exact Nat.add_le_add (hone d t₁) ((Nat.add_zero _).trans_le (hone d' t₂))

omit [DecidableEq A] in
theorem moved_deposits (cfg : Config A) (st : Assets A) (u : A) (a : AssetId) (x y : Balance) (j : AssetId) :
    moved (deposits cfg st u a x y) [true, true] j =
      (if st.inherentAsset = j then x.toNat else 0) + if a = j then y.toNat else 0 := by
  simp [moved, deposits]

theorem moved_same {st st' : Assets A} {e : A} {i : AssetId} {z : Balance} {done : List Bool} (hu : u ≠ e)
    (hz : z ≤ st.balances (i, e)) (h : pay .release st [⟨e, i, u, z⟩, ⟨e, i, u, z⟩] = some (done, st')) :
    moved [⟨e, i, u, z⟩, ⟨e, i, u, z⟩] done i =
      if 2 * z.toNat ≤ (st.balances (i, e)).toNat then 2 * z.toNat else z.toNat := by
  by_cases h0 : z = 0
  · have hz0 : z.toNat = 0 := by rw [h0]; rfl
    have hle := moved_two_le ⟨e, i, u, z⟩ ⟨e, i, u, z⟩ done i
    simp only [hz0, ite_self, Nat.mul_zero] at hle ⊢
    omega
  · rcases pay_cons h with ⟨hc, _⟩ | ⟨_, st₁, done', hmake, hpay, rfl⟩
    · exact absurd ⟨h0, hz⟩ hc
    · have hleft : st₁.balances (i, e) = st.balances (i, e) - z := payer_after hmake (Ne.symm hu)
      have hcov : z ≤ st₁.balances (i, e) ↔ 2 * z.toNat ≤ (st.balances (i, e)).toNat := by
        rw [hleft, BitVec.le_def, BitVec.toNat_sub_of_le hz]
        omega
      rcases pay_cons hpay with ⟨hc, done'', hnil, rfl⟩ | ⟨hc, _, done'', _, hnil, rfl⟩
      · rw [(pay_nil hnil).1, if_neg (fun h2 => hc ⟨h0, hcov.mpr h2⟩)]
        simp [moved]
      · rw [(pay_nil hnil).1, if_pos (hcov.mp hc.2)]
        simp only [moved, and_self, if_true]
        omega

theorem notDiluted_self_iff {m : Nat} (d : Injection cfg s s₁ u a x y m)
    (hu : u = getExchangeAddress cfg s.assets.inherentAsset a) (htotal : s.swap.totalLiquidities a ≠ 0)
    (hI : inherentReserve cfg s.assets a ≠ 0) : NotDiluted cfg s s₁ u a x y ↔ m = 0 := by
  have hL : 0 < (s.swap.totalLiquidities a).toNat := by bv_omega
  have hIpos : 0 < (inherentReserve cfg s.assets a).toNat := by bv_omega
  obtain ⟨hI₁, hP₁⟩ := d.reserves_self hu
  unfold NotDiluted
  rw [ratio_le_iff hL (by rw [d.total]; omega), ratio_le_iff hL (by rw [d.total]; omega), hI₁, hP₁, d.total]
  constructor
  · rintro ⟨h, _, _⟩
    have := Nat.le_of_mul_le_mul_left h hIpos
    omega
  · intro hm
    refine ⟨by rw [hm]; exact le_rfl, by rw [hm]; exact le_rfl, fun lo hi s₂ hd => ?_⟩
    obtain ⟨s₃, hs₃, hd⟩ := Option.bind_eq_some_iff.mp hd
    obtain ⟨y', z', done, st', left, total, hy', hz', hpay, _, _, rfl⟩ := removeLiquidity_cases hs₃
    cases hd
    refine ⟨y', z', done, hy', hz', hpay, fun j => ?_⟩
    have hy0 : y'.toNat = 0 := by simp [d.redeemed_eq hy', hm]
    have hz0 : z'.toNat = 0 := by simp [d.redeemed_eq hz', hm]
    refine (moved_two_le _ _ _ j).trans ?_
    simp [hy0, hz0]

theorem notDiluted_pair_iff {m : Nat} (d : Injection cfg s s₁ u a x y m)
    (hu : u ≠ getExchangeAddress cfg s.assets.inherentAsset a) (ha : a ≠ s.assets.inherentAsset)
    (htotal : s.swap.totalLiquidities a ≠ 0) : NotDiluted cfg s s₁ u a x y ↔
      (pairedReserve cfg s.assets a).toNat * m ≤ y.toNat * (s.swap.totalLiquidities a).toNat := by
  have hL : 0 < (s.swap.totalLiquidities a).toNat := by bv_omega
  obtain ⟨hI₁, hP₁⟩ := d.reserves_pair hu ha
  unfold NotDiluted
  rw [ratio_le_iff hL (by rw [d.total]; omega), ratio_le_iff hL (by rw [d.total]; omega), hI₁, hP₁, d.total,
    shares_kept_iff, shares_kept_iff]
  refine ⟨fun h => h.2.1, fun h => ⟨d.price, h, fun lo hi s₂ hd => ?_⟩⟩
  obtain ⟨s₃, hs₃, hd⟩ := Option.bind_eq_some_iff.mp hd
  obtain ⟨y', z', done, st', left, total, hy', hz', hpay, _, _, rfl⟩ := removeLiquidity_cases hs₃
  cases hd
  refine ⟨y', z', done, hy', hz', hpay, fun j => (moved_two_le _ _ _ j).trans ?_⟩
  have hy := d.redeemed_le hy' hI₁ d.price
  have hz := d.redeemed_le hz' hP₁ h
  rw [moved_deposits, d.inherent]
  refine Nat.add_le_add ?_ ?_
  · split
    · exact hy
    · exact le_rfl
  · split
    · exact hz
    · exact le_rfl

theorem moved_payouts_same_iff {st st' : Assets A} {z : Balance} {n : Nat} {done : List Bool}
    (hu : u ≠ getExchangeAddress cfg st.inherentAsset a) (ha : a = st.inherentAsset)
    (hz : z ≤ inherentReserve cfg st a) (hn : z.toNat ≤ n)
    (h : pay .release st (payouts cfg st u a z z) = some (done, st')) :
    (∀ j, moved (payouts cfg st u a z z) done j ≤ if st.inherentAsset = j then n else 0) ↔
      2 * z.toNat ≤ n ∨ (inherentReserve cfg st a).toNat < 2 * z.toNat := by
  have hlist : payouts cfg st u a z z = [⟨getExchangeAddress cfg st.inherentAsset a, st.inherentAsset, u, z⟩,
      ⟨getExchangeAddress cfg st.inherentAsset a, st.inherentAsset, u, z⟩] := by rw [payouts, ← ha]
  rw [hlist] at h ⊢
  have hmoved := moved_same hu hz h
  have hown : (if 2 * z.toNat ≤ (inherentReserve cfg st a).toNat then 2 * z.toNat else z.toNat) ≤ n ↔
      2 * z.toNat ≤ n ∨ (inherentReserve cfg st a).toNat < 2 * z.toNat := by
    split <;> omega
  rw [← hown]
  constructor
  · intro hall
    have hone := hall st.inherentAsset
    rw [if_pos rfl, hmoved] at hone
    exact hone
  · intro hle j
    by_cases hj : st.inherentAsset = j
    · rw [← hj, if_pos rfl, hmoved]
      exact hle
    · refine (moved_two_le _ _ _ j).trans ?_
      simp [hj]

namespace Injection
variable {m : Nat} (d : Injection cfg s s₁ u a x y m) (hu : u ≠ getExchangeAddress cfg s.assets.inherentAsset a)
  (ha : a = s.assets.inherentAsset)
include d

theorem price_same : (inherentReserve cfg s.assets a).toNat * m ≤
    (x.toNat + y.toNat) * (s.swap.totalLiquidities a).toNat :=
  d.price.trans (Nat.mul_le_mul_right _ (Nat.le_add_right _ _))

include hu ha

/-- Where the inherent asset is paid in twice, the two payouts of the minted share are equal. Both are paid if the
reserve covers them, and they return no more than was paid in exactly when that is within the deposits. -/
theorem round_trip_same_iff {y' z' : Balance} {done : List Bool} {st' : Assets A}
    (hy' : Redeems .release s₁ a (s₁.swap.totalLiquidities a - s.swap.totalLiquidities a)
      (inherentReserve cfg s₁.assets a) y')
    (hz' : Redeems .release s₁ a (s₁.swap.totalLiquidities a - s.swap.totalLiquidities a)
      (pairedReserve cfg s₁.assets a) z')
    (hpay : pay .release s₁.assets (payouts cfg s₁.assets u a y' z') = some (done, st')) :
    (∀ j, moved (payouts cfg s₁.assets u a y' z') done j ≤ moved (deposits cfg s.assets u a x y) [true, true] j) ↔
      let pool := (inherentReserve cfg s.assets a).toNat + x.toNat + y.toNat
      let payout := pool * m % 2 ^ 128 / ((s.swap.totalLiquidities a).toNat + m)
      2 * payout ≤ x.toNat + y.toNat ∨ pool < 2 * payout := by
  have hB := d.reserves_same hu ha
  have ha₁ : a = s₁.assets.inherentAsset := ha.trans d.inherent.symm
  have hdeposit : ∀ j, moved (deposits cfg s.assets u a x y) [true, true] j =
      if s₁.assets.inherentAsset = j then x.toNat + y.toNat else 0 := by
    intro j
    rw [moved_deposits, ← ha, ha₁]
    split <;> rfl
  obtain rfl : z' = y' := by rw [hy'.eq, hz'.eq, pairedReserve_inherent ha₁]
  have hle := d.redeemed_le hy' (by rw [hB, Nat.add_assoc]) d.price_same
  have hreserve : z' ≤ inherentReserve cfg s₁.assets a := by
    rw [BitVec.le_def]
    omega
  simp only [hdeposit]
  rw [← hB, ← d.redeemed_eq hy']
  refine moved_payouts_same_iff ?_ ha₁ hreserve hle hpay
  rw [d.inherent]
  exact hu

end Injection

theorem notDiluted_same_iff {m : Nat} (d : Injection cfg s s₁ u a x y m)
    (hu : u ≠ getExchangeAddress cfg s.assets.inherentAsset a) (ha : a = s.assets.inherentAsset)
    (htotal : s.swap.totalLiquidities a ≠ 0) : NotDiluted cfg s s₁ u a x y ↔
      let pool := (inherentReserve cfg s.assets a).toNat + x.toNat + y.toNat
      let payout := pool * m % 2 ^ 128 / ((s.swap.totalLiquidities a).toNat + m)
      2 * payout ≤ x.toNat + y.toNat ∨ pool < 2 * payout := by
  have hL : 0 < (s.swap.totalLiquidities a).toNat := by bv_omega
  have hinherent : (inherentReserve cfg s.assets a).toNat * ((s.swap.totalLiquidities a).toNat + m) ≤
      (inherentReserve cfg s₁.assets a).toNat * (s.swap.totalLiquidities a).toNat := by
    rw [d.reserves_same hu ha, Nat.add_assoc, shares_kept_iff]
    exact d.price_same
  unfold NotDiluted
  rw [ratio_le_iff hL (by rw [d.total]; omega), ratio_le_iff hL (by rw [d.total]; omega), d.total,
    pairedReserve_inherent ha, pairedReserve_inherent (ha.trans d.inherent.symm)]
  constructor
  · rintro ⟨_, _, h⟩
    have hne : s₁.swap.totalLiquidities a ≠ 0 := by
      have := d.total
      bv_omega
    obtain ⟨s₂, hs₂⟩ := (removeLiquidity_release_iff cfg s₁ u a
      (s₁.swap.totalLiquidities a - s.swap.totalLiquidities a) 0 0).mpr hne
    obtain ⟨y', z', done, hy', hz', hpay, hle⟩ := h 0 0 s₂ (Option.bind_eq_some_iff.mpr ⟨s₂, hs₂, rfl⟩)
    rw [← pairedReserve_inherent (ha.trans d.inherent.symm)] at hz'
    exact (d.round_trip_same_iff hu ha hy' hz' hpay).mp hle
  · intro h
    refine ⟨hinherent, hinherent, fun lo hi s₂ hd => ?_⟩
    obtain ⟨s₃, hs₃, hd⟩ := Option.bind_eq_some_iff.mp hd
    obtain ⟨y', z', done, st', left, total, hy', hz', hpay, _, _, rfl⟩ := removeLiquidity_cases hs₃
    cases hd
    have hround := (d.round_trip_same_iff hu ha hy' hz' hpay).mpr h
    rw [pairedReserve_inherent (ha.trans d.inherent.symm)] at hz'
    exact ⟨y', z', done, hy', hz', hpay, hround⟩

/-- **An injection whose deposits are made and whose arithmetic does not overflow dilutes nobody exactly when it is
fair.** -/
theorem notDiluted_iff (htotal : s.swap.totalLiquidities a ≠ 0) (hinherent : inherentReserve cfg s.assets a ≠ 0)
    (hadd : dispatch cfg .checked s (.signed u) (.addLiquidity a x y lo) = some (.ok (), s₁))
    (hpaid : CoveredInOrder s.assets (deposits cfg s.assets u a x y)) :
    NotDiluted cfg s s₁ u a x y ↔ FairShare cfg s u a x y := by
  obtain ⟨s₂, hs₂, hadd⟩ := Option.bind_eq_some_iff.mp hadd
  cases hadd
  obtain ⟨m, d⟩ := addLiquidity_injection htotal hs₂ hpaid
  unfold FairShare
  dsimp only
  rw [← d.minted]
  by_cases hu : u = getExchangeAddress cfg s.assets.inherentAsset a
  · rw [notDiluted_self_iff d hu htotal hinherent]
    constructor
    · rintro rfl
      refine ⟨Or.inr rfl, ?_⟩
      split <;> simp
    · rintro ⟨hself | hm, _⟩
      · exact absurd hu hself
      · exact hm
  · by_cases ha : a = s.assets.inherentAsset
    · rw [notDiluted_same_iff d hu ha htotal, if_pos ha]
      exact ⟨fun h => ⟨Or.inl hu, h⟩, fun h => h.2⟩
    · rw [notDiluted_pair_iff d hu ha htotal, if_neg ha]
      exact ⟨fun h => ⟨Or.inl hu, h⟩, fun h => h.2⟩

end Dilution

/-- A pool of 1000 against 1000, to which user `1` adds 100 of each asset. -/
theorem notDiluted_pair : ∃ s s₁, play pairConfig .release pairGenesis
      [.call (.signed (.inl 1)) (.swap (.addLiquidity 1 1000 1000 0))] = some s ∧
    dispatch pairConfig .checked s (.signed (.inl 1)) (.addLiquidity 1 100 100 0) = some (.ok (), s₁) ∧
    s₁.swap.totalLiquidities 1 = 1100 ∧ NotDiluted pairConfig s s₁ (.inl 1) 1 100 100 := by
  have hrun : ∃ s s₁, play pairConfig .release pairGenesis
        [.call (.signed (.inl 1)) (.swap (.addLiquidity 1 1000 1000 0))] = some s ∧
      dispatch pairConfig .checked s (.signed (.inl 1)) (.addLiquidity 1 100 100 0) = some (.ok (), s₁) ∧
      s₁.swap.totalLiquidities 1 = 1100 ∧ s.swap.totalLiquidities 1 ≠ 0 ∧
      inherentReserve pairConfig s.assets 1 ≠ 0 ∧
      CoveredInOrder s.assets (deposits pairConfig s.assets (.inl 1) 1 100 100) ∧
      FairShare pairConfig s (.inl 1) 1 100 100 := by
    refine ⟨_, _, rfl, rfl, by decide, by decide, by decide, ⟨by decide, ?_⟩, ?_⟩
    · rintro st₁ ⟨⟩
      exact ⟨by decide, fun _ _ => trivial⟩
    · exact ⟨Or.inl (pairConfig_user 1 0 1), by decide⟩
  obtain ⟨s, s₁, hs, hadd, htotal, hL, hI, hpaid, hfair⟩ := hrun
  exact ⟨s, s₁, hs, hadd, htotal, (notDiluted_iff hL hI hadd hpaid).mpr hfair⟩

/-- To a pool of 1000 against 1000 user `1` adds 1000 of the inherent asset and 2 of asset `1`. It mints as much as
there was, and redeems it for 1000 of the inherent asset and 501 of asset `1`. -/
theorem one_sided_injection : ∃ s s₁ s₂, play pairConfig .release pairGenesis
      [.call (.signed (.inl 1)) (.swap (.addLiquidity 1 1000 1000 0))] = some s ∧
    dispatch pairConfig .checked s (.signed (.inl 1)) (.addLiquidity 1 1000 2 0) = some (.ok (), s₁) ∧
    CoveredInOrder s.assets (deposits pairConfig s.assets (.inl 1) 1 1000 2) ∧
    dispatch pairConfig .checked s₁ (.signed (.inl 1)) (.removeLiquidity 1 1000 0 0) = some (.ok (), s₂) ∧
    s₂.assets.balances (0, .inl 1) = s.assets.balances (0, .inl 1) ∧
    s₂.assets.balances (1, .inl 1) = s.assets.balances (1, .inl 1) + 499 ∧
    ¬ ((pairedReserve pairConfig s.assets 1).toNat : ℚ) / (s.swap.totalLiquidities 1).toNat ≤
      (pairedReserve pairConfig s₁.assets 1).toNat / (s₁.swap.totalLiquidities 1).toNat := by
  refine ⟨_, _, _, rfl, rfl, ⟨by decide, ?_⟩, rfl, by decide, by decide, ?_⟩
  · rintro st₁ ⟨⟩
    exact ⟨by decide, fun _ _ => trivial⟩
  · rw [ratio_le_iff (by decide) (by decide)]
    decide

end Konomi.Swap
