import Konomi.Swap.Product

/-!
# Exact-output swaps

`calc_input_at_known_output` computes the quotient and returns the requested output instead: one unit is paid for one
unit, whatever the reserves are. The price is at least the inverse of `calc_output_at_known_input` exactly while the
reserve paid out stays the larger one (`calcInput_inverts_iff`), and the pools of a swap keep their products under the
same condition on each hop (`FairOutput`).
-/

namespace Konomi.Swap
open Machine Assets Reserves

variable {A : Type} [DecidableEq A]

/-! ## The price -/

/-- Without overflow, pricing an output and selling the price for it again returns the output exactly when nothing is
asked for or the reserve paid out stays the larger one. -/
theorem calcInput_inverts_iff {x y out input back : Balance} {fee : BitVec 64} (hout : out < y)
    (hinput : calcInputAtKnownOutput .checked out x y fee = some (.ok input))
    (hback : calcOutputAtKnownInput .checked input x y fee = some (.ok back)) :
    out ≤ back ↔ out = 0 ∨ x.toNat + out.toNat ≤ y.toNat := by
  obtain ⟨hx, _, hprice⟩ := calcInput_ok hinput
  have hsame : input = out := by
    rcases hprice with ⟨hle, _⟩ | ⟨_, hsame⟩
    · exact absurd hout (BitVec.not_lt.mpr hle)
    · exact hsame
  subst hsame
  have hxpos : 0 < x.toNat := by bv_omega
  have hexact := calcOutput_exact rfl hback
  rw [BitVec.le_def, hexact, le_quote_self_iff hxpos]
  constructor
  · rintro (h | h)
    · exact Or.inl (BitVec.eq_of_toNat_eq h)
    · exact Or.inr h
  · rintro (rfl | h)
    · exact Or.inl rfl
    · exact Or.inr h

/-! ## Hops at one for one -/

section Hops
variable {st st' : Assets A} {u v e e' : A} {i j a b : AssetId} {y : Balance} {done : List Bool}

/-- In and out for the same amount: the product is kept exactly when one balance is both reserves, the exchange pays
itself, or the reserve paid out stays the larger one. -/
theorem hop_product_iff (hu : u ≠ e) (hpay : pay .checked st [⟨u, i, e, y⟩, ⟨e, j, v, y⟩] = some (done, st'))
    (hset : List.Forall₂ Settled [⟨u, i, e, y⟩, ⟨e, j, v, y⟩] done) (hy0 : y ≠ 0) (hy : y.toNat < st.holdings j e) :
    st.holdings i e * st.holdings j e ≤ st'.holdings i e * st'.holdings j e ↔
      i = j ∨ v = e ∨ st.holdings i e + y.toNat ≤ st.holdings j e := by
  have hypos : y.toNat ≠ 0 := by bv_omega
  have hini := pay_exact rfl i e hpay hset
  have houtj := pay_exact rfl j e hpay hset
  simp only [debits_cons, credits_cons, debits_nil, credits_nil, Payment.debit, Payment.credit, hu, and_true,
    true_and, and_false, if_true, if_false] at hini houtj
  by_cases hij : i = j
  · subst hij
    have hgrow : st.holdings i e ≤ st'.holdings i e := by
      simp only [true_and, if_true] at hini
      omega
    simp only [true_or, iff_true]
    exact Nat.mul_le_mul hgrow hgrow
  · simp only [hij, Ne.symm hij, false_and, if_false] at hini houtj
    by_cases hv : v = e
    · simp only [hv, if_true] at houtj
      simp only [hv, true_or, or_true, iff_true]
      exact Nat.mul_le_mul (by omega) (by omega)
    · simp only [hv, if_false] at houtj
      have hin : st'.holdings i e = st.holdings i e + y.toNat := by omega
      have hout : st'.holdings j e = st.holdings j e - y.toNat := by omega
      rw [hin, hout, product_self_iff hy.le]
      simp [hij, hv, hypos]

theorem across_product_iff (hu : u ≠ e) (hu' : u ≠ e') (he : e ≠ e') (ha : a ≠ i) (hb : b ≠ i)
    (hpay : pay .checked st [⟨u, a, e, y⟩, ⟨e, i, e', y⟩, ⟨e', b, v, y⟩] = some (done, st'))
    (hset : List.Forall₂ Settled [⟨u, a, e, y⟩, ⟨e, i, e', y⟩, ⟨e', b, v, y⟩] done) (hab : a ≠ b) (hy0 : y ≠ 0)
    (hyi : y.toNat < st.holdings i e) (hyb : y.toNat < st.holdings b e') :
    (st.holdings i e * st.holdings a e ≤ st'.holdings i e * st'.holdings a e ↔
      st.holdings a e + y.toNat ≤ st.holdings i e) ∧
    (st.holdings i e' * st.holdings b e' ≤ st'.holdings i e' * st'.holdings b e' ↔
      v = e' ∨ st.holdings i e' + y.toNat ≤ st.holdings b e') := by
  have hypos : y.toNat ≠ 0 := by bv_omega
  have hexact := fun j w => pay_exact rfl j w hpay hset
  have hai := hexact a e
  have hii := hexact i e
  have hii' := hexact i e'
  have hbb' := hexact b e'
  simp only [debits_cons, credits_cons, debits_nil, credits_nil, Payment.debit, Payment.credit, hu, hu', he, ha, hb,
    hab, Ne.symm he, Ne.symm ha, Ne.symm hb, Ne.symm hab, and_true, true_and, and_false, false_and, if_true, if_false]
    at hai hii hii' hbb'
  constructor
  · have hin : st'.holdings a e = st.holdings a e + y.toNat := by omega
    have hout : st'.holdings i e = st.holdings i e - y.toNat := by omega
    rw [hin, hout, Nat.mul_comm (st.holdings i e), Nat.mul_comm (st.holdings i e - _), product_self_iff hyi.le]
    simp [hypos]
  · have hin : st'.holdings i e' = st.holdings i e' + y.toNat := by omega
    by_cases hv : v = e'
    · simp only [hv, if_true] at hbb'
      simp only [hv, true_or, iff_true]
      exact Nat.mul_le_mul (by omega) (by omega)
    · simp only [hv, if_false] at hbb'
      have hout : st'.holdings b e' = st.holdings b e' - y.toNat := by omega
      rw [hin, hout, product_self_iff hyb.le]
      simp [hv, hypos]

theorem back_product_le (hu : u ≠ e) (ha : a ≠ i)
    (hpay : pay .checked st [⟨u, a, e, y⟩, ⟨e, i, e, y⟩, ⟨e, a, v, y⟩] = some (done, st'))
    (hset : List.Forall₂ Settled [⟨u, a, e, y⟩, ⟨e, i, e, y⟩, ⟨e, a, v, y⟩] done) :
    st.holdings i e * st.holdings a e ≤ st'.holdings i e * st'.holdings a e := by
  have hii := pay_exact rfl i e hpay hset
  have haa := pay_exact rfl a e hpay hset
  simp only [debits_cons, credits_cons, debits_nil, credits_nil, Payment.debit, Payment.credit, hu, ha, Ne.symm ha,
    and_true, true_and, and_false, false_and, if_true, if_false] at hii haa
  exact Nat.mul_le_mul (by omega) (by omega)

end Hops

/-! ## Swaps -/

/-- When an exact-output swap of `out` keeps the products of its pools: on each hop the exchange pays itself, or the
reserve paid out stays the larger one. -/
def FairOutput (cfg : Config A) (st : Assets A) (v : A) (a b : AssetId) (out : Balance) : Prop :=
  if a = st.inherentAsset then
    b = st.inherentAsset ∨ v = getExchangeAddress cfg st.inherentAsset b ∨
      (reserves cfg st b).1 + out.toNat ≤ (reserves cfg st b).2
  else if b = st.inherentAsset then
    v = getExchangeAddress cfg st.inherentAsset a ∨ (reserves cfg st a).2 + out.toNat ≤ (reserves cfg st a).1
  else
    a = b ∨ (reserves cfg st a).2 + out.toNat ≤ (reserves cfg st a).1 ∧
      (v = getExchangeAddress cfg st.inherentAsset b ∨ (reserves cfg st b).1 + out.toNat ≤ (reserves cfg st b).2)

section Step
variable [Fintype A] {cfg : Config A} {st st' : Assets A} {u v : A} {a b : AssetId} {out lim : Balance}
  {fee : BitVec 64} {r : Route A} {done : List Bool}

theorem input_paid {p : Profile} {e : A} {o x y : Balance} {c : AssetId} {f : BitVec 64} (hst : Conserved st)
    (hue : u ≠ e) (h : calcInputAtKnownOutput p y (st.balances (c, e)) o f = some (.ok x)) (hx : st.Covered u c x) :
    y < o ∧ x = y := by
  obtain ⟨he, _, hprice⟩ := calcInput_ok h
  rcases hprice with ⟨_, rfl⟩ | hsame
  · exact absurd hx (not_covered_max hst hue (holdings_pos he))
  · exact hsame

/-- **An exact-output swap whose transfers succeed keeps the products of all pools exactly when it is fair.** -/
theorem exactOutput_product_iff (hinj : Function.Injective2 cfg.makeExchangeAddress)
    (hu : ∀ i j, u ≠ cfg.makeExchangeAddress i j) (hst : Conserved st)
    (hr : routeWithExactOutput cfg .release st u v a b out lim fee = some (.ok r))
    (hpay : pay .release st r.payments = some (done, st')) (hall : ∀ d ∈ done, d = true) :
    (∀ c, (reserves cfg st c).1 * (reserves cfg st c).2 ≤ (reserves cfg st' c).1 * (reserves cfg st' c).2) ↔
      FairOutput cfg st v a b out := by
  have hset := settled_of_all hpay hall
  have hcov := (pay_all_iff hpay).mp hall
  have hpay := pay_checked hst hpay
  have hothers : ∀ c, (∀ t ∈ r.payments, t.payer ≠ getExchangeAddress cfg st.inherentAsset c) →
      (reserves cfg st c).1 * (reserves cfg st c).2 ≤ (reserves cfg st' c).1 * (reserves cfg st' c).2 :=
    fun c hc => (others_unspent hpay hc).product
  have hue : ∀ c, u ≠ getExchangeAddress cfg st.inherentAsset c := fun c => hu _ c
  simp only [reserves, FairOutput, pay_inherent hpay] at hothers ⊢
  rcases exactOutput_cases hr with ⟨rfl, x, hx, rfl⟩ | ⟨ha, rfl, x, hx, rfl⟩ | ⟨ha, hb, m, x, hm, hx, rfl⟩
  · obtain ⟨hlt, rfl⟩ := input_paid (f := fee) hst (hue _) hx hcov.1
    rw [if_pos rfl, eq_comm (a := b), ← hop_product_iff (hue _) hpay hset hcov.1.1 (BitVec.lt_def.mp hlt)]
    refine ⟨fun h => h b, fun h c => ?_⟩
    by_cases hc : c = b
    · subst hc
      exact h
    · exact hothers c (hop_payers hinj hu hc)
  · obtain ⟨hlt, rfl⟩ := input_paid (f := fee) hst (hue _) hx hcov.1
    have hiff := hop_product_iff (hue _) hpay hset hcov.1.1 (BitVec.lt_def.mp hlt)
    simp only [ha, false_or] at hiff
    rw [if_neg ha, if_pos rfl, ← hiff]
    refine ⟨fun h => ?_, fun h c => ?_⟩
    · have hprod := h a
      rw [Nat.mul_comm, Nat.mul_comm (st'.holdings _ _)] at hprod
      exact hprod
    · by_cases hc : c = a
      · subst hc
        rw [Nat.mul_comm, Nat.mul_comm (st'.holdings _ _)]
        exact h
      · exact hothers c (hop_payers hinj hu hc)
  · -- what crosses is below a reserve, so it is not the price of a whole one
    obtain ⟨hltI, rfl⟩ := input_paid (f := fee) hst (hue _) hx hcov.1
    obtain ⟨hltP, rfl⟩ := calcInput_below (f := fee) hm hltI
    rw [if_neg ha, if_neg hb]
    by_cases hab : a = b
    · subst hab
      simp only [true_or, iff_true]
      intro c
      by_cases hc : c = a
      · subst hc
        exact back_product_le (hue _) ha hpay hset
      · exact hothers c (across_payers hinj hu hc hc)
    · have hne := exchange_ne (i := st.inherentAsset) hinj hab
      obtain ⟨hA, hB⟩ := across_product_iff (hue _) (hue _) hne ha hb hpay hset hab hcov.1.1
        (BitVec.lt_def.mp hltI) (BitVec.lt_def.mp hltP)
      simp only [hab, false_or]
      rw [← hA, ← hB]
      refine ⟨fun h => ⟨h a, h b⟩, fun h c => ?_⟩
      by_cases hca : c = a
      · subst hca
        exact h.1
      · by_cases hcb : c = b
        · subst hcb
          exact h.2
        · exact hothers c (across_payers hinj hu hca hcb)

/-- **Exact-output prices.** Without overflow, the price of an output buys it back exactly when nothing is asked for or
the reserve paid out stays the larger one. From any reachable state, an exact-output swap whose transfers succeed keeps
the product of the reserves of every pool exactly when each of its hops is fair in that sense. -/
theorem exactOutput_fair_iff :
    (∀ (x y out input back : Balance) (fee : BitVec 64), out < y →
      calcInputAtKnownOutput .checked out x y fee = some (.ok input) →
      calcOutputAtKnownInput .checked input x y fee = some (.ok back) →
      (out ≤ back ↔ out = 0 ∨ x.toNat + out.toNat ≤ y.toNat)) ∧
    ∀ (cfg : Config A) (s s' : Chain A) (u v : A) (a b : AssetId) (out lim : Balance),
      Function.Injective2 cfg.makeExchangeAddress → (∀ i j, u ≠ cfg.makeExchangeAddress i j) → Reachable cfg s →
      dispatch cfg .release s (.signed u) (.swapAssetsWithExactOutput v a b out lim) = some (.ok (), s') →
      (∀ r, routeOf cfg .release s u (.swapAssetsWithExactOutput v a b out lim) = some (.ok r) →
        CoveredInOrder s.assets r.payments) →
      ((∀ c, (reserves cfg s.assets c).1 * (reserves cfg s.assets c).2 ≤
          (reserves cfg s'.assets c).1 * (reserves cfg s'.assets c).2) ↔ FairOutput cfg s.assets v a b out) := by
  refine ⟨fun x y out input back fee => calcInput_inverts_iff, ?_⟩
  intro cfg s s' u v a b out lim hinj hu hs hd hpaid
  change runRoute .release s (routeOf cfg .release s u (.swapAssetsWithExactOutput v a b out lim)) = _ at hd
  rcases runRoute_cases hd with ⟨e, _, he, _⟩ | ⟨r, done, st', hr, hpay, _, rfl⟩
  · cases he
  · exact exactOutput_product_iff hinj hu hs.conserved hr hpay ((pay_all_iff hpay).mpr (hpaid r hr))

end Step

/-- The pool of asset `1` holds 100 of the inherent asset and 1000 of asset `1`, and user `1` buys 50 of asset `1`. -/
theorem exactOutput_fair_pair : ∃ s s', Reachable pairConfig s ∧
    dispatch pairConfig .release s (.signed (.inl 1)) (.swapAssetsWithExactOutput (.inl 1) 0 1 50 100) =
      some (.ok (), s') ∧
    reserves pairConfig s.assets 1 = (100, 1000) ∧ reserves pairConfig s'.assets 1 = (150, 950) ∧
    (∀ c, (reserves pairConfig s.assets c).1 * (reserves pairConfig s.assets c).2 ≤
      (reserves pairConfig s'.assets c).1 * (reserves pairConfig s'.assets c).2) ∧ (50 : Balance) ≤ 333 := by
  have hplay : ∃ s s', play pairConfig .release pairGenesis (List.flatMap Block.actions
        [⟨1, [(.signed (.inl 1), .swap (.addLiquidity 1 100 1000 0))], by decide⟩]) = some s ∧
      dispatch pairConfig .release s (.signed (.inl 1)) (.swapAssetsWithExactOutput (.inl 1) 0 1 50 100) =
        some (.ok (), s') ∧
      (∀ r, routeOf pairConfig .release s (.inl 1) (.swapAssetsWithExactOutput (.inl 1) 0 1 50 100) = some (.ok r) →
        CoveredInOrder s.assets r.payments) ∧
      reserves pairConfig s.assets 1 = (100, 1000) ∧ reserves pairConfig s'.assets 1 = (150, 950) ∧
      FairOutput pairConfig s.assets (.inl 1) 0 1 50 := by
    refine ⟨_, _, rfl, rfl, ?_, by decide, by decide, Or.inr (Or.inr (by decide))⟩
    rintro r ⟨⟩
    refine ⟨by decide, ?_⟩
    rintro st₁ ⟨⟩
    exact ⟨by decide, fun st₂ _ => trivial⟩
  obtain ⟨s, s', hs, hd, hpaid, hbefore, hafter, hfair⟩ := hplay
  have hreach : Reachable pairConfig s := ⟨pairGenesis, _, by decide, hs⟩
  refine ⟨s, s', hreach, hd, hbefore, hafter, ?_, ?_⟩
  · exact (exactOutput_fair_iff.2 pairConfig s s' _ _ _ _ _ _ pairConfig_injective (pairConfig_user 1) hreach hd
      hpaid).mpr hfair
  · exact ((exactOutput_fair_iff (A := PairAccount)).1 100 1000 50 50 333 0 (by decide) rfl rfl).mpr
      (Or.inr (by decide))

/-- With 1000 of the inherent asset against 100 of asset `1`, 50 of asset `1` cost 50, for which the pool would give 4.
The swap takes the product of the reserves from 100000 to 52500. -/
theorem one_for_one_price :
    (calcInputAtKnownOutput .checked 50 1000 100 0 = some (.ok 50) ∧
      calcOutputAtKnownInput .checked 50 1000 100 0 = some (.ok 4)) ∧
    ∃ s s', Reachable pairConfig s ∧
      dispatch pairConfig .release s (.signed (.inl 1)) (.swapAssetsWithExactOutput (.inl 1) 0 1 50 100) =
        some (.ok (), s') ∧
      (∀ r, routeOf pairConfig .release s (.inl 1) (.swapAssetsWithExactOutput (.inl 1) 0 1 50 100) = some (.ok r) →
        CoveredInOrder s.assets r.payments) ∧
      reserves pairConfig s.assets 1 = (1000, 100) ∧ reserves pairConfig s'.assets 1 = (1050, 50) ∧
      ¬ ∀ c, (reserves pairConfig s.assets c).1 * (reserves pairConfig s.assets c).2 ≤
        (reserves pairConfig s'.assets c).1 * (reserves pairConfig s'.assets c).2 := by
  refine ⟨⟨rfl, rfl⟩, ?_⟩
  have hplay : ∃ s s', play pairConfig .release pairGenesis (List.flatMap Block.actions
        [⟨1, [(.signed (.inl 1), .swap (.addLiquidity 1 1000 100 0))], by decide⟩]) = some s ∧
      dispatch pairConfig .release s (.signed (.inl 1)) (.swapAssetsWithExactOutput (.inl 1) 0 1 50 100) =
        some (.ok (), s') ∧
      (∀ r, routeOf pairConfig .release s (.inl 1) (.swapAssetsWithExactOutput (.inl 1) 0 1 50 100) = some (.ok r) →
        CoveredInOrder s.assets r.payments) ∧
      reserves pairConfig s.assets 1 = (1000, 100) ∧ reserves pairConfig s'.assets 1 = (1050, 50) := by
    refine ⟨_, _, rfl, rfl, ?_, by decide, by decide⟩
    rintro r ⟨⟩
    refine ⟨by decide, ?_⟩
    rintro st₁ ⟨⟩
    exact ⟨by decide, fun st₂ _ => trivial⟩
  obtain ⟨s, s', hs, hd, hpaid, hbefore, hafter⟩ := hplay
  refine ⟨s, s', ⟨pairGenesis, _, by decide, hs⟩, hd, hpaid, hbefore, hafter, fun h => ?_⟩
  have hone := h 1
  rw [hbefore, hafter] at hone
  exact absurd hone (by decide)

end Konomi.Swap
