import Konomi.Swap.Balances

/-!
# The constant product

`reserves cfg st c` : what the exchange of the pool of `c` holds of the inherent asset and of `c`. An exact-input swap
whose input is paid trades at most at the quote in every pool it goes through, so no reserve is spent (`Unspent`) in
any run of them. The one exception is a route from an asset to itself: its second hop is priced on the reserves before
the first, and the sum of the inherent reserve and the amount that crosses can wrap (`FairSwap` excludes it).
-/

namespace Konomi.Swap
open Machine Assets Reserves

variable {A : Type} [DecidableEq A]

/-- The inherent and the paired reserve of the pool of `c`. -/
def reserves (cfg : Config A) (st : Assets A) (c : AssetId) : Nat × Nat :=
  (st.holdings st.inherentAsset (getExchangeAddress cfg st.inherentAsset c),
    st.holdings c (getExchangeAddress cfg st.inherentAsset c))

/-! ## Hops -/

section Hops
variable {p : Profile} {st st' : Assets A} {u v e e' : A} {i j a b : AssetId} {x m y : Balance} {done : List Bool}

theorem hop_other (hp : p.wraps = false) {ts : List (Payment A)} (h : pay p st ts = some (done, st'))
    (he : ∀ t ∈ ts, t.payer ≠ e) (j : AssetId) : st.holdings j e ≤ st'.holdings j e := by
  have hle := pay_le hp j e h
  have hzero : debits ts j e = 0 := by
    simp only [debits, List.sum_eq_zero_iff, List.mem_map, forall_exists_index, and_imp, forall_apply_eq_imp_iff₂]
    intro t ht
    simp [Payment.debit, he t ht]
  omega

/-- In at `i`, out at `j` for at most the quote: no reserve of the exchange is spent. -/
theorem hop_unspent (hp : p.wraps = false) (hu : u ≠ e)
    (h : pay p st [⟨u, i, e, x⟩, ⟨e, j, v, y⟩] = some (done, st')) (hx : x.toNat ≤ st.holdings i u)
    (hi : 0 < st.holdings i e) (hj : 0 < st.holdings j e)
    (hy : y.toNat ≤ quote (st.holdings i e) (st.holdings j e) x.toNat) :
    Unspent (st.holdings i e, st.holdings j e) (st'.holdings i e, st'.holdings j e) := by
  have hlt : quote (st.holdings i e) (st.holdings j e) x.toNat < st.holdings j e := quote_lt hi hj
  have hfund : Funded st.holdings [⟨u, i, e, x⟩, ⟨e, j, v, y⟩] := by
    simp only [Funded, Payment.debit, hu, and_false, if_false, and_true]
    omega
  have hini := pay_funded hp h hfund i e
  have houtj := pay_funded hp h hfund j e
  simp only [debits_cons, credits_cons, debits_nil, credits_nil, Payment.debit, Payment.credit, hu, and_true,
    true_and, and_false, if_true, if_false] at hini houtj
  by_cases hij : i = j
  · -- one balance is both reserves
    subst hij
    have hle := hy.trans (quote_self_le _ _)
    have hgrow : st.holdings i e ≤ st'.holdings i e := by
      simp only [true_and, if_true] at hini
      omega
    exact Unspent.of_le hgrow hgrow
  · simp only [hij, Ne.symm hij, false_and, if_false] at hini houtj
    apply Unspent.of_trade hi hj hy <;> simp only <;> omega

/-- From `a` across the inherent asset `i` to `b` through two exchanges, each hop for at most its quote. -/
theorem across_unspent (hp : p.wraps = false) (hu : u ≠ e) (hu' : u ≠ e') (he : e ≠ e') (ha : a ≠ i) (hb : b ≠ i)
    (h : pay p st [⟨u, a, e, x⟩, ⟨e, i, e', m⟩, ⟨e', b, v, y⟩] = some (done, st')) (hx : x.toNat ≤ st.holdings a u)
    (hae : 0 < st.holdings a e) (hie : 0 < st.holdings i e) (hie' : 0 < st.holdings i e')
    (hbe' : 0 < st.holdings b e') (hm : m.toNat ≤ quote (st.holdings a e) (st.holdings i e) x.toNat)
    (hy : y.toNat ≤ quote (st.holdings i e') (st.holdings b e') m.toNat) :
    Unspent (st.holdings a e, st.holdings i e) (st'.holdings a e, st'.holdings i e) ∧
      Unspent (st.holdings i e', st.holdings b e') (st'.holdings i e', st'.holdings b e') := by
  have hmlt : quote (st.holdings a e) (st.holdings i e) x.toNat < st.holdings i e := quote_lt hae hie
  have hylt : quote (st.holdings i e') (st.holdings b e') m.toNat < st.holdings b e' := quote_lt hie' hbe'
  have hfund : Funded st.holdings [⟨u, a, e, x⟩, ⟨e, i, e', m⟩, ⟨e', b, v, y⟩] := by
    simp only [Funded, Payment.debit, hu, hu', he, ha, and_false, if_false, and_true]
    omega
  have hexact := pay_funded hp h hfund
  have hai := hexact a e
  have hii := hexact i e
  have hii' := hexact i e'
  have hbb' := hexact b e'
  simp only [debits_cons, credits_cons, debits_nil, credits_nil, Payment.debit, Payment.credit, hu, hu', he, ha, hb,
    Ne.symm he, Ne.symm ha, Ne.symm hb, and_true, true_and, and_false, false_and, if_true, if_false]
    at hai hii hii' hbb'
  constructor
  · apply Unspent.of_trade hae hie hm <;> simp only <;> omega
  · apply Unspent.of_trade hie' hbe' hy <;> simp only <;> omega

/-- From `a` across the inherent asset `i` and back to `a`: what crosses is paid by the exchange to itself. -/
theorem back_unspent (hp : p.wraps = false) (hu : u ≠ e) (ha : a ≠ i)
    (h : pay p st [⟨u, a, e, x⟩, ⟨e, i, e, m⟩, ⟨e, a, v, y⟩] = some (done, st')) (hx : x.toNat ≤ st.holdings a u)
    (hae : 0 < st.holdings a e) (hie : 0 < st.holdings i e)
    (hm : m.toNat ≤ quote (st.holdings a e) (st.holdings i e) x.toNat)
    (hy : y.toNat ≤ quote (st.holdings i e) (st.holdings a e) m.toNat) :
    Unspent (st.holdings i e, st.holdings a e) (st'.holdings i e, st'.holdings a e) := by
  have hmlt : quote (st.holdings a e) (st.holdings i e) x.toNat < st.holdings i e := quote_lt hae hie
  have hylt : quote (st.holdings i e) (st.holdings a e) m.toNat < st.holdings a e := quote_lt hie hae
  have hyx : y.toNat ≤ x.toNat := le_of_round_trip hie hm hy
  have hfund : Funded st.holdings [⟨u, a, e, x⟩, ⟨e, i, e, m⟩, ⟨e, a, v, y⟩] := by
    simp only [Funded, Payment.debit, hu, Ne.symm ha, and_false, if_false, and_true]
    omega
  have hexact := pay_funded hp h hfund
  have hii := hexact i e
  have haa := hexact a e
  simp only [debits_cons, credits_cons, debits_nil, credits_nil, Payment.debit, Payment.credit, hu, ha, Ne.symm ha,
    and_true, true_and, and_false, false_and, if_true, if_false] at hii haa
  apply Unspent.of_le <;> simp only <;> omega

end Hops

/-! ## Exact-input swaps -/

/-- The price of an input that fits beside the reserve is at most the quote. -/
theorem calcOutput_quote {p : Profile} {x i o m : Balance} {f : BitVec 64}
    (h : calcOutputAtKnownInput p x i o f = some (.ok m)) (hfit : x.toNat + i.toNat < 2 ^ 128) :
    0 < i.toNat ∧ 0 < o.toNat ∧ m.toNat ≤ quote i.toNat o.toNat x.toNat := by
  obtain ⟨hi, ho, hm⟩ := calcOutput_ok h
  refine ⟨by bv_omega, by bv_omega, ?_⟩
  rw [hm, Nat.mod_eq_of_lt hfit]
  exact Nat.div_le_div_right (Nat.mod_le _ _)

theorem calcOutput_exact {p : Profile} {x i o m : Balance} {f : BitVec 64} (hp : p.wraps = false)
    (h : calcOutputAtKnownInput p x i o f = some (.ok m)) : m.toNat = quote i.toNat o.toNat x.toNat := by
  unfold calcOutputAtKnownInput at h
  split at h
  · cases h
  · obtain ⟨d, hd, h⟩ := Option.bind_eq_some_iff.mp h
    obtain ⟨n, hn, h⟩ := Option.bind_eq_some_iff.mp h
    obtain ⟨q, hq, h⟩ := Option.bind_eq_some_iff.mp h
    cases h
    obtain ⟨_, rfl⟩ := div_eq hq
    rw [BitVec.toNat_udiv, toNat_mul hp hn, toNat_add hp hd]
    rfl

section Step
variable [Fintype A] {cfg : Config A} {st st' : Assets A} {u v : A} {a b : AssetId} {x lim : Balance}
  {fee : BitVec 64} {r : Route A} {done : List Bool}

/-- A route from `a` to itself whose second price does not wrap: the amount that crosses fits beside the inherent
reserve. -/
def CrossingFits (cfg : Config A) (st : Assets A) (a : AssetId) (x : Balance) : Prop :=
  let e := getExchangeAddress cfg st.inherentAsset a
  (st.balance st.inherentAsset e * x / (x + st.balance a e)).toNat + st.holdings st.inherentAsset e < 2 ^ 128

omit [Fintype A] [DecidableEq A] in
theorem exchange_ne (hinj : Function.Injective2 cfg.makeExchangeAddress) {i c d : AssetId} (h : c ≠ d) :
    getExchangeAddress cfg i c ≠ getExchangeAddress cfg i d := fun he => h (hinj he).2

omit [Fintype A] [DecidableEq A] in
theorem hop_payers (hinj : Function.Injective2 cfg.makeExchangeAddress) (hu : ∀ i j, u ≠ cfg.makeExchangeAddress i j)
    {i j k c : AssetId} {x y : Balance} (hc : c ≠ b) :
    ∀ t ∈ ([⟨u, j, getExchangeAddress cfg i b, x⟩, ⟨getExchangeAddress cfg i b, k, v, y⟩] : List (Payment A)),
      t.payer ≠ getExchangeAddress cfg i c := by
  simp only [List.forall_mem_cons, List.not_mem_nil, false_implies, implies_true, and_true]
  exact ⟨hu _ _, exchange_ne hinj (Ne.symm hc)⟩

omit [Fintype A] [DecidableEq A] in
theorem across_payers (hinj : Function.Injective2 cfg.makeExchangeAddress) (hu : ∀ i j, u ≠ cfg.makeExchangeAddress i j)
    {c : AssetId} {x m y : Balance} (hca : c ≠ a) (hcb : c ≠ b) :
    ∀ t ∈ acrossInherent cfg st u v a b x m y, t.payer ≠ getExchangeAddress cfg st.inherentAsset c := by
  simp only [acrossInherent, List.forall_mem_cons, List.not_mem_nil, false_implies, implies_true, and_true]
  exact ⟨hu _ _, exchange_ne hinj (Ne.symm hca), exchange_ne hinj (Ne.symm hcb)⟩

omit [Fintype A] in
theorem reserves_pay {p : Profile} {ts : List (Payment A)} (hpay : pay p st ts = some (done, st')) (c : AssetId) :
    reserves cfg st' c = (st'.holdings st.inherentAsset (getExchangeAddress cfg st.inherentAsset c),
      st'.holdings c (getExchangeAddress cfg st.inherentAsset c)) := by
  unfold reserves
  rw [pay_inherent hpay]

omit [Fintype A] in
theorem others_unspent {ts : List (Payment A)} {c : AssetId} (hpay : pay .checked st ts = some (done, st'))
    (hpayer : ∀ t ∈ ts, t.payer ≠ getExchangeAddress cfg st.inherentAsset c) :
    Unspent (reserves cfg st c) (reserves cfg st' c) := by
  rw [reserves_pay hpay]
  exact Unspent.of_le (hop_other rfl hpay hpayer _) (hop_other rfl hpay hpayer _)

/-- **An exact-input swap whose input is paid spends no reserve of any pool.** -/
theorem exactInput_unspent (hinj : Function.Injective2 cfg.makeExchangeAddress)
    (hu : ∀ i j, u ≠ cfg.makeExchangeAddress i j) (hst : Conserved st)
    (hr : routeWithExactInput cfg .release st u v a b x lim fee = some (.ok r)) (hx : st.Covered u a x)
    (hcross : a = b → a ≠ st.inherentAsset → CrossingFits cfg st a x)
    (hpay : pay .release st r.payments = some (done, st')) (c : AssetId) :
    Unspent (reserves cfg st c) (reserves cfg st' c) := by
  have hpay := pay_checked hst hpay
  have hfit : ∀ c', x.toNat + st.holdings a (getExchangeAddress cfg st.inherentAsset c') < 2 ^ 128 := by
    intro c'
    have hpair := hst.pair_lt a (hu st.inherentAsset c')
    have hle := hx.le
    show _ + st.holdings a (cfg.makeExchangeAddress _ _) < _
    omega
  rcases exactInput_cases hr with ⟨rfl, y, hy, rfl⟩ | ⟨ha, rfl, y, hy, rfl⟩ | ⟨ha, hb, m, y, hm, hy, rfl⟩
  · obtain ⟨hi, ho, hy⟩ := calcOutput_quote (f := fee) hy (hfit b)
    by_cases hc : c = b
    · subst hc
      rw [reserves_pay hpay]
      exact hop_unspent rfl (hu _ _) hpay hx.le hi ho hy
    · exact others_unspent hpay (hop_payers hinj hu hc)
  · obtain ⟨hi, ho, hy⟩ := calcOutput_quote (f := fee) hy (hfit a)
    by_cases hc : c = a
    · subst hc
      rw [reserves_pay hpay]
      exact (hop_unspent rfl (hu _ _) hpay hx.le hi ho hy).swap
    · exact others_unspent hpay (hop_payers hinj hu hc)
  · obtain ⟨hPa, hIa, hm'⟩ := calcOutput_quote (f := fee) hm (hfit a)
    by_cases hab : a = b
    · subst hab
      -- both hops are priced on the same reserves
      have hfits : m.toNat + st.holdings st.inherentAsset (getExchangeAddress cfg st.inherentAsset a) < 2 ^ 128 := by
        rw [(calcOutput_eq (f := fee) hm).2.2.2]
        exact hcross rfl ha
      obtain ⟨_, _, hy⟩ := calcOutput_quote (f := fee) hy hfits
      by_cases hc : c = a
      · subst hc
        rw [reserves_pay hpay]
        exact back_unspent rfl (hu _ _) ha hpay hx.le hPa hIa hm' hy
      · exact others_unspent hpay (across_payers hinj hu hc hc)
    · have hne := exchange_ne (i := st.inherentAsset) hinj hab
      have hfits : m.toNat + st.holdings st.inherentAsset (getExchangeAddress cfg st.inherentAsset b) < 2 ^ 128 := by
        have hpair := hst.pair_lt st.inherentAsset hne
        have hlt := hm'.trans_lt (quote_lt hPa hIa)
        change m.toNat < st.holdings st.inherentAsset (getExchangeAddress cfg st.inherentAsset a) at hlt
        omega
      obtain ⟨hIb, hPb, hy⟩ := calcOutput_quote (f := fee) hy hfits
      obtain ⟨hA, hB⟩ := across_unspent rfl (hu _ _) (hu _ _) hne ha hb hpay hx.le hPa hIa hIb hPb hm' hy
      by_cases hca : c = a
      · subst hca
        rw [reserves_pay hpay]
        exact hA.swap
      · by_cases hcb : c = b
        · subst hcb
          rw [reserves_pay hpay]
          exact hB
        · exact others_unspent hpay (across_payers hinj hu hca hcb)

end Step

/-! ## Runs of exact-input swaps -/

/-- An exact-input swap, not signed by an exchange, whose input transfer succeeds if it gets to it. On the way from an
asset to itself the amount that crosses fits beside the inherent reserve. -/
def FairSwap (cfg : Config A) (s : Chain A) : Action A → Prop
  | .call (.signed u) (.swap (.swapAssetsWithExactInput v a b x lim)) =>
      (∀ i j, u ≠ cfg.makeExchangeAddress i j) ∧
      ∀ r, routeOf cfg .release s u (.swapAssetsWithExactInput v a b x lim) = some (.ok r) →
        s.assets.Covered u a x ∧ (a = b → a ≠ s.assets.inherentAsset → CrossingFits cfg s.assets a x)
  | _ => False

section Runs
variable [Fintype A] {cfg : Config A} {s s' t₁ t₂ : Chain A}

/-- What one fair swap does to conservation and to every pool. -/
theorem fairSwap_step (hinj : Function.Injective2 cfg.makeExchangeAddress) (hs : Conserved s.assets) {l : Action A}
    (hl : FairSwap cfg s l) (h : step cfg .release s l = some s') :
    Conserved s'.assets ∧ ∀ c, Unspent (reserves cfg s.assets c) (reserves cfg s'.assets c) := by
  match l, hl with
  | .call (.signed u) (.swap (.swapAssetsWithExactInput v a b x lim)), ⟨hu, hfair⟩ =>
    obtain ⟨⟨result, t⟩, hd, rfl⟩ := Option.map_eq_some_iff.mp h
    change dispatch cfg .release s (.signed u) (.swapAssetsWithExactInput v a b x lim) = some (result, t) at hd
    refine ⟨(swap_moves hd).1.conserved hs, fun c => ?_⟩
    change runRoute .release s (routeOf cfg .release s u (.swapAssetsWithExactInput v a b x lim)) = _ at hd
    rcases runRoute_cases hd with ⟨e, _, _, rfl⟩ | ⟨r, done, st', hr, hpay, _, rfl⟩
    · exact Unspent.refl _
    · obtain ⟨hx, hcross⟩ := hfair r hr
      exact exactInput_unspent hinj hu hs hr hx hcross hpay c

/-- **Constant product.** From any reachable state, between any two points of any run of exact-input swaps whose inputs
are paid, the product of the reserves of no pool drops, no reserve is taken whole, and no pool is left with less of one
asset and not more of the other. -/
theorem fairSwaps_keep_product (hinj : Function.Injective2 cfg.makeExchangeAddress) (hs : Reachable cfg s)
    (h₁ : Run (step cfg .release) (FairSwap cfg) s t₁) (h₂ : Run (step cfg .release) (FairSwap cfg) t₁ t₂)
    (c : AssetId) :
    (reserves cfg t₁.assets c).1 * (reserves cfg t₁.assets c).2 ≤
      (reserves cfg t₂.assets c).1 * (reserves cfg t₂.assets c).2 ∧
    (0 < (reserves cfg t₁.assets c).1 → 0 < (reserves cfg t₂.assets c).1) ∧
    (0 < (reserves cfg t₁.assets c).2 → 0 < (reserves cfg t₂.assets c).2) ∧
    ¬ ((reserves cfg t₂.assets c).1 < (reserves cfg t₁.assets c).1 ∧
      (reserves cfg t₂.assets c).2 ≤ (reserves cfg t₁.assets c).2) ∧
    ¬ ((reserves cfg t₂.assets c).2 < (reserves cfg t₁.assets c).2 ∧
      (reserves cfg t₂.assets c).1 ≤ (reserves cfg t₁.assets c).1) := by
  have hconserved : Conserved t₁.assets := h₁.invariant (I := fun t => Conserved t.assets) hs.conserved
    (fun t l t' ht hl hstep => (fairSwap_step hinj ht hl hstep).1)
  have hkept : Conserved t₂.assets ∧ Unspent (reserves cfg t₁.assets c) (reserves cfg t₂.assets c) := by
    refine h₂.invariant
      (I := fun t => Conserved t.assets ∧ Unspent (reserves cfg t₁.assets c) (reserves cfg t.assets c))
      ⟨hconserved, Unspent.refl _⟩ (fun t l t' ht hl hstep => ?_)
    obtain ⟨hcons, hstep⟩ := fairSwap_step hinj ht.1 hl hstep
    exact ⟨hcons, ht.2.trans (hstep c)⟩
  exact hkept.2.spec

end Runs

/-- The pool of asset `1` holds 1000 of each side, and user `1` pays 100 of asset `0` into it. -/
theorem fairSwaps_keep_product_pair : ∃ s t, Reachable pairConfig s ∧
    Run (step pairConfig .release) (FairSwap pairConfig) s t ∧
    reserves pairConfig s.assets 1 = (1000, 1000) ∧ reserves pairConfig t.assets 1 = (1100, 910) ∧
    (reserves pairConfig s.assets 1).1 * (reserves pairConfig s.assets 1).2 ≤
      (reserves pairConfig t.assets 1).1 * (reserves pairConfig t.assets 1).2 := by
  have hplay : ∃ s t, play pairConfig .release pairGenesis (List.flatMap Block.actions
        [⟨1, [(.signed (.inl 1), .swap (.addLiquidity 1 1000 1000 0))], by decide⟩]) = some s ∧
      step pairConfig .release s
        (.call (.signed (.inl 1)) (.swap (.swapAssetsWithExactInput (.inl 1) 0 1 100 0))) = some t ∧
      s.assets.Covered (.inl 1) 0 100 ∧
      reserves pairConfig s.assets 1 = (1000, 1000) ∧ reserves pairConfig t.assets 1 = (1100, 910) :=
    ⟨_, _, rfl, rfl, by decide, by decide, by decide⟩
  obtain ⟨s, t, hs, ht, hx, hbefore, hafter⟩ := hplay
  have hreach : Reachable pairConfig s := ⟨pairGenesis, _, by decide, hs⟩
  have hfair : FairSwap pairConfig s
      (.call (.signed (.inl 1)) (.swap (.swapAssetsWithExactInput (.inl 1) 0 1 100 0))) :=
    ⟨pairConfig_user 1, fun r _ => ⟨hx, fun h => absurd h (by decide)⟩⟩
  have hrun := Run.refl.tail hfair ht
  exact ⟨s, t, hreach, hrun, hbefore, hafter,
    (fairSwaps_keep_product pairConfig_injective hreach Run.refl hrun 1).1⟩

/-- The pool of asset `1` holds about 78% of what fits a `u128` of the inherent asset, and one of asset `1`. User `1`
swaps one of asset `1` for asset `1`: half of the inherent reserve crosses, the sum of the two wraps, and the price is
two of asset `1`, all that the exchange has. -/
theorem wrapped_crossing_takes_reserve : Function.Injective2 pairConfig.makeExchangeAddress ∧
    (∀ i j, .inl 1 ≠ pairConfig.makeExchangeAddress i j) ∧
    ∃ s s', Reachable pairConfig s ∧ s.assets.Covered (.inl 1) 1 1 ∧
    dispatch pairConfig .release s (.signed (.inl 1)) (.swapAssetsWithExactInput (.inl 1) 1 1 1 0) =
      some (.ok (), s') ∧
    (reserves pairConfig s.assets 1).2 = 1 ∧ (reserves pairConfig s'.assets 1).2 = 0 ∧
    ¬ (reserves pairConfig s.assets 1).1 * (reserves pairConfig s.assets 1).2 ≤
      (reserves pairConfig s'.assets 1).1 * (reserves pairConfig s'.assets 1).2 := by
  refine ⟨pairConfig_injective, pairConfig_user 1, ?_⟩
  have hplay : ∃ s s', play pairConfig .release pairGenesis (List.flatMap Block.actions
        [⟨1, [(.signed (.inl 1), .swap (.addLiquidity 1 265000000000000000000000000000000000000#128 1 0))],
          by decide⟩]) = some s ∧
      s.assets.Covered (.inl 1) 1 1 ∧
      dispatch pairConfig .release s (.signed (.inl 1)) (.swapAssetsWithExactInput (.inl 1) 1 1 1 0) =
        some (.ok (), s') ∧
      (reserves pairConfig s.assets 1).2 = 1 ∧ (reserves pairConfig s'.assets 1).2 = 0 ∧
      ¬ (reserves pairConfig s.assets 1).1 * (reserves pairConfig s.assets 1).2 ≤
        (reserves pairConfig s'.assets 1).1 * (reserves pairConfig s'.assets 1).2 :=
    ⟨_, _, rfl, by decide, rfl, by decide, by decide, by decide⟩
  obtain ⟨s, s', hs, hrest⟩ := hplay
  exact ⟨s, s', ⟨pairGenesis, _, by decide, hs⟩, hrest⟩

end Konomi.Swap
