import Konomi.Swap.Backing

/-!
# The direct swap and its two hops

`asset_a_to_asset_b_with_exact_input` prices both hops before it pays, and what crosses goes from one exchange to the
other. Through the caller it takes one payment more and ends in the same balances (`pay_through`); the first hop leaves
the second pool alone (`pay_elsewhere`), so the second hop is priced as before. Hence the two ways agree wherever the
sums of the balances fit (`direct_eq_two_hops`).
-/

namespace Konomi.Swap
open Machine Assets Reserves

variable {A : Type} [DecidableEq A]

section Payments
variable {st st₁ st₂ st₃ : Assets A} {u e e' : A} {i : AssetId} {m : Balance} {ts : List (Payment A)}
  {done done₁ done₂ done₃ : List Bool}

theorem pay_elsewhere {p : Profile} {w : A} : ∀ {ts : List (Payment A)} {st st' : Assets A} {done : List Bool},
    (∀ t ∈ ts, w ≠ t.payer ∧ w ≠ t.payee) → pay p st ts = some (done, st') →
    ∀ j, st'.balances (j, w) = st.balances (j, w)
  | [], _, _, _, _, h, j => by rw [(pay_nil h).2]
  | t :: ts, st, st', done, hts, h, j => by
    obtain ⟨⟨hpayer, hpayee⟩, hrest⟩ := List.forall_mem_cons.mp hts
    rcases pay_cons h with ⟨_, done', hpay, _⟩ | ⟨_, st₁, done', hmake, hpay, _⟩
    · exact pay_elsewhere hrest hpay j
    · rw [pay_elsewhere hrest hpay j]
      exact transfer_other hmake (fun h => hpayer (Prod.mk.inj h).2) (fun h => hpayee (Prod.mk.inj h).2)

/-- A payment passed on by `u` ends in the same balances as the direct payment. -/
theorem pay_through (hu : e ≠ u) (hm : m ≤ st.balances (i, e))
    (hfit : (st.balances (i, u)).toNat + m.toNat < 2 ^ 128) (h₁ : pay .release st [⟨e, i, u, m⟩] = some (done₁, st₁))
    (h₂ : pay .release st₁ (⟨u, i, e', m⟩ :: ts) = some (done₂, st₂))
    (h₃ : pay .release st (⟨e, i, e', m⟩ :: ts) = some (done₃, st₃)) : st₂ = st₃ := by
  have hrest : ∀ {st st₂ st₃ : Assets A} {done₂ done₃ : List Bool}, pay .release st ts = some (done₂, st₂) →
      pay .release st ts = some (done₃, st₃) → st₂ = st₃ := by
    intro st st₂ st₃ done₂ done₃ h h'
    rw [h] at h'
    exact (Prod.mk.inj (Option.some.inj h')).2
  by_cases hzero : m = 0
  · -- nothing crosses
    have hnot : ∀ {st : Assets A} {w : A}, ¬ st.Covered w i m := fun hc => hc.1 hzero
    rcases pay_cons h₁ with ⟨_, _, hnil, _⟩ | ⟨hc, _⟩
    · rcases pay_cons h₂ with ⟨_, _, hpay₂, _⟩ | ⟨hc, _⟩
      · rcases pay_cons h₃ with ⟨_, _, hpay₃, _⟩ | ⟨hc, _⟩
        · rw [(pay_nil hnil).2] at hpay₂
          exact hrest hpay₂ hpay₃
        · exact absurd hc hnot
      · exact absurd hc hnot
    · exact absurd hc hnot
  · rcases pay_cons h₁ with ⟨hc, _⟩ | ⟨_, _, _, hmake₁, hnil, _⟩
    · exact absurd ⟨hzero, hm⟩ hc
    · rw [← (pay_nil hnil).2] at hmake₁
      have hpassed : m ≤ st₁.balances (i, u) := by
        rw [payee_balance hmake₁ hu]
        dsimp only
        bv_omega
      rcases pay_cons h₂ with ⟨hc, _⟩ | ⟨_, _, _, hmake₂, hpay₂, _⟩
      · exact absurd ⟨hzero, hpassed⟩ hc
      · rcases pay_cons h₃ with ⟨hc, _⟩ | ⟨_, _, _, hmake₃, hpay₃, _⟩
        · exact absurd ⟨hzero, hm⟩ hc
        · rw [transfer_through hmake₁ hmake₂ hmake₃] at hpay₂
          exact hrest hpay₂ hpay₃

/-- Paid for in another asset first, what crosses may be passed on by the one who pays. -/
theorem pay_across_through {a : AssetId} {x : Balance} (ha : a ≠ i) (hu : u ≠ e) (hm : m ≤ st.balances (i, e))
    (hfit : (st.balances (i, u)).toNat + m.toNat < 2 ^ 128)
    (h₁ : pay .release st [⟨u, a, e, x⟩, ⟨e, i, u, m⟩] = some (done₁, st₁))
    (h₂ : pay .release st₁ (⟨u, i, e', m⟩ :: ts) = some (done₂, st₂))
    (h₃ : pay .release st (⟨u, a, e, x⟩ :: ⟨e, i, e', m⟩ :: ts) = some (done₃, st₃)) : st₂ = st₃ := by
  obtain ⟨_, st₀, _, hinput, hpass, _⟩ := pay_append (l := [_]) h₁
  obtain ⟨_, st₀', _, hinput', hcross, _⟩ := pay_append (l := [_]) h₃
  rw [hinput] at hinput'
  cases hinput'
  have hkept := balance_after_other hinput (Ne.symm ha)
  refine pay_through (Ne.symm hu) ?_ ?_ hpass h₂ hcross
  · rw [hkept]
    exact hm
  · rw [hkept]
    exact hfit

end Payments

/-! ## Routes of the release build -/

section Routes
variable {cfg : Config A} {s : Chain A} {st : Assets A} {u v : A} {a b c : AssetId} {x m k : Balance} {f : BitVec 64}

omit [DecidableEq A] in
theorem hop_route_release (hc : c ≠ s.assets.inherentAsset) (hpool : ThroughPool s.assets c a b)
    (hsell : Sellable (s.assets.balances (a, getExchangeAddress cfg s.assets.inherentAsset c))
      (s.assets.balances (b, getExchangeAddress cfg s.assets.inherentAsset c)) x)
    (hm : m = sold (s.assets.balances (a, getExchangeAddress cfg s.assets.inherentAsset c))
      (s.assets.balances (b, getExchangeAddress cfg s.assets.inherentAsset c)) x) :
    routeOf cfg .release s u (.swapAssetsWithExactInput v a b x k) = some (.ok
      ⟨[⟨u, a, getExchangeAddress cfg s.assets.inherentAsset c, x⟩,
        ⟨getExchangeAddress cfg s.assets.inherentAsset c, b, v, m⟩], m⟩) := by
  rw [hop_route hc hpool, calcOutput_release_iff.mpr ⟨hsell, hm⟩]
  rfl

omit [DecidableEq A] in
theorem hop_route_kept {st₁ : Assets A} (hinherent : st₁.inherentAsset = s.assets.inherentAsset)
    (hkept : ∀ j, st₁.balances (j, getExchangeAddress cfg s.assets.inherentAsset c) =
      s.assets.balances (j, getExchangeAddress cfg s.assets.inherentAsset c))
    (hc : c ≠ s.assets.inherentAsset) (hpool : ThroughPool s.assets c a b) :
    routeOf cfg .release { s with assets := st₁ } u (.swapAssetsWithExactInput v a b x k) =
      routeOf cfg .release s u (.swapAssetsWithExactInput v a b x k) := by
  have hpool₁ : ThroughPool st₁ c a b := by
    unfold ThroughPool
    rw [hinherent]
    exact hpool
  rw [hop_route hc hpool, hop_route (by rw [hinherent]; exact hc) hpool₁]
  dsimp only
  rw [hinherent, hkept, hkept]

omit [DecidableEq A] in
theorem across_route_release (ha : a ≠ st.inherentAsset) (hb : b ≠ st.inherentAsset)
    (hsell : Sellable (pairedReserve cfg st a) (inherentReserve cfg st a) x)
    (hm : m = sold (pairedReserve cfg st a) (inherentReserve cfg st a) x)
    (hbuy : Sellable (inherentReserve cfg st b) (pairedReserve cfg st b) m) :
    routeWithExactInput cfg .release st u v a b x k f = some (.ok
      ⟨acrossInherent cfg st u v a b x m (sold (inherentReserve cfg st b) (pairedReserve cfg st b) m),
        sold (inherentReserve cfg st b) (pairedReserve cfg st b) m⟩) := by
  unfold routeWithExactInput
  rw [if_neg ha, if_neg hb]
  have hsold := calcInherent_release_iff (f := f).mpr ⟨hsell, hm⟩
  have hbought := calcPaired_release_iff (f := f).mpr ⟨hbuy, rfl⟩
  exact Option.bind_eq_some_iff.mpr ⟨_, hsold, Option.bind_eq_some_iff.mpr ⟨_, hbought, rfl⟩⟩

theorem swap_pays {call : Call A} {r : Route A} (hr : routeOf cfg .release s u call = some (.ok r)) :
    ∃ done st', pay .release s.assets r.payments = some (done, st') ∧
      dispatch cfg .release s (.signed u) call = some (.ok (), { s with assets := st' }) := by
  obtain ⟨⟨done, st'⟩, hpay⟩ := pay_release r.payments s.assets
  refine ⟨done, st', hpay, ?_⟩
  rw [dispatch_route hr, hpay]
  rfl

end Routes

/-! ## The two ways -/

section Hops
variable [Fintype A] {cfg : Config A} {s : Chain A} {st : Assets A} {u e : A} {a b : AssetId} {x : Balance}

/-- Where holdings are conserved, an input that someone else holds has a price below the reserve it is paid from. -/
theorem sold_lt {i j : AssetId} (hst : Conserved st) (hu : u ≠ e) (hi : 0 < st.holdings i e)
    (hj : 0 < st.holdings j e) (hx : x ≤ st.balances (i, u)) :
    Sellable (st.balances (i, e)) (st.balances (j, e)) x ∧
      sold (st.balances (i, e)) (st.balances (j, e)) x < st.balances (j, e) := by
  have hsum := hst.pair_lt i hu
  have hfit : x.toNat + (st.balances (i, e)).toNat < 2 ^ 128 := by
    have := BitVec.le_def.mp hx
    unfold holdings at hsum
    omega
  have hsell : Sellable (st.balances (i, e)) (st.balances (j, e)) x := by
    unfold holdings at hi hj
    refine ⟨by bv_omega, by bv_omega, by bv_omega⟩
  obtain ⟨_, _, hquote⟩ := calcOutput_quote (calcOutput_release_iff (f := 0).mpr ⟨hsell, rfl⟩) hfit
  exact ⟨hsell, BitVec.lt_def.mpr (hquote.trans_lt (quote_lt hi hj))⟩

/-- **The direct swap from `a` to `b` is its two hops.** The caller sells `a` for the inherent asset, and sells what
that pays for `b`. -/
theorem direct_eq_two_hops (hst : Conserved s.assets) (ha : a ≠ s.assets.inherentAsset)
    (hb : b ≠ s.assets.inherentAsset) (hpoolA : Stocked cfg s.assets a) (hpoolB : Stocked cfg s.assets b)
    (he : getExchangeAddress cfg s.assets.inherentAsset a ≠ getExchangeAddress cfg s.assets.inherentAsset b)
    (hua : u ≠ getExchangeAddress cfg s.assets.inherentAsset a)
    (hub : u ≠ getExchangeAddress cfg s.assets.inherentAsset b) (hx : x ≤ s.assets.balances (a, u)) (v : A)
    (lim lim₁ lim₂ : Balance) :
    ∃ r s₁ s₂,
      routeOf cfg .release s u (.swapAssetsWithExactInput u a s.assets.inherentAsset x lim₁) = some (.ok r) ∧
      dispatch cfg .release s (.signed u) (.swapAssetsWithExactInput u a s.assets.inherentAsset x lim₁) =
        some (.ok (), s₁) ∧
      dispatch cfg .release s₁ (.signed u) (.swapAssetsWithExactInput v s.assets.inherentAsset b r.amount lim₂) =
        some (.ok (), s₂) ∧
      dispatch cfg .release s (.signed u) (.swapAssetsWithExactInput v a b x lim) = some (.ok (), s₂) := by
  obtain ⟨hsell, hlt⟩ := sold_lt hst hua hpoolA.2 hpoolA.1 hx
  generalize hm : sold _ _ x = m at hlt
  have hle : m ≤ s.assets.balances (s.assets.inherentAsset, getExchangeAddress cfg s.assets.inherentAsset a) :=
    BitVec.le_of_lt hlt
  obtain ⟨hbuy, _⟩ := sold_lt hst he hpoolB.1 hpoolB.2 hle
  have hfirst := hop_route_release (u := u) (v := u) (k := lim₁) ha (Or.inr ⟨rfl, rfl⟩) hsell hm.symm
  obtain ⟨done₁, st₁, hpay₁, hswap₁⟩ := swap_pays hfirst
  -- the first hop leaves the second pool alone, so the second hop has the price of the direct swap
  have hkept : ∀ j, st₁.balances (j, getExchangeAddress cfg s.assets.inherentAsset b) =
      s.assets.balances (j, getExchangeAddress cfg s.assets.inherentAsset b) := by
    refine pay_elsewhere ?_ hpay₁
    simp only [List.forall_mem_cons, List.not_mem_nil, false_implies, implies_true, and_true]
    exact ⟨⟨Ne.symm hub, Ne.symm he⟩, Ne.symm he, Ne.symm hub⟩
  have hsecond := hop_route_release (u := u) (v := v) (k := lim₂) hb (Or.inl ⟨rfl, rfl⟩) hbuy rfl
  rw [← hop_route_kept (pay_inherent hpay₁) hkept hb (Or.inl ⟨rfl, rfl⟩)] at hsecond
  obtain ⟨done₂, st₂, hpay₂, hswap₂⟩ := swap_pays hsecond
  have hdirect : routeOf cfg .release s u (.swapAssetsWithExactInput v a b x lim) = some (.ok _) :=
    across_route_release ha hb hsell hm.symm hbuy
  obtain ⟨done₃, st₃, hpay₃, hswap₃⟩ := swap_pays hdirect
  have hfit : s.assets.holdings s.assets.inherentAsset u + m.toNat < 2 ^ 128 := by
    have hsum := hst.pair_lt s.assets.inherentAsset hua
    have hreserve := BitVec.lt_def.mp hlt
    change m.toNat < s.assets.holdings _ _ at hreserve
    omega
  have hsame := pay_across_through ha hua hle hfit hpay₁ hpay₂ hpay₃
  rw [← hsame] at hswap₃
  exact ⟨_, _, _, hfirst, hswap₁, hswap₂, hswap₃⟩

end Hops

/-- The pools of assets `1` and `2` hold 1000 of the inherent asset each. User `1` sells 100 of asset `1` for 165 of
asset `2`, which user `2` receives: 90 of the inherent asset cross. -/
theorem direct_eq_two_hops_pair : ∃ s r s₁ s₂, Reachable pairConfig s ∧
    routeOf pairConfig .release s (.inl 1) (.swapAssetsWithExactInput (.inl 1) 1 0 100 0) = some (.ok r) ∧
    dispatch pairConfig .release s (.signed (.inl 1)) (.swapAssetsWithExactInput (.inl 1) 1 0 100 0) =
      some (.ok (), s₁) ∧
    dispatch pairConfig .release s₁ (.signed (.inl 1)) (.swapAssetsWithExactInput (.inl 2) 0 2 r.amount 0) =
      some (.ok (), s₂) ∧
    dispatch pairConfig .release s (.signed (.inl 1)) (.swapAssetsWithExactInput (.inl 2) 1 2 100 0) =
      some (.ok (), s₂) ∧
    s.assets.balances (2, .inl 2) = 0 ∧ s₂.assets.balances (2, .inl 2) = 165 := by
  have hplay : ∃ s s', play pairConfig .release pairGenesis (List.flatMap Block.actions
        [⟨1, [(.signed (.inl 1), .assets (.issue 1000000)), (.signed (.inl 1), .swap (.addLiquidity 1 1000 1000 0)),
          (.signed (.inl 1), .swap (.addLiquidity 2 1000 2000 0))], by decide⟩]) = some s ∧
      s.assets.inherentAsset = 0 ∧ Stocked pairConfig s.assets 1 ∧ Stocked pairConfig s.assets 2 ∧
      100 ≤ s.assets.balances (1, .inl 1) ∧
      dispatch pairConfig .release s (.signed (.inl 1)) (.swapAssetsWithExactInput (.inl 2) 1 2 100 0) =
        some (.ok (), s') ∧
      s.assets.balances (2, .inl 2) = 0 ∧ s'.assets.balances (2, .inl 2) = 165 :=
    ⟨_, _, rfl, by decide, ⟨by decide, by decide⟩, ⟨by decide, by decide⟩, by decide, rfl, by decide, by decide⟩
  obtain ⟨s, s', hs, hinherent, hpoolA, hpoolB, hx, hdirect, hbefore, hafter⟩ := hplay
  have hreach : Reachable pairConfig s := ⟨pairGenesis, _, by decide, hs⟩
  have hexchanges : pairConfig.makeExchangeAddress 0 1 ≠ pairConfig.makeExchangeAddress 0 2 :=
    fun h => absurd (pairConfig_injective h).2 (by decide)
  obtain ⟨r, s₁, s₂, hr, h₁, h₂, h₃⟩ := direct_eq_two_hops hreach.conserved (by rw [hinherent]; decide)
    (by rw [hinherent]; decide) hpoolA hpoolB (by rw [hinherent]; exact hexchanges) (pairConfig_user 1 _ 1)
    (pairConfig_user 1 _ 2) hx (.inl 2) 0 0 0
  rw [hinherent] at hr h₁ h₂
  have hsame : s₂ = s' := by
    rw [h₃] at hdirect
    exact (Prod.mk.inj (Option.some.inj hdirect)).2
  rw [hsame] at h₂ h₃
  exact ⟨s, r, s₁, s', hreach, hr, h₁, h₂, h₃, hbefore, hafter⟩

end Konomi.Swap
