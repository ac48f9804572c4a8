import Konomi.Assets.Ownership
import Konomi.Swap.Product

/-!
# No free lunch

Accounts that only trade with the pools, for inputs they pay, cannot end with more of one asset and no less of any
other, in whatever order and through whatever pools they trade (`no_free_lunch`). What a coalition does not lose of an
asset the exchange of that asset has not gained, since no other account pays; its pool then still has all of the
inherent asset (`Unspent.not_less`), and so the coalition has not gained of that, and then of nothing.
-/

namespace Konomi.Swap
open Machine Assets Reserves

variable {A : Type} [DecidableEq A]

/-- Later blocks, and paid exact-input swaps of the members of `T`. -/
def TradedBy (cfg : Config A) (T : Finset A) (s : Chain A) : Action A → Prop
  | .advance _ => True
  | .call (.signed u) call => u ∈ T ∧ FairSwap cfg s (.call (.signed u) call)
  | _ => False

/-- What trades of the members of `T` leave: the amounts there are, no pool spent, and no less of an asset for whoever
is outside and does not trade in it. -/
structure Exchanged (cfg : Config A) (T : Finset A) (st st' : Assets A) : Prop where
  inherent : st'.inherentAsset = st.inherentAsset
  supply : st'.totalSupply = st.totalSupply
  unspent : ∀ c, Unspent (reserves cfg st c) (reserves cfg st' c)
  kept : ∀ j w, w ∉ T → (∀ c, w = getExchangeAddress cfg st.inherentAsset c → j ≠ st.inherentAsset ∧ j ≠ c) →
    st.holdings j w ≤ st'.holdings j w

namespace Exchanged
variable {cfg : Config A} {T : Finset A} {st st' st'' : Assets A}

omit [DecidableEq A] in
theorem refl (cfg : Config A) (T : Finset A) (st : Assets A) : Exchanged cfg T st st :=
  ⟨rfl, rfl, fun _ => Unspent.refl _, fun _ _ _ _ => le_rfl⟩

omit [DecidableEq A] in
theorem trans (h : Exchanged cfg T st st') (h' : Exchanged cfg T st' st'') : Exchanged cfg T st st'' where
  inherent := h'.inherent.trans h.inherent
  supply := h'.supply.trans h.supply
  unspent := fun c => (h.unspent c).trans (h'.unspent c)
  kept := fun j w hw hex => (h.kept j w hw hex).trans (h'.kept j w hw (by rwa [h.inherent]))

end Exchanged

section Steps
variable {cfg : Config A} {T : Finset A} {st st' : Assets A} {u v : A} {a b : AssetId} {x lim : Balance}
  {fee : BitVec 64} {r : Route A} {done : List Bool}

omit [DecidableEq A] in
/-- The payments of an exact-input swap: by the signer, and by exchanges of the inherent asset and of their own. -/
theorem exactInput_payers (hr : routeWithExactInput cfg .release st u v a b x lim fee = some (.ok r)) :
    ∀ t ∈ r.payments, t.payer = u ∨
      ∃ c, t.payer = getExchangeAddress cfg st.inherentAsset c ∧ (t.id = st.inherentAsset ∨ t.id = c) := by
  rcases exactInput_cases hr with ⟨_, y, _, rfl⟩ | ⟨_, _, y, _, rfl⟩ | ⟨_, _, m, y, _, _, rfl⟩
  · exact List.forall_mem_cons.mpr ⟨Or.inl rfl, List.forall_mem_singleton.mpr (Or.inr ⟨b, rfl, Or.inr rfl⟩)⟩
  · exact List.forall_mem_cons.mpr ⟨Or.inl rfl, List.forall_mem_singleton.mpr (Or.inr ⟨a, rfl, Or.inl rfl⟩)⟩
  · exact List.forall_mem_cons.mpr ⟨Or.inl rfl, List.forall_mem_cons.mpr ⟨Or.inr ⟨a, rfl, Or.inl rfl⟩,
      List.forall_mem_singleton.mpr (Or.inr ⟨b, rfl, Or.inr rfl⟩)⟩⟩

theorem pay_kept {ts : List (Payment A)} {j : AssetId} {w : A} (hpay : pay .checked st ts = some (done, st'))
    (hts : ∀ t ∈ ts, t.payer = w → t.id ≠ j) : st.holdings j w ≤ st'.holdings j w := by
  have hle := pay_le rfl j w hpay
  have hzero : debits ts j w = 0 := by
    simp only [debits, List.sum_eq_zero_iff, List.mem_map, forall_exists_index, and_imp, forall_apply_eq_imp_iff₂]
    intro t ht
    rw [Payment.debit, if_neg fun h => hts t ht h.2 h.1]
  omega

variable [Fintype A] {s s' : Chain A}

theorem step_exchanged {l : Action A} (hinj : Function.Injective2 cfg.makeExchangeAddress) (hs : Conserved s.assets)
    (hl : TradedBy cfg T s l) (h : step cfg .release s l = some s') :
    Conserved s'.assets ∧ Exchanged cfg T s.assets s'.assets := by
  match l, hl with
  | .advance block, _ =>
    obtain ⟨_, rfl⟩ := step_advance h
    exact ⟨hs, Exchanged.refl _ _ _⟩
  | .call (.signed u) (.swap (.swapAssetsWithExactInput v a b x lim)), ⟨hT, hl⟩ =>
    obtain ⟨hcons, hpools⟩ := fairSwap_step hinj hs hl h
    obtain ⟨⟨result, t⟩, hd, rfl⟩ := Option.map_eq_some_iff.mp h
    change runRoute .release s (routeOf cfg .release s u (.swapAssetsWithExactInput v a b x lim)) = _ at hd
    rcases runRoute_cases hd with ⟨e, _, _, rfl⟩ | ⟨r, done, st', hr, hpay, _, rfl⟩
    · exact ⟨hcons, Exchanged.refl _ _ _⟩
    · obtain ⟨balances, hframe⟩ := pay_frame hpay
      refine ⟨hcons, pay_inherent hpay, by rw [hframe], hpools, fun j w hw hex => ?_⟩
      refine pay_kept (pay_checked hs hpay) fun t ht hpayer => ?_
      rcases exactInput_payers hr t ht with hu | ⟨c, hc, hid⟩
      · exact absurd (hpayer.symm.trans hu ▸ hT) hw
      · obtain ⟨hi, hj⟩ := hex c (hpayer.symm.trans hc)
        rintro rfl
        exact hid.elim hi hj

/-- What a coalition does not lose, it does not gain: of every asset, if it lost none. -/
theorem Exchanged.balanced (hT : ∀ u ∈ T, ∀ i j, u ≠ cfg.makeExchangeAddress i j) (hs : Conserved st)
    (hs' : Conserved st') (h : Exchanged cfg T st st')
    (hgain : ∀ j, ∑ u ∈ T, st.holdings j u ≤ ∑ u ∈ T, st'.holdings j u) (j : AssetId) :
    ∑ u ∈ T, st'.holdings j u = ∑ u ∈ T, st.holdings j u := by
  have hsum : ∀ j, ∑ u, st.holdings j u = ∑ u, st'.holdings j u := fun j => by rw [hs.sum, hs'.sum, h.supply]
  have hout : ∀ c, getExchangeAddress cfg st.inherentAsset c ∉ T := fun c hc => hT _ hc _ _ rfl
  have hpool : ∀ c, Unspent (reserves cfg st c) (st'.holdings st.inherentAsset
      (getExchangeAddress cfg st.inherentAsset c), st'.holdings c (getExchangeAddress cfg st.inherentAsset c)) := by
    intro c
    have hunspent := h.unspent c
    unfold reserves at hunspent
    rwa [h.inherent] at hunspent
  -- the exchange of an asset has not gained of it, so it has not lost of the inherent one
  have hinherent : ∀ c, st.holdings st.inherentAsset (getExchangeAddress cfg st.inherentAsset c) ≤
      st'.holdings st.inherentAsset (getExchangeAddress cfg st.inherentAsset c) := by
    intro c
    by_cases hc : c = st.inherentAsset
    · rw [hc]
      rcases Nat.le_total (st'.holdings st.inherentAsset (getExchangeAddress cfg st.inherentAsset st.inherentAsset))
        (st.holdings st.inherentAsset (getExchangeAddress cfg st.inherentAsset st.inherentAsset)) with hle | hle
      · exact (hpool st.inherentAsset).left_le hle
      · exact hle
    · refine (hpool c).left_le ?_
      refine Ledger.outsider_le (hsum c) (hgain c) (hout c) fun w hw hwe => h.kept c w hw ?_
      rintro d rfl
      exact ⟨hc, fun hcd => hwe (by rw [hcd])⟩
  have hkept : ∀ w, w ∉ T → st.holdings st.inherentAsset w ≤ st'.holdings st.inherentAsset w := by
    intro w hw
    by_cases hex : ∃ c, w = getExchangeAddress cfg st.inherentAsset c
    · obtain ⟨c, rfl⟩ := hex
      exact hinherent c
    · exact h.kept _ w hw fun c hc => absurd ⟨c, hc⟩ hex
  -- so nobody outside has gained of the inherent asset, and the exchanges have not lost of the others
  have hsame : ∀ c, st'.holdings st.inherentAsset (getExchangeAddress cfg st.inherentAsset c) ≤
      st.holdings st.inherentAsset (getExchangeAddress cfg st.inherentAsset c) := fun c =>
    Ledger.outsider_le (hsum _) (hgain _) (hout c) fun w hw _ => hkept w hw
  refine (Ledger.coalition_le (hsum j) fun w hw => ?_).antisymm (hgain j)
  by_cases hj : j = st.inherentAsset
  · rw [hj]
    exact hkept w hw
  · by_cases hex : w = getExchangeAddress cfg st.inherentAsset j
    · rw [hex]
      exact (hpool j).right_le (hsame j)
    · refine h.kept j w hw ?_
      rintro c rfl
      exact ⟨hj, fun hjc => hex (by rw [hjc])⟩

/-- **No free lunch.** From any reachable state, after any run of exact-input swaps of the members of `T`, each paid,
through any pools and to any accounts: if the members together have gained of an asset, they have lost of another. -/
theorem no_free_lunch {t : Chain A} {j : AssetId} (hinj : Function.Injective2 cfg.makeExchangeAddress)
    (hT : ∀ u ∈ T, ∀ i j, u ≠ cfg.makeExchangeAddress i j) (hs : Reachable cfg s)
    (h : Run (step cfg .release) (TradedBy cfg T) s t)
    (hgain : ∑ u ∈ T, s.assets.holdings j u < ∑ u ∈ T, t.assets.holdings j u) :
    ∃ k, ∑ u ∈ T, t.assets.holdings k u < ∑ u ∈ T, s.assets.holdings k u := by
  have hrun : Conserved t.assets ∧ Exchanged cfg T s.assets t.assets := by
    refine h.invariant (I := fun t => Conserved t.assets ∧ Exchanged cfg T s.assets t.assets)
      ⟨hs.conserved, Exchanged.refl _ _ _⟩ ?_
    rintro t l t' ⟨hcons, hexchanged⟩ hl hstep
    obtain ⟨hcons', hstep⟩ := step_exchanged hinj hcons hl hstep
    exact ⟨hcons', hexchanged.trans hstep⟩
  by_contra hlost
  have hnone : ∀ k, ∑ u ∈ T, s.assets.holdings k u ≤ ∑ u ∈ T, t.assets.holdings k u := by simpa using hlost
  exact hgain.ne' (hrun.2.balanced hT hs.conserved hrun.1 hnone j)

end Steps

/-- User `2` pays 333 of the inherent asset into a pool of 1000 against 1000 and receives 249 of asset `1`. -/
theorem no_free_lunch_pair : ∃ s t, Reachable pairConfig s ∧
    Run (step pairConfig .release) (TradedBy pairConfig {.inl 1, .inl 2}) s t ∧
    t.assets.holdings 1 (.inl 2) = s.assets.holdings 1 (.inl 2) + 249 ∧
    ∃ k, ∑ u ∈ ({.inl 1, .inl 2} : Finset PairAccount), t.assets.holdings k u <
      ∑ u ∈ ({.inl 1, .inl 2} : Finset PairAccount), s.assets.holdings k u := by
  have hplay : ∃ s t, play pairConfig .release pairGenesis (List.flatMap Block.actions
        [⟨1, [(.signed (.inl 1), .swap (.addLiquidity 1 1000 1000 0))], by decide⟩]) = some s ∧
      step pairConfig .release s
        (.call (.signed (.inl 2)) (.swap (.swapAssetsWithExactInput (.inl 2) 0 1 333 0))) = some t ∧
      s.assets.Covered (.inl 2) 0 333 ∧
      t.assets.holdings 1 (.inl 2) = s.assets.holdings 1 (.inl 2) + 249 ∧
      t.assets.holdings 1 (.inl 1) = s.assets.holdings 1 (.inl 1) :=
    ⟨_, _, rfl, rfl, by decide, by decide, by decide⟩
  obtain ⟨s, t, hs, hswap, hpaid, hbought, hother⟩ := hplay
  have hreach : Reachable pairConfig s := ⟨pairGenesis, _, by decide, hs⟩
  have htrade : TradedBy pairConfig {.inl 1, .inl 2} s
      (.call (.signed (.inl 2)) (.swap (.swapAssetsWithExactInput (.inl 2) 0 1 333 0))) :=
    ⟨by simp, pairConfig_user 2, fun r _ => ⟨hpaid, fun h => absurd h (by decide)⟩⟩
  have hrun := Run.refl.tail htrade hswap
  refine ⟨s, t, hreach, hrun, hbought, no_free_lunch (j := 1) pairConfig_injective ?_ hreach hrun ?_⟩
  · simp only [Finset.mem_insert, Finset.mem_singleton, forall_eq_or_imp, forall_eq]
    exact ⟨pairConfig_user 1, pairConfig_user 2⟩
  · rw [Finset.sum_pair (by decide), Finset.sum_pair (by decide)]
    omega

end Konomi.Swap
