import Konomi.Blocks

/-!
# Liquidity shares add up

`Totalled sw` : for every asset the shares of all accounts sum to the total liquidity. A call of the swap pallet writes
at most one share and one total (`book`), by the same amount, in any state in which none of its operations wraps. The
first injection overwrites the caller's share; the total is zero there, so the share is zero too.
-/

namespace Konomi.Swap
open Machine Assets

variable {A : Type} [DecidableEq A] [Fintype A] {cfg : Config A} {s s' : Chain A} {u : A} {a : AssetId}

/-- The shares of every asset sum to its total liquidity. -/
def Totalled (sw : Swap A) : Prop :=
  ∀ a, ∑ u, (sw.accountLiquidities (a, u)).toNat = (sw.totalLiquidities a).toNat

omit [DecidableEq A] in
theorem Totalled.share_eq_zero {sw : Swap A} (h : Totalled sw) (hzero : sw.totalLiquidities a = 0) (u : A) :
    sw.accountLiquidities (a, u) = 0 := by
  have hle := Ledger.le_sum (fun u => (sw.accountLiquidities (a, u)).toNat) u
  rw [h a, hzero] at hle
  exact BitVec.eq_of_toNat_eq (Nat.le_zero.mp hle)

/-- A share and the total move by the same amount. -/
theorem Totalled.book {sw : Swap A} (h : Totalled sw) {share total : Balance}
    (hsame : share.toNat + (sw.totalLiquidities a).toNat = (sw.accountLiquidities (a, u)).toNat + total.toNat) :
    Totalled (book sw a u share total) := by
  intro b
  show ∑ v, (Function.update sw.accountLiquidities (a, u) share (b, v)).toNat =
    (Function.update sw.totalLiquidities a total b).toNat
  by_cases hb : b = a
  · subst hb
    rw [Function.update_self]
    have hsum := Ledger.sum_of_eq_off (f := fun v => (sw.accountLiquidities (b, v)).toNat)
      (g := fun v => (Function.update sw.accountLiquidities (b, u) share (b, v)).toNat) (a := u) (fun v hv => by
        rw [Function.update_of_ne (fun e => hv (Prod.mk.inj e).2)])
    rw [Function.update_self, h b] at hsum
    omega
  · rw [Function.update_of_ne hb, ← h b]
    refine Finset.sum_congr rfl fun v _ => ?_
    rw [Function.update_of_ne (fun e => hb (Prod.mk.inj e).1)]

theorem dispatch_totalled {origin : Origin A} {call : Call A} {r : Except DispatchError Unit} (h : Totalled s.swap)
    (hd : dispatch cfg .checked s origin call = some (r, s')) : Totalled s'.swap := by
  cases dispatch_cases hd with
  | refused => exact h
  | feeRate => exact h
  | swapped => exact h
  | injected hadd =>
    obtain ⟨done, st', m, share, total, _, hm, htotal, rfl⟩ := addLiquidity_cases hadd
    have hsum := toNat_add rfl htotal
    refine Totalled.book h ?_
    rcases hm with ⟨hzero, rfl, rfl⟩ | ⟨_, _, hshare⟩
    · have hown := h.share_eq_zero hzero
      rw [hown, hsum, hzero]
      simp
    · rw [toNat_add rfl hshare, hsum]
      omega
  | redeemed hremove =>
    obtain ⟨y, z, done, st', left, total, _, _, _, hleft, htotal, rfl⟩ := removeLiquidity_cases hremove
    have hshare := toNat_sub rfl hleft
    have hsum := toNat_sub rfl htotal
    refine Totalled.book h ?_
    omega

/-! ## Runs -/

/-- An action in which no operation of the swap pallet wraps. -/
def SwapFits (cfg : Config A) (s : Chain A) : Action A → Prop
  | .call origin (.swap call) => (dispatch cfg .checked s origin call).isSome
  | _ => True

instance (cfg : Config A) (s : Chain A) : DecidablePred (SwapFits cfg s)
  | .advance _ => isTrue trivial
  | .call _ (.assets _) => isTrue trivial
  | .call _ (.lending _) => isTrue trivial
  | .call _ (.swap _) => inferInstanceAs (Decidable (_ = true))

theorem step_totalled {l : Action A} (h : Totalled s.swap) (hl : SwapFits cfg s l)
    (hs : step cfg .release s l = some s') : Totalled s'.swap := by
  cases l with
  | advance block =>
    obtain ⟨_, rfl⟩ := step_advance hs
    exact h
  | call origin call =>
    obtain ⟨⟨r, t⟩, hd, rfl⟩ := Option.map_eq_some_iff.mp hs
    cases call with
    | assets c =>
      obtain ⟨st', _, ht⟩ := Assets.dispatch_cases hd
      cases ht
      exact h
    | swap c =>
      have hchecked := (mono_dispatch cfg s origin c).eq_of_isSome Profile.checked_le_release hd hl
      exact dispatch_totalled h hchecked
    | lending c =>
      rw [(Lending.lending_moves hd).2.1]
      exact h

theorem genesis_totalled {g : Genesis A} (h : genesis .release g = some s) : Totalled s.swap := by
  obtain ⟨assets, _, h⟩ := Option.bind_eq_some_iff.mp h
  cases h
  exact fun a => Finset.sum_eq_zero fun _ _ => rfl

/-- **Shares add up.** In every state reached from genesis by actions in which no operation of the swap pallet wraps,
the shares of every asset sum to its total liquidity; where the total is zero, so is every share. -/
theorem shares_total {t : Chain A} (h : Reached cfg (SwapFits cfg) t) (a : AssetId) :
    ∑ u, (t.swap.accountLiquidities (a, u)).toNat = (t.swap.totalLiquidities a).toNat ∧
      (t.swap.totalLiquidities a = 0 → ∀ u, t.swap.accountLiquidities (a, u) = 0) := by
  have ht : Totalled t.swap :=
    h.invariant (I := fun s => Totalled s.swap) (fun g s => genesis_totalled)
      (fun s l s' hs hl hstep => step_totalled hs hl hstep)
  exact ⟨ht a, ht.share_eq_zero⟩

/-- Two injections, a swap and a redemption on the mock runtime, after which user `2` owns what is left of the pool. -/
theorem shares_total_mock : ∃ t, Reached mockConfig (SwapFits mockConfig) t ∧
    t.swap.accountLiquidities (1, 2) = 500 ∧ t.swap.totalLiquidities 1 = 500 ∧
    ∑ u, (t.swap.accountLiquidities (1, u)).toNat = (t.swap.totalLiquidities 1).toNat := by
  have hrun : ∃ t s, genesis .release mockGenesis = some s ∧
      exec (guarded (step mockConfig .release) (SwapFits mockConfig)) s
        [.advance 1, .call (.signed 1) (.swap (.addLiquidity 1 1000 1000 0)),
          .call (.signed 2) (.swap (.addLiquidity 1 500 500 0)),
          .call (.signed 2) (.swap (.swapAssetsWithExactInput 2 0 1 100 0)),
          .call (.signed 1) (.swap (.removeLiquidity 1 1000 0 0))] = some t ∧
      t.swap.accountLiquidities (1, 2) = 500 ∧ t.swap.totalLiquidities 1 = 500 :=
    ⟨_, _, rfl, rfl, by decide, by decide⟩
  obtain ⟨t, s, hs, ht, hshare, htotal⟩ := hrun
  have hreached : Reached mockConfig (SwapFits mockConfig) t := ⟨mockGenesis, s, hs, run_of_exec ht⟩
  exact ⟨t, hreached, hshare, htotal, (shares_total hreached 1).1⟩

end Konomi.Swap
