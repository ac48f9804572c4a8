import Konomi.Lending.Views

/-!
# When debt stays below supply

Near full utilisation the supply rate is rounded twice (the utilisation, then its product with the debt rate), so over
enough blocks the interest charged can exceed the interest credited by more than the pool's cash, and accrual takes the
debt above the supply. `Margin pool n` says that it does not at block `n`. In a run in which every block
advance leaves every pool that margin, no supply wraps the supply total and no repayment exceeds the debt total,
every pool is `Sound` in every state (`step_sound`). The margin is there as long as the cash of a pool is above
`2 * elapsed / 10 ^ 18` of its supply (`Tame.margin_of_cash`).
-/

namespace Konomi.Lending
open Machine Assets

variable {A : Type} [DecidableEq A] {cfg : Config A} {s s' : Chain A} {u : A} {a : AssetId} {pool q : Pool}
  {now n : BlockNumber}

/-- Up to block `n` the interest charged to borrowers, in whole units, is covered by the interest credited to suppliers
and the cash of the pool. The rates are those of the stored pool. -/
def Margin (pool : Pool) (n : BlockNumber) : Prop :=
  ∀ debtRate supplyRate, debtRateInternal .release pool = some debtRate →
    supplyRateInternal .release pool = some supplyRate →
    interest pool.debt.toNat debtRate.toNat (n.toNat - pool.lastUpdated.toNat) ≤
      interest pool.supply.toNat supplyRate.toNat (n.toNat - pool.lastUpdated.toNat) +
        (pool.supply.toNat - pool.debt.toNat)

theorem margin_of_no_debt (h : pool.debt = 0) : Margin pool n := by
  intro debtRate supplyRate _ _
  rw [h, show (0 : Balance).toNat = 0 from rfl, interest_zero]
  exact Nat.zero_le _

/-- In one block the two roundings of the supply rate cost suppliers at most twice the supply, in units of
`1 / accuracy`. -/
theorem Tame.charged_le (h : Tame pool) {debtRate supplyRate : FixedU128} (hne : pool.supply ≠ 0)
    (hdebt : debtRateInternal .release pool = some debtRate)
    (hsupply : supplyRateInternal .release pool = some supplyRate) :
    pool.debt.toNat * debtRate.toNat ≤ pool.supply.toNat * supplyRate.toNat + 2 * pool.supply.toNat := by
  unfold supplyRateInternal at hsupply
  rw [if_neg hne] at hsupply
  obtain ⟨ratio, hratio, hsupply⟩ := Option.bind_eq_some_iff.mp hsupply
  obtain ⟨rate, hrate, hsupply⟩ := Option.bind_eq_some_iff.mp hsupply
  cases hrate.symm.trans hdebt
  have hle : debtRate.toNat ≤ accuracy := (h.debtRate hdebt).2
  -- both quotients lose less than one
  have hratio_lt : pool.debt.toNat * accuracy ≤ pool.supply.toNat * (ratio.toNat + 1) := by
    obtain ⟨hpos, hmin⟩ := Fixed.toNat_fromRational hratio
    have hpos := Nat.pos_of_ne_zero hpos
    have hone : rounded 128 (pool.debt.toNat * accuracy) pool.supply.toNat ≤ accuracy :=
      rounded_le_of_le hpos (Nat.mul_le_mul_right _ h.debt_le)
    rw [hmin, min_eq_left (hone.trans (Nat.le_sub_one_of_lt accuracy_lt))]
    exact (lt_rounded hpos).le
  have hrate_lt : debtRate.toNat * ratio.toNat ≤ accuracy * (supplyRate.toNat + 1) := by
    rw [Fixed.toNat_mul hsupply]
    exact (lt_rounded accuracy_pos).le
  refine Nat.le_of_mul_le_mul_left (c := accuracy) ?_ accuracy_pos
  calc accuracy * (pool.debt.toNat * debtRate.toNat) = pool.debt.toNat * accuracy * debtRate.toNat := by ring
    _ ≤ pool.supply.toNat * (ratio.toNat + 1) * debtRate.toNat := Nat.mul_le_mul_right _ hratio_lt
    _ = pool.supply.toNat * (debtRate.toNat * ratio.toNat + debtRate.toNat) := by ring
    _ ≤ pool.supply.toNat * (accuracy * (supplyRate.toNat + 1) + accuracy) :=
        Nat.mul_le_mul_left _ (Nat.add_le_add hrate_lt hle)
    _ = accuracy * (pool.supply.toNat * supplyRate.toNat + 2 * pool.supply.toNat) := by ring

/-- **A pool keeps its margin as long as its cash is twice its supply, in units of `1 / accuracy`, for each block.** The
defect needs a utilisation that near to one. -/
theorem Tame.margin_of_cash (h : Tame pool)
    (hcash : 2 * pool.supply.toNat * (n.toNat - pool.lastUpdated.toNat) ≤
      accuracy * (pool.supply.toNat - pool.debt.toNat)) : Margin pool n := by
  by_cases hne : pool.supply = 0
  · have hzero : pool.debt.toNat = 0 := Nat.le_zero.mp (h.debt_le.trans (by rw [hne]; rfl))
    exact margin_of_no_debt (BitVec.eq_of_toNat_eq hzero)
  · intro debtRate supplyRate hdebt hsupply
    have hcharged := h.charged_le hne hdebt hsupply
    have hle := h.debt_le
    -- the rounding keeps the order of the two grown totals
    have hgrown : grown pool.debt.toNat debtRate.toNat (n.toNat - pool.lastUpdated.toNat) ≤
        grown pool.supply.toNat supplyRate.toNat (n.toNat - pool.lastUpdated.toNat) := by
      refine rounded_mono accuracy_pos ?_
      calc (accuracy + debtRate.toNat * (n.toNat - pool.lastUpdated.toNat)) * pool.debt.toNat
          = accuracy * pool.debt.toNat + pool.debt.toNat * debtRate.toNat * (n.toNat - pool.lastUpdated.toNat) := by
            ring
        _ ≤ accuracy * pool.debt.toNat + (pool.supply.toNat * supplyRate.toNat + 2 * pool.supply.toNat) *
            (n.toNat - pool.lastUpdated.toNat) := Nat.add_le_add_left (Nat.mul_le_mul_right _ hcharged) _
        _ = accuracy * pool.debt.toNat + 2 * pool.supply.toNat * (n.toNat - pool.lastUpdated.toNat) +
            supplyRate.toNat * (n.toNat - pool.lastUpdated.toNat) * pool.supply.toNat := by ring
        _ ≤ accuracy * pool.debt.toNat + accuracy * (pool.supply.toNat - pool.debt.toNat) +
            supplyRate.toNat * (n.toNat - pool.lastUpdated.toNat) * pool.supply.toNat :=
            Nat.add_le_add_right (Nat.add_le_add_left hcash _) _
        _ = (accuracy + supplyRate.toNat * (n.toNat - pool.lastUpdated.toNat)) * pool.supply.toNat := by
            rw [← Nat.mul_add, Nat.add_sub_cancel' hle, Nat.add_mul]
    rw [grown_eq_add, grown_eq_add] at hgrown
    omega

/-- A pool at block `now` that can be accrued at once. -/
structure Sound (now : BlockNumber) (pool : Pool) : Prop where
  tame : Tame pool
  last : pool.lastUpdated.toNat ≤ now.toNat
  margin : Margin pool now

theorem sound_of_lastUpdated (h : Tame pool) (hlast : pool.lastUpdated = now) : Sound now pool := by
  refine ⟨h, by rw [hlast], fun debtRate supplyRate _ _ => ?_⟩
  rw [hlast, Nat.sub_self, interest_zero_blocks]
  exact Nat.zero_le _

/-- **A tame pool with margin is accrued to no more debt than supply.** -/
theorem Tame.accrued_le (h : Tame pool) (hlast : pool.lastUpdated.toNat ≤ n.toNat) (hmargin : Margin pool n)
    (hq : Lending.accrueInterest .release n pool = some q) : q.debt.toNat ≤ q.supply.toNat := by
  rcases accrueInterest_cases (h.accrueInterest hlast hq) with ⟨_, rfl⟩ | ⟨_, ⟨d⟩⟩
  · exact h.debt_le
  · have hle := Profile.checked_le_release
    have hm := hmargin _ _ (mono_debtRateInternal pool hle (d.rate_eq .debt))
      (mono_supplyRateInternal pool hle (d.rate_eq .supply))
    have hdebt := d.toNat_total rfl .debt
    have hsupply := d.toNat_total rfl .supply
    rw [grown_eq_add] at hdebt hsupply
    have hsplit : pool.debt.toNat + interest pool.debt.toNat (d.rate .debt).toNat (n.toNat - pool.lastUpdated.toNat) ≤
        pool.supply.toNat + interest pool.supply.toNat (d.rate .supply).toNat (n.toNat - pool.lastUpdated.toNat) := by
      have := h.debt_le
      omega
    calc q.debt.toNat = _ := hdebt
      _ ≤ _ := min_le_min_right (2 ^ 128 - 1) hsplit
      _ = q.supply.toNat := hsupply.symm

theorem Sound.accrued (h : Sound now pool) (hq : Lending.accrueInterest .release now pool = some q) :
    Tame q ∧ q.lastUpdated = now := by
  obtain ⟨hutil, hinitial, _⟩ := accrueInterest_frame hq
  refine ⟨⟨?_, h.tame.accrued_le h.last h.margin hq⟩, accrueInterest_lastUpdated hq⟩
  rw [hutil, hinitial]
  exact h.tame.rates

/-! ## Steps -/

/-- The calls that move a total without a check of their own: a supply fits, and a repayment is at most the accrued
debt of the pool. -/
def Fits (cfg : Config A) (s : Chain A) (u : A) (call : Call A) : Prop :=
  ∀ r : Ready cfg s u call, match r.side, r.positive with
    | .supply, true => r.accrued.supply.toNat + r.x.toNat < 2 ^ 128
    | .debt, false => (transferred false r.value r.x).toNat ≤ r.accrued.debt.toNat
    | _, _ => True

/-- What each action of a run has to meet: a block advance leaves every pool its margin, a call fits. -/
def SolventStep (cfg : Config A) (s : Chain A) : Action A → Prop
  | .advance n => ∀ a pool, s.lending.pools a = some pool → Margin pool n
  | .call (.signed u) (.lending c) => Fits cfg s u c
  | _ => True

/-- Every stored pool is sound at the current block. -/
def AllSound (s : Chain A) : Prop := ∀ a pool, s.lending.pools a = some pool → Sound s.blockNumber pool

/-- The totals after a call that fits: the four liquidity arguments. -/
theorem Posting.debt_le {call : Call A} {side : Side} {positive : Bool} {x : Balance}
    (entry : call.entry = some (side, positive, a, x)) (d : Posting cfg .release s u side positive a x)
    (hfits : Fits cfg s u call) (hle : d.accrued.debt.toNat ≤ d.accrued.supply.toNat) :
    (d.accrued.setTotal d.total' side).debt.toNat ≤ (d.accrued.setTotal d.total' side).supply.toNat := by
  have hcash : inflow side positive = false →
      d.amount.toNat ≤ d.accrued.supply.toNat - d.accrued.debt.toNat := by
    intro hin
    obtain ⟨_, cash, _, hcash, hnot, _⟩ := d.checks hin
    have hcash : cash = d.accrued.supply - d.accrued.debt := sub_eq hcash
    have hamount := BitVec.le_def.mp (BitVec.not_lt.mp hnot)
    rw [hcash, BitVec.toNat_sub_of_le (BitVec.le_def.mpr hle)] at hamount
    exact hamount
  have hlt := d.accrued.supply.isLt
  cases call with
  | supply a x =>
    cases entry
    have hamount : d.amount = x := d.amount_eq
    have hfit : d.accrued.supply.toNat + d.amount.toNat < 2 ^ 128 := by
      rw [hamount]
      exact hfits (d.ready rfl)
    have htotal : d.total'.toNat = d.accrued.supply.toNat + d.amount.toNat := toNat_adjust_add d.total'_eq hfit
    show d.accrued.debt.toNat ≤ d.total'.toNat
    omega
  | withdraw a x =>
    cases entry
    have hamount := hcash rfl
    have hcovered : d.amount.toNat ≤ d.accrued.supply.toNat := by omega
    have htotal : d.total'.toNat = d.accrued.supply.toNat - d.amount.toNat := toNat_adjust_sub d.total'_eq hcovered
    show d.accrued.debt.toNat ≤ d.total'.toNat
    omega
  | borrow a x =>
    cases entry
    have hamount := hcash rfl
    have hfit : d.accrued.debt.toNat + d.amount.toNat < 2 ^ 128 := by omega
    have htotal : d.total'.toNat = d.accrued.debt.toNat + d.amount.toNat := toNat_adjust_add d.total'_eq hfit
    show d.total'.toNat ≤ d.accrued.supply.toNat
    omega
  | repay a x =>
    cases entry
    have hfit : d.amount.toNat ≤ d.accrued.debt.toNat := by
      rw [d.amount_eq]
      exact hfits (d.ready rfl)
    have htotal : d.total'.toNat = d.accrued.debt.toNat - d.amount.toNat := toNat_adjust_sub d.total'_eq hfit
    show d.total'.toNat ≤ d.accrued.supply.toNat
    omega
  | liquidate t payId getId x => cases entry
  | initPool id c => cases entry

omit [DecidableEq A] in
theorem AllSound.update (h : AllSound s) {b : AssetId} {q : Pool} (hq : Tame q)
    (hlast : q.lastUpdated = s.blockNumber) (hblock : s'.blockNumber = s.blockNumber)
    (hpools : s'.lending.pools = Function.update s.lending.pools b (some q)) : AllSound s' := by
  intro c pool hpool
  rw [hpools] at hpool
  rw [hblock]
  rcases stored_cases hpool with ⟨rfl, hnew⟩ | ⟨_, hold⟩
  · cases hnew
    exact sound_of_lastUpdated hq hlast
  · exact h c pool hold

theorem Posting.sound {call : Call A} {side : Side} {positive : Bool} {x : Balance}
    (entry : call.entry = some (side, positive, a, x)) (d : Posting cfg .release s u side positive a x)
    (hfits : Fits cfg s u call) (h : AllSound s) : AllSound d.result := by
  obtain ⟨htame, hlast⟩ := (h a d.pool d.stored).accrued d.accrues
  refine h.update ⟨?_, d.debt_le entry hfits htame.debt_le⟩ ?_ rfl d.result_pools
  · cases side <;> exact htame.rates
  · rw [lastUpdated_setTotal]
    exact hlast

theorem Settlement.sound {t : A} {payId getId : AssetId} {x : Balance}
    (d : Settlement cfg .release s u t payId getId x) (h : AllSound s) : AllSound d.result := by
  intro b pool hpool
  by_cases hb : b = payId ∨ b = getId
  · obtain ⟨pool₁, q₁, hpool₁, hq₁, hpool₁', _⟩ := d.pools_of_mem hb
    cases hpool.symm.trans hpool₁'
    obtain ⟨htame, hlast⟩ := (h b pool₁ hpool₁).accrued hq₁
    exact sound_of_lastUpdated htame hlast
  · rw [d.pools_of_not_mem hb] at hpool
    exact h b pool hpool

theorem genesis_sound {g : Genesis A} (h : genesis .release g = some s) : AllSound s := by
  obtain ⟨hblock, _, _, hpools⟩ := genesis_lending h
  intro a pool hpool
  rw [hpools a pool hpool, hblock]
  exact sound_of_lastUpdated (newPool_tame 0 a true) rfl

theorem step_sound {l : Action A} (h : AllSound s) (hok : SolventStep cfg s l) (hs : step cfg .release s l = some s') :
    AllSound s' := by
  rcases step_cases hs with ⟨block, rfl, hlt, rfl⟩ | ⟨origin, c, r, rfl, hd⟩ | ⟨origin, c, r, rfl, _, _, hl, hblock⟩
  · intro a pool hpool
    have hsound := h a pool hpool
    exact ⟨hsound.tame, hsound.last.trans (BitVec.lt_def.mp hlt).le, hok a pool hpool⟩
  · rcases dispatch_cases hd with ⟨u, rfl, hstep⟩ | ⟨_, rfl⟩ | ⟨id, can, rfl, _, rfl⟩
    · cases hstep with
      | refused => exact h
      | touched side e entry stored accrues book =>
        intro a pool hpool
        rw [pools_setBook] at hpool
        exact h a pool hpool
      | posted side positive entry d => exact d.sound entry hok h
      | assessed e d => exact h
      | halfway e d => exact h
      | settled d => exact d.sound h
    · exact h
    · exact h.update (newPool_tame _ _ _) rfl rfl rfl
  · intro a pool hpool
    rw [hl] at hpool
    rw [hblock]
    exact h a pool hpool

/-! ## Runs -/

end Konomi.Lending
