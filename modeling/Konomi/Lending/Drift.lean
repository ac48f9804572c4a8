import Konomi.Lending.Backing
import Konomi.Lending.Custody

/-!
# How far positions drift from the totals

Every accrual that is stored may round a pool's total down by less than a unit; a position is only rounded when its user
is touched. The positions of a side can therefore sum to more than the total of their pool. They are shares of the
index, so as long as no index and no position is rounded up at a new block (`RoundsDown`), what is missing up to a block
`n` is at most `n / accuracy` of the index (`Bounded`). This holds on both sides in every state that actions without a
wrap or a saturation reach (`positions_drift`), with liquidations, whose pools keep the totals that the positions lose.
What suppliers could ask for is thus covered by the cash of the pallet, the debt of the pool and the drift, if the
pallet was paid what it credits (`suppliers_covered`).
-/

namespace Konomi.Lending
open Machine Assets

variable {A : Type} [DecidableEq A] {cfg : Config A} {s s' : Chain A} {u : A} {a : AssetId} {pool q : Pool}
  {now : BlockNumber} {side : Side} {p : Profile}

/-- The shares of an asset on one side. -/
def shares (s : Chain A) (side : Side) (a : AssetId) (u : A) : ℚ := share ((s.lending.book side).records (a, u))

/-! ## Shares that do not grow -/

/-- From `s` to `s'` no share grows, and every pool is as it was or accrued. -/
structure Thins (s s' : Chain A) : Prop where
  shares_le : ∀ side b v, shares s' side b v ≤ shares s side b v
  pools : ∀ b, s'.lending.pools b = s.lending.pools b ∨ ∃ pool q, s.lending.pools b = some pool ∧
    accrueInterest .strict s.blockNumber pool = some q ∧ s'.lending.pools b = some q

/-- At the current block neither side is rounded up. -/
def AllDown (s : Chain A) : Prop := ∀ side, RoundsDown s side s.blockNumber

omit [DecidableEq A] in
theorem AllDown.below (h : AllDown s) (hpool : s.lending.pools a = some pool)
    (hq : accrueInterest .strict s.blockNumber pool = some q) (side : Side) (u : A) :
    BelowShare (q.index side) ((s.lending.book side).records (a, u)) :=
  (h side a pool hpool).2 q (release_accrues Profile.strict_le_release hq) u

theorem thins_touched {b : Book A} (hdown : AllDown s) (hpool : s.lending.pools a = some pool)
    (hq : accrueInterest .strict s.blockNumber pool = some q)
    (h : (s.lending.book side).accrue .strict (q.index side) a u = some b) :
    Thins s { s with lending := s.lending.setBook b side } := by
  refine ⟨fun side' c v => ?_, fun c => Or.inl (by rw [pools_setBook])⟩
  unfold shares
  dsimp only
  rw [book_setBook]
  split
  · rename_i hside
    subst hside
    exact share_accrue_le (hdown.below hpool hq side' u) Profile.strict_le_release h (c, v)
  · exact le_rfl

theorem Assessment.thins {t : A} {payId getId : AssetId} {assets : Assets A} (d : Assessment .strict s t payId getId)
    (hdown : AllDown s) : Thins s { s with lending := d.lending, assets := assets } := by
  refine ⟨fun side b v => ?_, fun b => Or.inl rfl⟩
  cases side with
  | supply =>
    have hbelow := hdown.below d.get_stored d.get_accrues .supply t
    exact share_accrue_le hbelow Profile.strict_le_release d.supplies_eq (b, v)
  | debt =>
    have hbelow := hdown.below d.pay_stored d.pay_accrues .debt t
    exact share_accrue_le hbelow Profile.strict_le_release d.debts_eq (b, v)

theorem Settlement.thins {t : A} {payId getId : AssetId} {x : Balance}
    (d : Settlement cfg .strict s u t payId getId x) (hdown : AllDown s) : Thins s d.result := by
  have hle : Profile.strict ≤ .release := Profile.strict_le_release
  refine ⟨fun side b v => ?_, fun b => ?_⟩
  · cases side with
    | supply =>
      have hsub := toNat_adjust rfl d.supplied'_eq
      simp only [Bool.false_eq_true, if_false] at hsub
      have hbelow := hdown.below d.get_stored d.get_accrues .supply t
      exact share_put_le hbelow (mono_valueAt _ _ hle d.supplied_eq) (by omega) (b, v)
    | debt =>
      have hsub := toNat_adjust rfl d.owed'_eq
      simp only [Bool.false_eq_true, if_false] at hsub
      have hbelow := hdown.below d.pay_stored d.pay_accrues .debt t
      exact share_put_le hbelow (mono_valueAt _ _ hle d.owed_eq) (by omega) (b, v)
  · by_cases hb : b = payId ∨ b = getId
    · obtain ⟨pool, q, hpool, hq, hresult, _⟩ := d.pools_of_mem hb
      exact Or.inr ⟨pool, q, hpool, hq, hresult⟩
    · exact Or.inl (d.pools_of_not_mem hb)

/-! ## What accruals round away -/

/-- One side of an accrual without a wrap or a saturation: the index is at most its product, and the total loses at most
a unit, and only to a later block. -/
theorem rounded_growth (h : accrueInterest .strict now pool = some q) (hbelow : IndexBelow pool side now) :
    ∃ factor : ℚ, ((q.index side).toNat : ℚ) ≤ (pool.index side).toNat * factor ∧
      ((pool.total side).toNat : ℚ) * factor ≤ (q.total side).toNat + (now.toNat - pool.lastUpdated.toNat) ∧
      (pool.index side).toNat ≤ (q.index side).toNat ∧ pool.lastUpdated.toNat ≤ now.toNat := by
  rcases accrueInterest_cases h with ⟨rfl, rfl⟩ | ⟨hne, ⟨d⟩⟩
  · exact ⟨1, by rw [mul_one], by rw [mul_one, sub_self, add_zero], le_rfl, le_rfl⟩
  · have hD : (0 : ℚ) < (accuracy : ℕ) := by exact_mod_cast accuracy_pos
    have hfactor := d.toNat_factor rfl side
    obtain ⟨hlast, _⟩ := toNat_multiplier rfl (d.factor_eq side)
    have hlater : pool.lastUpdated.toNat < now.toNat :=
      lt_of_le_of_ne hlast fun he => hne (BitVec.eq_of_toNat_eq he)
    have hindex := d.toNat_index side
    refine ⟨(d.factor side).toNat / (accuracy : ℕ), ?_, ?_, ?_, hlast⟩
    · have hrate : rateInternal .release pool side = some (d.rate side) :=
        mono_rateInternal pool side Profile.strict_le_release (d.rate_eq side)
      have hle := hbelow _ hrate
      rw [← hfactor, ← hindex] at hle
      rw [← mul_div_assoc, le_div_iff₀ hD, mul_comm]
      exact_mod_cast hle
    · -- less than a unit is rounded off
      have hround : (pool.total side).toNat * (d.factor side).toNat ≤
          ((q.total side).toNat + (now.toNat - pool.lastUpdated.toNat)) * accuracy := by
        calc (pool.total side).toNat * (d.factor side).toNat
            = (accuracy + (d.rate side).toNat * (now.toNat - pool.lastUpdated.toNat)) * (pool.total side).toNat := by
              rw [hfactor, Nat.mul_comm]
          _ ≤ accuracy * ((q.total side).toNat + 1) := by
              rw [d.total_of_strict side]
              exact (lt_rounded accuracy_pos).le
          _ ≤ accuracy * ((q.total side).toNat + (now.toNat - pool.lastUpdated.toNat)) :=
              Nat.mul_le_mul_left _ (by omega)
          _ = _ := Nat.mul_comm _ _
      rw [← mul_div_assoc, div_le_iff₀ hD, ← Nat.cast_sub hlast]
      exact_mod_cast hround
    · rw [hindex]
      refine le_rounded_of_le accuracy_pos ?_
      rw [Nat.mul_comm]
      exact Nat.mul_le_mul_left _ (by omega)

/-- The shares `w` are covered by the total of a pool, but for a part of the index that grows with the blocks. -/
structure Bounded [Fintype A] (w : A → ℚ) (pool : Pool) (side : Side) : Prop where
  index_ge : accuracy ≤ (pool.index side).toNat
  covers : Shares.Covers w
    (((pool.total side).toNat : ℚ) + (pool.lastUpdated.toNat : ℚ) / (accuracy : ℕ) * (pool.index side).toNat)
    (pool.index side).toNat

/-- The drift of a side, in every pool; an asset without a pool has no shares. -/
structure Drifts [Fintype A] (s : Chain A) : Prop where
  down : AllDown s
  fresh : ∀ b, s.lending.pools b = none → ∀ side v, shares s side b v = 0
  bounded : ∀ b pool, s.lending.pools b = some pool → ∀ side, Bounded (shares s side b) pool side

section Invariant
variable [Fintype A]

omit [DecidableEq A] in
theorem Bounded.accrued {w : A → ℚ} (h : Bounded w pool side) (hbelow : IndexBelow pool side now)
    (hq : accrueInterest .strict now pool = some q) : Bounded w q side := by
  obtain ⟨factor, hindex, htotal, hle, hlast⟩ := rounded_growth hq hbelow
  have hD : (0 : ℚ) < (accuracy : ℕ) := by exact_mod_cast accuracy_pos
  have hJ : ((accuracy : ℕ) : ℚ) ≤ (q.index side).toNat := by exact_mod_cast h.index_ge.trans hle
  have hgap : (0 : ℚ) ≤ now.toNat - pool.lastUpdated.toNat := sub_nonneg.mpr (by exact_mod_cast hlast)
  refine ⟨h.index_ge.trans hle, h.covers.drift (hD.trans_le hJ) hindex (Nat.cast_nonneg _) htotal ?_⟩
  rw [accrueInterest_lastUpdated hq]
  calc (pool.lastUpdated.toNat : ℚ) / (accuracy : ℕ) + (now.toNat - pool.lastUpdated.toNat) / (q.index side).toNat
      ≤ pool.lastUpdated.toNat / (accuracy : ℕ) + (now.toNat - pool.lastUpdated.toNat) / (accuracy : ℕ) := by
        gcongr
    _ = now.toNat / (accuracy : ℕ) := by rw [← add_div, add_sub_cancel]

omit [DecidableEq A] in
theorem newPool_bounded (now : BlockNumber) (id : AssetId) (c : Bool) (side : Side) {w : A → ℚ} (hw : ∀ v, w v = 0) :
    Bounded w (newPool now id c) side := by
  have hindex : ((newPool now id c).index side).toNat = accuracy := by
    cases side <;> exact Fixed.toNat_one accuracy_lt
  refine ⟨hindex.ge, ?_, fun v => (hw v).ge, ?_⟩
  · rw [hindex]
    exact_mod_cast accuracy_pos
  · rw [Finset.sum_eq_zero fun v _ => hw v]
    positivity

omit [DecidableEq A] in
theorem Drifts.accrued (h : Drifts s) (hpool : s.lending.pools a = some pool)
    (hq : accrueInterest .strict s.blockNumber pool = some q) (side : Side) : Bounded (shares s side a) q side :=
  (h.bounded a pool hpool side).accrued (h.down side a pool hpool).1 hq

omit [DecidableEq A] in
theorem Drifts.thins (h : Drifts s) (hdown : AllDown s') (ht : Thins s s') : Drifts s' := by
  have hnonneg : ∀ side b v, 0 ≤ shares s' side b v := fun side b v => share_nonneg _
  refine ⟨hdown, fun b hb side v => ?_, fun b pool' hb side => ?_⟩
  · have hnone : s.lending.pools b = none := by
      rcases ht.pools b with hsame | ⟨_, _, _, _, hsome⟩
      · rwa [← hsame]
      · rw [hsome] at hb
        cases hb
    exact (h.fresh b hnone side v ▸ ht.shares_le side b v).antisymm (hnonneg side b v)
  · have hbounded : Bounded (shares s side b) pool' side := by
      rcases ht.pools b with hsame | ⟨pool, q, hpool, hq, hsome⟩
      · exact h.bounded b pool' (by rwa [← hsame]) side
      · rw [hsome] at hb
        cases hb
        exact h.accrued hpool hq side
    exact ⟨hbounded.index_ge, hbounded.covers.mono (hnonneg side b) (ht.shares_le side b)⟩

omit [Fintype A] in
theorem Posting.shares_other {positive : Bool} {x : Balance} (d : Posting cfg .strict s u side positive a x)
    {b : AssetId} {v : A} {side' : Side} (hne : ¬ (b = a ∧ v = u ∧ side' = side)) :
    shares d.result side' b v = shares s side' b v := by
  unfold shares
  rw [d.records_other hne]

theorem Posting.bounded {positive : Bool} {x : Balance} (d : Posting cfg .strict s u side positive a x)
    (hbelow : BelowShare (d.accrued.index side) ((s.lending.book side).records (a, u)))
    (h : Bounded (shares s side a) d.accrued side) :
    Bounded (shares d.result side a) (d.accrued.setTotal d.total' side) side := by
  have hle := Profile.strict_le_release
  have hvalue := toNat_adjust rfl d.value'_eq
  have htotal := toNat_adjust rfl d.total'_eq
  refine ⟨by rw [index_setTotal]; exact h.index_ge, ?_⟩
  rw [index_setTotal, total_setTotal, lastUpdated_setTotal, if_pos rfl]
  have hshare : shares d.result side a u = (d.value'.toNat : ℚ) / (d.accrued.index side).toNat := by
    unfold shares
    rw [d.result_book, if_pos rfl, d.book'_records]
    exact share_put ..
  refine h.covers.post u (div_le_share hbelow (mono_valueAt _ _ hle d.value_eq)) (Nat.cast_nonneg _) hshare
    (fun v hv => d.shares_other fun hsame => hv hsame.2.1) ?_
  have hsum : (d.value'.toNat : ℚ) + (d.accrued.total side).toNat = d.value.toNat + d.total'.toNat := by
    exact_mod_cast (by omega : (d.value'.toNat : Int) + (d.accrued.total side).toNat = d.value.toNat + d.total'.toNat)
  linarith

theorem Posting.drifts {positive : Bool} {x : Balance} (d : Posting cfg .strict s u side positive a x)
    (h : Drifts s) (hdown : AllDown d.result) : Drifts d.result := by
  have hother : ∀ {b}, b ≠ a → ∀ side', shares d.result side' b = shares s side' b := fun hb side' =>
    funext fun v => d.shares_other fun hsame => hb hsame.1
  refine ⟨hdown, fun b hb side' v => ?_, fun b pool hb side' => ?_⟩
  · rw [d.result_pools] at hb
    have hne : b ≠ a := by
      rintro rfl
      rw [Function.update_self] at hb
      cases hb
    rw [Function.update_of_ne hne] at hb
    rw [hother hne]
    exact h.fresh b hb side' v
  · rw [d.result_pools] at hb
    rcases stored_cases hb with ⟨rfl, ⟨⟩⟩ | ⟨hne, hb⟩
    · have haccrued := h.accrued d.stored d.accrues side'
      by_cases hside : side' = side
      · subst hside
        exact d.bounded (h.down.below d.stored d.accrues side' u) haccrued
      · have hsame : shares d.result side' b = shares s side' b := funext fun v =>
          d.shares_other fun hsame => hside hsame.2.2
        rw [hsame]
        refine ⟨by rw [index_setTotal]; exact haccrued.index_ge, ?_⟩
        rw [index_setTotal, total_setTotal, lastUpdated_setTotal, if_neg hside]
        exact haccrued.covers
    · rw [hother hne]
      exact h.bounded b pool hb side'

omit [DecidableEq A] in
theorem Drifts.initPool (h : Drifts s) {c : Bool} (hnew : s.lending.pools a = none) :
    Drifts { s with lending := _initPool s.blockNumber s.lending a c } := by
  refine ⟨fun side b pool hb => ?_, fun b hb side v => ?_, fun b pool hb side => ?_⟩
  · rcases stored_cases hb with ⟨rfl, ⟨⟩⟩ | ⟨_, hb⟩
    · refine ⟨indexBelow_self rfl, fun q hq u => belowShare_of_zero ?_⟩
      exact h.fresh b hnew side u
    · exact h.down side b pool hb
  · change Function.update s.lending.pools a _ b = none at hb
    have hne : b ≠ a := by
      rintro rfl
      rw [Function.update_self] at hb
      cases hb
    rw [Function.update_of_ne hne] at hb
    exact h.fresh b hb side v
  · rcases stored_cases hb with ⟨rfl, ⟨⟩⟩ | ⟨_, hb⟩
    · exact newPool_bounded _ _ _ side (h.fresh b hnew side)
    · exact h.bounded b pool hb side

end Invariant

/-! ## Runs -/

/-- A pool is made of an asset that has none. -/
def NewPools (s : Chain A) : Action A → Prop
  | .call _ (.lending (.initPool id _)) => s.lending.pools id = none
  | _ => True

/-- An action without a wrap or a saturation, which makes no pool anew, and at a new block rounds nothing up. -/
def StrictStep (cfg : Config A) (s : Chain A) (l : Action A) : Prop :=
  (step cfg .strict s l).isSome ∧ NewPools s l ∧ match l with
    | .advance n => ∀ side, RoundsDown s side n
    | .call _ _ => True

section Runs
variable [Fintype A]

theorem step_drifts {l : Action A} (h : Drifts s) (hl : StrictStep cfg s l) (hstep : step cfg .strict s l = some s') :
    Drifts s' := by
  obtain ⟨_, hnew, hround⟩ := hl
  rcases step_cases hstep with ⟨block, rfl, _, rfl⟩ | ⟨origin, c, r, rfl, hd⟩ |
    ⟨origin, c, r, rfl, _, _, hlending, hblock⟩
  · exact ⟨hround, h.fresh, h.bounded⟩
  · -- what is rounded is looked at in the release build, where the call does the same
    have hrelease := Lending.mono_dispatch cfg s origin c Profile.strict_le_release hd
    rcases dispatch_cases hd with ⟨u, rfl, hcall⟩ | ⟨_, rfl⟩ | ⟨id, can, rfl, _, rfl⟩
    · have hdown : AllDown s' := by
        rcases dispatch_cases hrelease with ⟨_, ⟨⟩, hcall⟩ | ⟨_, rfl⟩ | ⟨id, can, rfl, rfl, _⟩
        · exact fun side => (h.down side).follows hcall.follows
        · exact h.down
        · cases hcall with | posted _ _ entry => cases entry
      cases hcall with
      | refused => exact h
      | touched side e entry stored accrues book => exact h.thins hdown (thins_touched h.down stored accrues book)
      | posted side positive entry d => exact d.drifts h hdown
      | assessed e d => exact h.thins hdown (d.thins h.down)
      | halfway e d => exact h.thins hdown (d.toAssessment.thins h.down)
      | settled d => exact h.thins hdown (d.thins h.down)
    · exact h
    · exact h.initPool hnew
  · have hshares : ∀ side b, shares s' side b = shares s side b := fun side b => funext fun v => by
      unfold shares
      rw [hlending]
    refine ⟨fun side => (h.down side).congr hlending hblock, fun b hb side v => ?_, fun b pool hb side => ?_⟩
    · rw [hshares]
      exact h.fresh b (by rwa [← hlending]) side v
    · rw [hshares]
      exact h.bounded b pool (by rwa [← hlending]) side

theorem genesis_drifts {g : Genesis A} (h : genesis .release g = some s) : Drifts s := by
  obtain ⟨_, hsupplies, hdebts, hpools⟩ := genesis_lending h
  have hzero : ∀ side b v, shares s side b v = 0 := by
    intro side b v
    cases side with
    | supply =>
      change share (s.lending.supplies.records (b, v)) = 0
      rw [hsupplies]
      rfl
    | debt =>
      change share (s.lending.debts.records (b, v)) = 0
      rw [hdebts]
      rfl
  refine ⟨fun side => genesis_roundsDown h side _, fun b _ side v => hzero side b v, fun b pool hb side => ?_⟩
  rw [hpools b pool hb]
  exact newPool_bounded _ _ _ side (hzero side b)

theorem reached_drifts {t : Chain A} (h : Reached cfg (StrictStep cfg) t) : Drifts t := by
  refine h.invariant (fun g s => genesis_drifts) fun s l s' hs hok hstep => ?_
  exact step_drifts hs hok ((mono_step cfg s l).eq_of_isSome Profile.strict_le_release hstep hok.1)

theorem drift_le {t : Chain A} (h : Reached cfg (StrictStep cfg) t) (hpool : t.lending.pools a = some pool)
    (hq : accrueInterest .strict t.blockNumber pool = some q) (side : Side) {v : A → Balance}
    (hv : ∀ u, view .release t a u side = some (v u)) :
    (∑ u, (v u).toNat) * accuracy ≤
      (q.total side).toNat * accuracy + t.blockNumber.toNat * (q.index side).toNat := by
  have hdrifts := reached_drifts h
  have hbounded := hdrifts.accrued hpool hq side
  have hrelease := release_accrues Profile.strict_le_release hq
  have hindex : ((q.index side).toNat : ℚ) ≤ (q.index side).toNat * 1 := by rw [mul_one]
  have hsum := hbounded.covers.sum_le (Nat.cast_nonneg _) hindex (by positivity) fun u =>
    value_le_share (hdrifts.down.below hpool hq side u) (view_value hpool hrelease (hv u))
  have hD : (0 : ℚ) < (accuracy : ℕ) := by exact_mod_cast accuracy_pos
  rw [mul_one, accrueInterest_lastUpdated hq, div_mul_eq_mul_div, ← sub_le_iff_le_add', le_div_iff₀ hD, sub_mul,
    sub_le_iff_le_add'] at hsum
  exact_mod_cast hsum

/-- **Positions drift from their totals by at most a unit a block, scaled by the index.** In every state reached by
actions without a wrap or a saturation, liquidations among them, on each side of every pool that can be accrued: the
views of all users sum to at most the accrued total and `blockNumber * index / 10 ^ 18` units. -/
theorem positions_drift {t : Chain A} (h : Reached cfg (StrictStep cfg) t) (hpool : t.lending.pools a = some pool)
    (hq : accrueInterest .strict t.blockNumber pool = some q) {v w : A → Balance}
    (hv : ∀ u, getUserSupplyWithInterest .release t a u = some (v u))
    (hw : ∀ u, getUserDebtWithInterest .release t a u = some (w u)) :
    (∑ u, (v u).toNat) * accuracy ≤
      q.supply.toNat * accuracy + t.blockNumber.toNat * q.totalSupplyIndex.toNat ∧
    (∑ u, (w u).toNat) * accuracy ≤
      q.debt.toNat * accuracy + t.blockNumber.toNat * q.totalDebtIndex.toNat :=
  ⟨drift_le h hpool hq .supply hv, drift_le h hpool hq .debt hw⟩

end Runs

/-- User `2` borrows, a price falls, and user `1` liquidates it. -/
theorem positions_drift_liquidation : ∃ t pool q, Reached mockConfig (StrictStep mockConfig) t ∧
    t.lending.pools 0 = some pool ∧ accrueInterest .strict t.blockNumber pool = some q ∧
    ∃ w : Fin 4 → Balance, (∀ u, getUserDebtWithInterest .release t 0 u = some (w u)) ∧ 0 < ∑ u, (w u).toNat ∧
      (∑ u, (w u).toNat) * accuracy ≤ q.debt.toNat * accuracy + t.blockNumber.toNat * q.totalDebtIndex.toNat := by
  obtain ⟨s₀, hs₀⟩ : ∃ s, genesis .release mockGenesis = some s := ⟨_, rfl⟩
  have hdown := fun side => genesis_roundsDown hs₀ side
  obtain ⟨s₁, s₂, s₃, s₄, s₅, s₆, s₇, pool, q, hok₁, h₁, hok₂, h₂, hok₃, h₃, hok₄, h₄, hok₅, h₅, hok₆, hdown₆, h₆, hok₇,
      h₇, hpool, hq, hv, hw, hpos⟩ : ∃ s₁ s₂ s₃ s₄ s₅ s₆ s₇ : Chain (Fin 4), ∃ pool q,
      (step mockConfig .strict s₀ (.advance 1)).isSome ∧ step mockConfig .release s₀ (.advance 1) = some s₁ ∧
      (step mockConfig .strict s₁ (.call (.signed 1) (.lending (.supply 0 100000)))).isSome ∧
      step mockConfig .release s₁ (.call (.signed 1) (.lending (.supply 0 100000))) = some s₂ ∧
      (step mockConfig .strict s₂ (.call (.signed 2) (.lending (.supply 1 100000)))).isSome ∧
      step mockConfig .release s₂ (.call (.signed 2) (.lending (.supply 1 100000))) = some s₃ ∧
      (step mockConfig .strict s₃ (.call (.signed 2) (.lending (.borrow 0 10000)))).isSome ∧
      step mockConfig .release s₃ (.call (.signed 2) (.lending (.borrow 0 10000))) = some s₄ ∧
      (step mockConfig .strict s₄ (.call .root (.assets (.setPrice 1 ⟨5000000000000000000⟩)))).isSome ∧
      step mockConfig .release s₄ (.call .root (.assets (.setPrice 1 ⟨5000000000000000000⟩))) = some s₅ ∧
      (step mockConfig .strict s₅ (.advance 1001)).isSome ∧ (∀ side, RoundsDown s₅ side 1001) ∧
      step mockConfig .release s₅ (.advance 1001) = some s₆ ∧
      (step mockConfig .strict s₆ (.call (.signed 1) (.lending (.liquidate 2 0 1 10000)))).isSome ∧
      step mockConfig .release s₆ (.call (.signed 1) (.lending (.liquidate 2 0 1 10000))) = some s₇ ∧
      s₇.lending.pools 0 = some pool ∧ accrueInterest .strict s₇.blockNumber pool = some q ∧
      (∀ u, getUserSupplyWithInterest .release s₇ 0 u = some ((getUserSupplyWithInterest .release s₇ 0 u).getD 0)) ∧
      (∀ u, getUserDebtWithInterest .release s₇ 0 u = some ((getUserDebtWithInterest .release s₇ 0 u).getD 0)) ∧
      0 < ∑ u, ((getUserDebtWithInterest .release s₇ 0 u).getD 0).toNat := by
    cases hs₀
    refine ⟨_, _, _, _, _, _, _, _, _, rfl, rfl, rfl, rfl, rfl, rfl, rfl, rfl, rfl, rfl, rfl, fun side => ?_, rfl, rfl,
      rfl, rfl, rfl, by decide +kernel, by decide +kernel, by decide +kernel⟩
    refine (hdown side 1001).of_others [0, 1] (fun b hb => ?_) (fun b v hb => ?_) fun b hb pool hpool => ?_
    · have h₀ := List.ne_of_not_mem_cons hb
      have h₁ := List.ne_of_not_mem_cons (List.not_mem_of_not_mem_cons hb)
      exact (Function.update_of_ne h₀ ..).trans ((Function.update_of_ne h₁ ..).trans (Function.update_of_ne h₀ ..))
    · have h₀ : ∀ w : Fin 4, (b, v) ≠ (0, w) := fun w e => List.ne_of_not_mem_cons hb (Prod.mk.inj e).1
      have h₁ : ∀ w : Fin 4, (b, v) ≠ (1, w) := fun w e =>
        List.ne_of_not_mem_cons (List.not_mem_of_not_mem_cons hb) (Prod.mk.inj e).1
      cases side with
      | supply => exact (Function.update_of_ne (h₁ 2) ..).trans (Function.update_of_ne (h₀ 1) ..)
      | debt => exact Function.update_of_ne (h₀ 2) ..
    · have hb : b = 0 ∨ b = 1 := by simpa using hb
      cases hb with
      | inl hb | inr hb =>
        subst hb
        cases hpool
        refine ⟨indexBelow_of_fits ?_, ?_⟩
        · cases side with
          | supply | debt =>
            rintro rate ⟨⟩
            decide +kernel
        · cases side with
          | supply | debt =>
            rintro q ⟨⟩
            decide +kernel
  have hrun : Run (step mockConfig .release) (StrictStep mockConfig) s₀ s₇ :=
    ((((((Run.refl.tail ⟨hok₁, trivial, fun side => hdown side 1⟩ h₁).tail ⟨hok₂, trivial, trivial⟩ h₂).tail
      ⟨hok₃, trivial, trivial⟩ h₃).tail ⟨hok₄, trivial, trivial⟩ h₄).tail ⟨hok₅, trivial, trivial⟩ h₅).tail
      ⟨hok₆, trivial, hdown₆⟩ h₆).tail ⟨hok₇, trivial, trivial⟩ h₇
  have hreached : Reached mockConfig (StrictStep mockConfig) s₇ := ⟨mockGenesis, s₀, hs₀, hrun⟩
  exact ⟨s₇, pool, q, hreached, hpool, hq, _, hw, hpos, (positions_drift hreached hpool hq hv hw).2⟩

end Konomi.Lending
