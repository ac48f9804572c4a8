import Konomi.Lib.Compound
import Konomi.Lending.Drift
import Konomi.Lending.Indexes
import Konomi.Lending.Solvency

/-!
# How fast interest can grow

A pool charges `initial_interest_rate + utilization_factor * utilization`, which is at most `4.235e-8` in a block while
the debt is within the supply. Interest is charged when a call touches the pool, for all the blocks since the last call.
However the calls are spread, an index never grows faster than by that rate and half a unit of `10 ^ -18` in every
block (`index_growth`), and a loan by that rate and a unit (`loan_growth`): so much is rounded up. The supply index never
overtakes the debt index.
-/

namespace Konomi.Lending
open Machine Compound

variable {A : Type} [DecidableEq A] {cfg : Config A} {s s' t : Chain A} {u : A} {a b : AssetId} {side : Side}
  {pool q : Pool} {now : BlockNumber} {rate I : FixedU128}

/-- The rate of a pool of `_init_pool` that is lent out in full, in a block. -/
def maxRate : ℚ := 4235 / 100000000000

theorem maxRate_nonneg : 0 ≤ maxRate := by
  unfold maxRate
  norm_num

/-- Half a unit of a fixed-point number: the most that a quotient is rounded up by. -/
def halfUnit : ℚ := 1 / (2 * 1000000000000000000)

theorem halfUnit_nonneg : 0 ≤ halfUnit := by
  unfold halfUnit
  norm_num

/-- What an index grows by at most. -/
def indexRate : ℚ := maxRate + halfUnit

theorem indexRate_nonneg : 0 ≤ indexRate := add_nonneg maxRate_nonneg halfUnit_nonneg

/-- What a loan grows by at most. -/
def loanRate : ℚ := indexRate + halfUnit

/-! ## Rates -/

theorem Tame.debtRate_le (h : Tame pool) (hrate : debtRateInternal .release pool = some rate) :
    rate.toNat ≤ pool.initialInterestRate.toNat + pool.utilizationFactor.toNat := by
  obtain ⟨hchecked, _⟩ := h.debtRate hrate
  unfold debtRateInternal at hchecked
  split at hchecked
  · cases hchecked
    omega
  · obtain ⟨ratio, hratio, hchecked⟩ := Option.bind_eq_some_iff.mp hchecked
    obtain ⟨slope, hslope, hchecked⟩ := Option.bind_eq_some_iff.mp hchecked
    have hslope_le : slope.toNat ≤ pool.utilizationFactor.toNat := by
      rw [Fixed.toNat_mul hslope]
      refine rounded_le_of_le accuracy_pos ?_
      rw [Nat.mul_comm accuracy]
      exact Nat.mul_le_mul_left _ (ratio_le_one h.debt_le hratio)
    rw [Fixed.toNat_add rfl hchecked]
    omega

theorem Tame.rate_le (h : Tame pool) (hrate : rateInternal .release pool side = some rate) :
    rate.toNat ≤ pool.initialInterestRate.toNat + pool.utilizationFactor.toNat := by
  cases side with
  | debt => exact h.debtRate_le hrate
  | supply =>
    obtain ⟨debtRate, hdebt⟩ := Option.isSome_iff_exists.mp (h.rate_isSome .debt)
    exact (supplyRate_le h.debt_le hrate hdebt).trans (h.debtRate_le hdebt)

theorem Standard.rate_le (hs : Standard pool) (h : Tame pool) (hrate : rateInternal .release pool side = some rate) :
    (rate.toNat : ℚ) / accuracy ≤ maxRate := by
  have hle := h.rate_le hrate
  rw [hs.initialInterestRate, hs.utilizationFactor] at hle
  have hsum : (Fixed.ofRational 385 100000000000 : FixedU128).toNat +
      (Fixed.ofRational 385 10000000000 : FixedU128).toNat = 42350000000 := by decide
  rw [hsum] at hle
  have hcast : (rate.toNat : ℚ) ≤ 42350000000 := by exact_mod_cast hle
  unfold maxRate accuracy
  rw [div_le_div_iff₀ (by norm_num) (by norm_num)]
  push_cast
  linarith

/-! ## One accrual -/

theorem multiplied_compounds {i m n : Nat} (hrate : (rate.toNat : ℚ) / accuracy ≤ maxRate) (hmn : m ≤ n)
    (hi : accuracy ≤ i) : Compounds indexRate m n (i : ℚ)
      (rounded 128 (i * (accuracy + rate.toNat * (n - m))) accuracy : Nat) := by
  refine Compounds.rounded maxRate_nonneg halfUnit_nonneg (Nat.cast_nonneg _) hmn (fun heq => ?_) ?_
  · rw [heq, Nat.sub_self, Nat.mul_zero, Nat.add_zero, rounded_mul_right 128 i accuracy_pos]
  · have hhalf : 2 * (accuracy * (rounded 128 (i * (accuracy + rate.toNat * (n - m))) accuracy : ℚ)) ≤
        2 * (i * (accuracy + rate.toNat * (n - m : Nat))) + accuracy := by
      exact_mod_cast rounded_le_half 128 (i * (accuracy + rate.toNat * (n - m))) accuracy
    have hround : 1 / 2 ≤ (i : ℚ) * halfUnit := by
      have hone : ((accuracy : ℕ) : ℚ) ≤ i := by exact_mod_cast hi
      unfold halfUnit
      rw [accuracy, Nat.cast_ofNat] at hone
      linarith
    have hD : (0 : ℚ) < (accuracy : ℕ) := by exact_mod_cast accuracy_pos
    have hperiods : (0 : ℚ) ≤ ((n - m : Nat) : ℚ) := Nat.cast_nonneg _
    calc (rounded 128 (i * (accuracy + rate.toNat * (n - m))) accuracy : ℚ)
        ≤ i * (1 + rate.toNat / accuracy * (n - m : Nat)) + 1 / 2 := by
          refine le_of_mul_le_mul_left ?_ (mul_pos two_pos hD)
          calc 2 * (accuracy : ℚ) * _ = 2 * (accuracy * _) := mul_assoc ..
            _ ≤ _ := hhalf
            _ = 2 * accuracy * (i * (1 + rate.toNat / accuracy * (n - m : Nat)) + 1 / 2) := by field_simp
      _ ≤ i * (1 + maxRate * (n - m : Nat)) + i * halfUnit := by gcongr

theorem indexNow_compounds (hs : Standard pool) (h : Tame pool) (hlast : pool.lastUpdated.toNat ≤ now.toNat)
    (hone : accuracy ≤ (pool.index side).toNat) (hI : indexNow .release now pool side = some I) :
    Compounds indexRate pool.lastUpdated.toNat now.toNat ((pool.index side).toNat : ℚ) I.toNat := by
  rw [indexNow_bind] at hI
  obtain ⟨rate, hrate, hI⟩ := Option.bind_eq_some_iff.mp hI
  obtain ⟨factor, hfactor, hI⟩ := Option.bind_eq_some_iff.mp hI
  rw [Fixed.toNat_mul hI, toNat_multiplier_of_fits hlast (h.noWrap side rate hrate) hfactor]
  exact multiplied_compounds (hs.rate_le h hrate) hlast hone

theorem accrued_compounds (hs : Standard pool) (h : Tame pool) (hlast : pool.lastUpdated.toNat ≤ now.toNat)
    (hone : accuracy ≤ (pool.index side).toNat) (hq : accrueInterest .release now pool = some q) :
    Compounds indexRate pool.lastUpdated.toNat now.toNat ((pool.index side).toNat : ℚ) (q.index side).toNat := by
  rcases accrueInterest_cases hq with ⟨hnow, rfl⟩ | ⟨_, ⟨d⟩⟩
  · rw [hnow]
    exact Compounds.refl ..
  · refine indexNow_compounds hs h hlast hone ?_
    rw [indexNow_bind]
    refine Option.bind_eq_some_iff.mpr ⟨_, d.rate_eq side, ?_⟩
    exact Option.bind_eq_some_iff.mpr ⟨_, d.factor_eq side, d.index_eq side⟩

/-- The supply index stays within the debt index. -/
theorem accrued_order (h : Tame pool) (hlast : pool.lastUpdated.toNat ≤ now.toNat)
    (hq : accrueInterest .release now pool = some q)
    (horder : pool.totalSupplyIndex.toNat ≤ pool.totalDebtIndex.toNat) :
    q.totalSupplyIndex.toNat ≤ q.totalDebtIndex.toNat := by
  rcases accrueInterest_cases hq with ⟨_, rfl⟩ | ⟨_, ⟨d⟩⟩
  · exact horder
  · have hrates := supplyRate_le h.debt_le (d.rate_eq .supply) (d.rate_eq .debt)
    have hfactor : ∀ side, (d.factor side).toNat =
        accuracy + (d.rate side).toNat * (now.toNat - pool.lastUpdated.toNat) := fun side =>
      toNat_multiplier_of_fits hlast (h.noWrap side _ (d.rate_eq side)) (d.factor_eq side)
    have hsupply := d.toNat_index .supply
    have hdebt := d.toNat_index .debt
    rw [hfactor] at hsupply hdebt
    show (q.index .supply).toNat ≤ (q.index .debt).toNat
    rw [hsupply, hdebt]
    refine rounded_mono accuracy_pos ?_
    exact Nat.mul_le_mul horder (Nat.add_le_add_left (Nat.mul_le_mul_right _ hrates) _)

/-! ## Runs -/

/-- What holds of the pools of a run in which the debt stays within the supply. -/
structure Paying (s : Chain A) : Prop where
  sound : AllSound s
  paced : Paced s
  standard : ∀ a pool, s.lending.pools a = some pool → Standard pool
  order : ∀ a pool, s.lending.pools a = some pool → pool.totalSupplyIndex.toNat ≤ pool.totalDebtIndex.toNat

/-- The pools of `s` are there in `s'`, and their indexes have grown within the ceiling. -/
def WithinCeiling (s s' : Chain A) : Prop :=
  ∀ a pool, s.lending.pools a = some pool → ∃ pool', s'.lending.pools a = some pool' ∧ ∀ side,
    Compounds indexRate pool.lastUpdated.toNat pool'.lastUpdated.toNat ((pool.index side).toNat : ℚ)
      (pool'.index side).toNat

omit [DecidableEq A] in
theorem WithinCeiling.refl (s : Chain A) : WithinCeiling s s :=
  fun _ pool hpool => ⟨pool, hpool, fun _ => Compounds.refl ..⟩

omit [DecidableEq A] in
theorem WithinCeiling.trans (h : WithinCeiling s s') (h' : WithinCeiling s' t) : WithinCeiling s t := by
  intro a pool hpool
  obtain ⟨pool₁, hpool₁, hgrown⟩ := h a pool hpool
  obtain ⟨pool₂, hpool₂, hgrown'⟩ := h' a pool₁ hpool₁
  exact ⟨pool₂, hpool₂, fun side => (hgrown side).trans indexRate_nonneg (hgrown' side)⟩

/-- The debt stays within the supply, and no pool is made anew. -/
def PayingStep (cfg : Config A) (s : Chain A) (l : Action A) : Prop := SolventStep cfg s l ∧ NewPools s l

omit [DecidableEq A] in
theorem Paying.follows {P : AssetId → Prop} (h : Paying s) (hsound : AllSound s') (hpaced : Paced s')
    (hf : Follows P s s') : Paying s' ∧ WithinCeiling s s' := by
  refine ⟨⟨hsound, hpaced, fun b pool' hpool' => ?_, fun b pool' hpool' => ?_⟩, fun b pool hpool => ?_⟩
  · rcases hf.pools b with hsame | ⟨_, pool, q, q', hacc, hq', htotal⟩
    · exact h.standard b pool' (hsame ▸ hpool')
    · cases hpool'.symm.trans hq'
      have hq := (h.standard b pool hacc.stored).accrued hacc.accrues
      rw [htotal]
      exact ⟨hq.safeFactor, hq.closeFactor, hq.discountFactor, hq.utilizationFactor, hq.initialInterestRate⟩
  · rcases hf.stored hpool' with hold | ⟨pool, q, _, hacc, _, hindex⟩
    · exact h.order b pool' hold
    · have hpool := h.sound b pool hacc.stored
      have horder := accrued_order hpool.tame hpool.last hacc.accrues (h.order b pool hacc.stored)
      show (pool'.index .supply).toNat ≤ (pool'.index .debt).toNat
      rw [hindex, hindex]
      exact horder
  · rcases hf.pools b with hsame | ⟨_, pool₀, q, q', hacc, hq', htotal⟩
    · exact ⟨pool, hsame.trans hpool, fun _ => Compounds.refl ..⟩
    · cases hpool.symm.trans hacc.stored
      have hsound := h.sound b pool hpool
      have hgrown := fun side => accrued_compounds (h.standard b pool hpool) hsound.tame hsound.last
        (h.paced.pools b pool hpool side) hacc.accrues
      refine ⟨q', hq', fun side => ?_⟩
      have hindex : q'.index side = q.index side := by
        rw [htotal]
        cases side <;> rfl
      have hsame : q'.lastUpdated = q.lastUpdated := by rw [htotal]
      have hlast : q'.lastUpdated = s.blockNumber := hsame.trans (accrueInterest_lastUpdated hacc.accrues)
      rw [hindex, hlast]
      exact hgrown side

omit [DecidableEq A] in
theorem pacedStep_of_paying {l : Action A} (h : Paying s) (hok : NewPools s l) : PacedStep s l := by
  have hfits : ∀ call : Call A, call.Fits s := fun call b pool _ hpool => (h.sound b pool hpool).tame.noWrap
  cases l with
  | advance n => trivial
  | call origin c =>
    cases c with
    | assets c => cases origin <;> trivial
    | swap c => cases origin <;> trivial
    | lending c =>
      cases c with
      | initPool id can => cases origin <;> exact hok
      | _ =>
        cases origin with
        | signed u => exact hfits _
        | _ => trivial

theorem step_paying {l : Action A} (h : Paying s) (hok : PayingStep cfg s l) (hs : step cfg .release s l = some s') :
    Paying s' ∧ WithinCeiling s s' := by
  have hsound := step_sound h.sound hok.1 hs
  have hpaced : Paced s' := step_paced h.paced (pacedStep_of_paying h hok.2) hs
  rcases step_storage hs with ⟨n, rfl, _, rfl⟩ | ⟨u, call, r, rfl, hcall⟩ | ⟨origin, id, c, rfl, rfl⟩ | ⟨hl, _⟩
  · exact ⟨⟨hsound, hpaced, h.standard, h.order⟩, WithinCeiling.refl s⟩
  · exact h.follows hsound hpaced hcall.follows
  · have hnew : s.lending.pools id = none := hok.2
    refine ⟨⟨hsound, hpaced, fun b pool hpool => ?_, fun b pool hpool => ?_⟩, fun b pool hpool => ⟨pool, ?_, ?_⟩⟩
    · rcases stored_cases hpool with ⟨_, hmade⟩ | ⟨_, hold⟩
      · cases hmade
        exact ⟨rfl, rfl, rfl, rfl, rfl⟩
      · exact h.standard b pool hold
    · rcases stored_cases hpool with ⟨_, hmade⟩ | ⟨_, hold⟩
      · cases hmade
        exact le_rfl
      · exact h.order b pool hold
    · refine (Function.update_of_ne ?_ ..).trans hpool
      rintro rfl
      rw [hnew] at hpool
      cases hpool
    · exact fun _ => Compounds.refl ..
  · refine ⟨⟨hsound, hpaced, fun b pool hpool => ?_, fun b pool hpool => ?_⟩, fun b pool hpool => ⟨pool, ?_, ?_⟩⟩
    · exact h.standard b pool (hl ▸ hpool)
    · exact h.order b pool (hl ▸ hpool)
    · rw [hl, hpool]
    · exact fun _ => Compounds.refl ..

theorem genesis_paying {g : Genesis A} (h : genesis .release g = some s) : Paying s := by
  obtain ⟨_, _, _, hpools⟩ := genesis_lending h
  refine ⟨genesis_sound h, genesis_paced h, fun a pool hpool => ?_, fun a pool hpool => ?_⟩
  · rw [hpools a pool hpool]
    exact ⟨rfl, rfl, rfl, rfl, rfl⟩
  · rw [hpools a pool hpool]
    exact le_rfl

theorem run_paying (h : Paying s) (hrun : Run (step cfg .release) (PayingStep cfg) s t) :
    Paying t ∧ WithinCeiling s t :=
  hrun.invariant (I := fun t => Paying t ∧ WithinCeiling s t) ⟨h, WithinCeiling.refl s⟩ fun _ _ _ ht hok hstep => by
    obtain ⟨hpaying, hgrown⟩ := step_paying ht.1 hok hstep
    exact ⟨hpaying, ht.2.trans hgrown⟩

theorem reached_paying (h : Reached cfg (PayingStep cfg) s) : Paying s := by
  obtain ⟨g, s₀, hs₀, hrun⟩ := h
  exact (run_paying (genesis_paying hs₀) hrun).1

/-- Half of the supply of the mock runtime is lent, for a million blocks up to the next call. -/
theorem lent_run : ∃ s t pool, Reached mockConfig (PayingStep mockConfig) s ∧
    Run (step mockConfig .release) (PayingStep mockConfig) s t ∧ s.blockNumber.toNat = 1 ∧
    s.lending.pools 0 = some pool ∧ pool.lastUpdated = s.blockNumber ∧
    s.lending.debts.records (0, 1) = some ⟨100000000000000000, pool.totalDebtIndex⟩ ∧
    t.lending.debts.records (0, 1) = s.lending.debts.records (0, 1) ∧
    t.blockNumber.toNat = s.blockNumber.toNat + 1000000 ∧
    getUserDebtWithInterest .release t 0 1 = some 102310000000000000 ∧ 0 < (t.assets.getRate 0).toNat := by
  obtain ⟨s₀, hs₀⟩ : ∃ s, genesis .release mockGenesis = some s := ⟨_, rfl⟩
  have hnew : ∀ a pool n, s₀.lending.pools a = some pool → Margin pool n := by
    intro a pool n hpool
    rw [(genesis_lending hs₀).2.2.2 a pool hpool]
    exact margin_of_no_debt rfl
  obtain ⟨s₁, s₂, s₃, s₄, s₅, pool, h₁, h₂, hfits₂, h₃, hmargin, h₄, h₅, hfits₅, hone, hpool, hlast, hrec, hkept,
      hblock, hview, hprice⟩ :
      ∃ s₁ s₂ s₃ s₄ s₅ : Chain (Fin 4), ∃ pool, step mockConfig .release s₀ (.advance 1) = some s₁ ∧
      step mockConfig .release s₁ (.call (.signed 1) (.lending (.supply 0 200000000000000000))) = some s₂ ∧
      Fits mockConfig s₁ 1 (.supply 0 200000000000000000) ∧
      step mockConfig .release s₂ (.call (.signed 1) (.lending (.borrow 0 100000000000000000))) = some s₃ ∧
      SolventStep mockConfig s₃ (.advance 1000001) ∧ step mockConfig .release s₃ (.advance 1000001) = some s₄ ∧
      step mockConfig .release s₄ (.call (.signed 1) (.lending (.supply 0 1))) = some s₅ ∧
      Fits mockConfig s₄ 1 (.supply 0 1) ∧ s₃.blockNumber.toNat = 1 ∧ s₃.lending.pools 0 = some pool ∧
      pool.lastUpdated = s₃.blockNumber ∧
      s₃.lending.debts.records (0, 1) = some ⟨100000000000000000, pool.totalDebtIndex⟩ ∧
      s₅.lending.debts.records (0, 1) = s₃.lending.debts.records (0, 1) ∧
      s₅.blockNumber.toNat = s₃.blockNumber.toNat + 1000000 ∧
      getUserDebtWithInterest .release s₅ 0 1 = some 102310000000000000 ∧ 0 < (s₅.assets.getRate 0).toNat := by
    cases hs₀
    refine ⟨_, _, _, _, _, _, rfl, rfl, ?_, rfl, ?_, rfl, rfl, ?_, rfl, rfl, rfl, rfl, rfl, rfl, rfl, by decide⟩
    · rintro ⟨side, positive, a, x, pool, q, value, ⟨⟩, ⟨⟩, ⟨⟩, _⟩
      dsimp only
      decide
    · intro a pool hpool
      by_cases ha : a = 0
      · subst ha
        cases hpool
        refine Tame.margin_of_cash ⟨?_, ?_⟩ ?_
        · decide
        · decide
        · decide
      · refine hnew a pool 1000001 ?_
        rw [← hpool]
        exact ((Function.update_of_ne ha ..).trans (Function.update_of_ne ha ..)).symm
    · rintro ⟨side, positive, a, x, pool, q, value, ⟨⟩, ⟨⟩, ⟨⟩, _⟩
      dsimp only
      decide
  have hfits₃ : Fits mockConfig s₂ 1 (.borrow 0 100000000000000000) := by
    rintro ⟨side, positive, a, x, pool, q, value, ⟨⟩, _⟩
    trivial
  have hcalls : ∀ {s : Chain (Fin 4)} {c : Call (Fin 4)}, (∀ id can, c ≠ .initPool id can) → Fits mockConfig s 1 c →
      PayingStep mockConfig s (.call (.signed 1) (.lending c)) := by
    intro s c hc hfits
    cases c with
    | initPool id can => exact absurd rfl (hc id can)
    | _ => exact ⟨hfits, trivial⟩
  have hnone : ∀ {s : Chain (Fin 4)} {n : BlockNumber}, SolventStep mockConfig s (.advance n) →
      PayingStep mockConfig s (.advance n) := fun h => ⟨h, trivial⟩
  have hrun : Run (step mockConfig .release) (PayingStep mockConfig) s₀ s₃ :=
    ((Run.refl.tail (hnone fun a pool => hnew a pool 1) h₁).tail (hcalls (fun _ _ h => by cases h) hfits₂) h₂).tail
      (hcalls (fun _ _ h => by cases h) hfits₃) h₃
  have hrun' : Run (step mockConfig .release) (PayingStep mockConfig) s₃ s₅ :=
    (Run.refl.tail (hnone hmargin) h₄).tail (hcalls (fun _ _ h => by cases h) hfits₅) h₅
  exact ⟨s₃, s₅, pool, ⟨mockGenesis, s₀, hs₀, hrun⟩, hrun', hone, hpool, hlast, hrec, hkept, hblock, hview, hprice⟩

/-- **No index grows faster than `indexRate` in every block, and the supply index never overtakes the debt index.** From
every state reached without a pool made anew, in which the debt has stayed within the supply, along every such run: the
stored indexes of a pool have grown at most by `1 + indexRate` to the number of blocks between the two updates. -/
theorem index_growth {pool : Pool} (hs : Reached cfg (PayingStep cfg) s)
    (hrun : Run (step cfg .release) (PayingStep cfg) s t) (hpool : s.lending.pools a = some pool) :
    ∃ pool', t.lending.pools a = some pool' ∧ pool'.totalSupplyIndex.toNat ≤ pool'.totalDebtIndex.toNat ∧
      pool.lastUpdated ≤ pool'.lastUpdated ∧ ∀ side, ((pool'.index side).toNat : ℚ) ≤
        (pool.index side).toNat * (1 + indexRate) ^ (pool'.lastUpdated.toNat - pool.lastUpdated.toNat) := by
  obtain ⟨hpaying, hgrown⟩ := run_paying (reached_paying hs) hrun
  obtain ⟨pool', hpool', hindex⟩ := hgrown a pool hpool
  exact ⟨pool', hpool', hpaying.order a pool' hpool', BitVec.le_def.mpr (hindex .debt).period_le,
    fun side => (hindex side).index_le⟩

theorem index_growth_mock : ∃ s t pool pool', Reached mockConfig (PayingStep mockConfig) s ∧
    Run (step mockConfig .release) (PayingStep mockConfig) s t ∧ s.lending.pools 0 = some pool ∧
    t.lending.pools 0 = some pool' ∧ pool.lastUpdated ≤ pool'.lastUpdated ∧ (pool'.totalDebtIndex.toNat : ℚ) ≤
      pool.totalDebtIndex.toNat * (1 + indexRate) ^ (pool'.lastUpdated.toNat - pool.lastUpdated.toNat) := by
  obtain ⟨s, t, pool, hs, hrun, _, hpool, _⟩ := lent_run
  obtain ⟨pool', hpool', _, hlast, hindex⟩ := index_growth hs hrun hpool
  exact ⟨s, t, pool, pool', hs, hrun, hpool, hpool', hlast, hindex .debt⟩

theorem le_add_half {x y z : ℚ} (h : 2 * x ≤ 2 * y + z) : x ≤ y + z / 2 := by
  linarith

/-- A record is viewed as at most its amount at the quotient of the indexes, up to half a unit of it and of the view. -/
theorem accrued_le_half {J : FixedU128} {x w : Balance} (h : Position.accrued .release I ⟨x, J⟩ = some w) :
    (w.toNat : ℚ) ≤ x.toNat * (I.toNat / J.toNat + halfUnit) + 1 / 2 := by
  obtain ⟨hne, hw⟩ := toNat_accrued h
  have hJ : (0 : ℚ) < J.toNat := by exact_mod_cast Nat.pos_of_ne_zero hne
  have hD : (0 : ℚ) < (accuracy : ℕ) := by exact_mod_cast accuracy_pos
  have hle : w.toNat ≤ rounded 128 (rounded 128 (I.toNat * accuracy) J.toNat * x.toNat) accuracy :=
    hw.trans_le (min_le_left _ _)
  have hratio : 2 * ((J.toNat : ℚ) * rounded 128 (I.toNat * accuracy) J.toNat) ≤
      2 * (I.toNat * accuracy) + J.toNat := by
    exact_mod_cast rounded_le_half 128 (I.toNat * accuracy) J.toNat
  generalize rounded 128 (I.toNat * accuracy) J.toNat = ratio at hle hratio
  have hvalue : 2 * ((accuracy : ℚ) * w.toNat) ≤ 2 * (ratio * x.toNat) + accuracy := by
    exact_mod_cast (Nat.mul_le_mul_left 2 (Nat.mul_le_mul_left accuracy hle)).trans (rounded_le_half ..)
  have hratio : (ratio : ℚ) ≤ accuracy * (I.toNat / J.toNat + halfUnit) := by
    have hhalf : (accuracy : ℚ) * halfUnit = 1 / 2 := by
      unfold halfUnit accuracy
      norm_num
    rw [mul_add, hhalf]
    refine le_of_mul_le_mul_left ?_ hJ
    calc (J.toNat : ℚ) * ratio ≤ I.toNat * accuracy + J.toNat / 2 := le_add_half hratio
      _ = J.toNat * (accuracy * (I.toNat / J.toNat) + 1 / 2) := by field_simp
  refine le_of_mul_le_mul_left ?_ hD
  calc (accuracy : ℚ) * w.toNat ≤ ratio * x.toNat + accuracy / 2 := le_add_half hvalue
    _ ≤ accuracy * (I.toNat / J.toNat + halfUnit) * x.toNat + accuracy / 2 := by gcongr
    _ = accuracy * (x.toNat * (I.toNat / J.toNat + halfUnit) + 1 / 2) := by ring

/-- **A loan never grows faster than `loanRate` in every block.** A record of `x` that has been written at a call of its
owner, and that no call has touched since, is viewed as at most `x` times `1 + loanRate` to the number of blocks, and a
half. -/
theorem loan_growth {pool : Pool} {x w : Balance} (hs : Reached cfg (PayingStep cfg) s)
    (hrun : Run (step cfg .release) (PayingStep cfg) s t) (hpool : s.lending.pools a = some pool)
    (hlast : pool.lastUpdated = s.blockNumber)
    (hrec : s.lending.debts.records (a, u) = some ⟨x, pool.totalDebtIndex⟩)
    (hkept : t.lending.debts.records (a, u) = s.lending.debts.records (a, u))
    (hview : getUserDebtWithInterest .release t a u = some w) :
    (w.toNat : ℚ) ≤ x.toNat * (1 + loanRate) ^ (t.blockNumber.toNat - s.blockNumber.toNat) + 1 / 2 := by
  obtain ⟨hpaying, hgrown⟩ := run_paying (reached_paying hs) hrun
  obtain ⟨pool', hpool', hindex⟩ := hgrown a pool hpool
  have hview : view .release t a u .debt = some w := hview
  rw [view_eq, hpool'] at hview
  obtain ⟨I, hI, hvalue⟩ := Option.bind_eq_some_iff.mp hview
  have hsound := hpaying.sound a pool' hpool'
  have hnow := indexNow_compounds (hpaying.standard a pool' hpool') hsound.tame hsound.last
    (hpaying.paced.pools a pool' hpool' .debt) hI
  have hall := ((hindex .debt).trans indexRate_nonneg hnow).index_le
  rw [hlast] at hall
  have hrec' : (t.lending.book .debt).records (a, u) = some ⟨x, pool.totalDebtIndex⟩ := hkept.trans hrec
  rw [hrec'] at hvalue
  have hvalue : Position.accrued .release I ⟨x, pool.totalDebtIndex⟩ = some w := hvalue
  have hJ : 0 < pool.totalDebtIndex.toNat := Nat.pos_of_ne_zero (toNat_accrued hvalue).1
  generalize t.blockNumber.toNat - s.blockNumber.toNat = n at hall ⊢
  rcases Nat.eq_zero_or_pos n with rfl | hn
  · -- no block has passed: the index is that of the record
    rw [pow_zero, mul_one] at hall ⊢
    have hle : w.toNat ≤ x.toNat := by
      have hratio : rounded 128 (I.toNat * accuracy) pool.totalDebtIndex.toNat ≤ accuracy :=
        rounded_le_of_le hJ (Nat.mul_le_mul_right _ (by exact_mod_cast hall))
      rw [(toNat_accrued hvalue).2]
      exact (min_le_left _ _).trans (rounded_le_of_le accuracy_pos (Nat.mul_le_mul_right _ hratio))
    have hcast : (w.toNat : ℚ) ≤ x.toNat := by exact_mod_cast hle
    linarith
  · have hquotient : (I.toNat : ℚ) / pool.totalDebtIndex.toNat ≤ (1 + indexRate) ^ n := by
      rw [div_le_iff₀ (by exact_mod_cast hJ), mul_comm]
      exact hall
    have hpow : (I.toNat : ℚ) / pool.totalDebtIndex.toNat + halfUnit ≤ (1 + loanRate) ^ n := by
      rw [loanRate]
      exact (add_le_add hquotient le_rfl).trans (pow_add_le_pow indexRate_nonneg halfUnit_nonneg hn.ne')
    calc (w.toNat : ℚ) ≤ x.toNat * (I.toNat / pool.totalDebtIndex.toNat + halfUnit) + 1 / 2 := accrued_le_half hvalue
      _ ≤ x.toNat * (1 + loanRate) ^ n + 1 / 2 := by gcongr

/-- A loan of 10^17 is viewed as 1.0231 of that after a million blocks. -/
theorem loan_growth_mock : ∃ s t, Reached mockConfig (PayingStep mockConfig) s ∧
    Run (step mockConfig .release) (PayingStep mockConfig) s t ∧ t.blockNumber.toNat = s.blockNumber.toNat + 1000000 ∧
    getUserDebtWithInterest .release t 0 1 = some 102310000000000000 ∧
    (102310000000000000 : ℚ) ≤ 100000000000000000 * (1 + loanRate) ^ 1000000 + 1 / 2 := by
  obtain ⟨s, t, pool, hs, hrun, _, hpool, hlast, hrec, hkept, hblock, hview, _⟩ := lent_run
  have hle := loan_growth hs hrun hpool hlast hrec hkept hview
  rw [hblock, Nat.add_sub_cancel_left] at hle
  exact ⟨s, t, hs, hrun, hblock, hview, hle⟩

end Konomi.Lending
