import Konomi.Lib.Shares
import Konomi.Lending.Rounding

/-!
# When the debts of the users are covered by the debt of the pool

A debt is a share `amount / index` of its pool. The shares are covered by the pool's debt at its index
(`Shares.Covers`), and then the views of all users sum to at most the accrued debt (`Backs.sum_le`), as long as
everything is rounded to the pool's advantage: at a new block no debt index and no user's debt is rounded up
(`RoundsDown`), and no accrual that is stored rounds `pool.debt` down (`ChargedInFull`). The last is the defect:
`pool.debt` is rounded to a whole unit every time an accrual is stored, a user's debt only when that user is touched.
`ExactStep` asks for this, and that the debt total neither saturates nor wraps.
-/

namespace Konomi.Lending
open Machine Assets

variable {A : Type} [DecidableEq A] {cfg : Config A} {s s' : Chain A} {u : A} {a : AssetId} {pool q : Pool}
  {now n : BlockNumber} {side : Side}

/-! ## Accruals of the debt -/

/-- At block `n` the debt multiplier does not wrap and the accrued debt does not saturate. -/
def DebtFits (n : BlockNumber) (pool : Pool) : Prop :=
  ∀ rate, debtRateInternal .release pool = some rate →
    accuracy + rate.toNat * (n.toNat - pool.lastUpdated.toNat) < 2 ^ 128 ∧
    grown pool.debt.toNat rate.toNat (n.toNat - pool.lastUpdated.toNat) < 2 ^ 128

/-- At block `n` the interest that is charged on the debt is no less than the exact one: that is a whole number of units,
or is rounded up. -/
def ChargedInFull (n : BlockNumber) (pool : Pool) : Prop :=
  ∀ rate, debtRateInternal .release pool = some rate →
    pool.debt.toNat * rate.toNat * (n.toNat - pool.lastUpdated.toNat) ≤
      accuracy * interest pool.debt.toNat rate.toNat (n.toNat - pool.lastUpdated.toNat)

/-- The debt and its index are multiplied by the same factor and rounded. -/
structure DebtGrowth (pool q : Pool) (factor : Nat) : Prop where
  one_le : accuracy ≤ factor
  debt_eq : q.debt.toNat = rounded 128 (factor * pool.debt.toNat) accuracy
  index_eq : q.totalDebtIndex.toNat = rounded 128 (pool.totalDebtIndex.toNat * factor) accuracy
  index_below : accuracy * q.totalDebtIndex.toNat ≤ pool.totalDebtIndex.toNat * factor

theorem debtGrowth (hlast : pool.lastUpdated.toNat ≤ now.toNat) (hfits : DebtFits now pool)
    (hbelow : IndexBelow pool .debt now) (hq : accrueInterest .release now pool = some q) :
    ∃ factor, DebtGrowth pool q factor ∧
      (ChargedInFull now pool → factor * pool.debt.toNat ≤ accuracy * q.debt.toNat) := by
  rcases accrueInterest_cases hq with ⟨_, rfl⟩ | ⟨_, ⟨d⟩⟩
  · exact ⟨accuracy, ⟨le_refl _, (rounded_mul 128 _ accuracy_pos).symm, (rounded_mul_right 128 _ accuracy_pos).symm,
      (Nat.mul_comm ..).le⟩, fun _ => le_refl _⟩
  · have hrate : debtRateInternal .release pool = some (d.rate .debt) := d.rate_eq .debt
    obtain ⟨hwrap, hdebt⟩ := hfits _ hrate
    have hfactor := toNat_multiplier_of_fits hlast hwrap (d.factor_eq .debt)
    have hindex : q.totalDebtIndex.toNat =
        rounded 128 (pool.totalDebtIndex.toNat * (d.factor .debt).toNat) accuracy := d.toNat_index .debt
    have htotal : q.debt.toNat = grown pool.debt.toNat (d.rate .debt).toNat
        (now.toNat - pool.lastUpdated.toNat) := by
      have hmin := Fixed.toNat_mulInt (d.total_eq .debt)
      rw [hfactor] at hmin
      exact hmin.trans (min_eq_left (Nat.le_sub_one_of_lt hdebt))
    refine ⟨(d.factor .debt).toNat, ⟨?_, ?_, hindex, ?_⟩, fun hfull => ?_⟩
    · rw [hfactor]
      exact Nat.le_add_right _ _
    · rw [htotal, hfactor, grown]
    · rw [hindex, hfactor]
      exact hbelow _ hrate
    · rw [htotal, grown_eq_add, hfactor, Nat.mul_add, Nat.add_mul, Nat.mul_comm (_ * _)]
      refine Nat.add_le_add_left ?_ _
      rw [← Nat.mul_assoc]
      exact hfull _ hrate

section Growth
variable {factor : Nat}

theorem DebtGrowth.index_le (h : DebtGrowth pool q factor) :
    (q.totalDebtIndex.toNat : ℚ) ≤ pool.totalDebtIndex.toNat * ((factor : ℚ) / (accuracy : ℕ)) := by
  have hD : (0 : ℚ) < (accuracy : ℕ) := by exact_mod_cast accuracy_pos
  rw [← mul_div_assoc, le_div_iff₀ hD, mul_comm]
  exact_mod_cast h.index_below

theorem DebtGrowth.index_pos (h : DebtGrowth pool q factor) (hpos : (0 : ℚ) < pool.totalDebtIndex.toNat) :
    (0 : ℚ) < q.totalDebtIndex.toNat := by
  have hpos : 0 < pool.totalDebtIndex.toNat := by exact_mod_cast hpos
  have hle : pool.totalDebtIndex.toNat ≤ q.totalDebtIndex.toNat := by
    rw [h.index_eq]
    refine le_rounded_of_le accuracy_pos ?_
    rw [Nat.mul_comm]
    exact Nat.mul_le_mul_left _ h.one_le
  exact_mod_cast hpos.trans_le hle

end Growth

/-! ## The invariant -/

/-- The shares of an asset in the book of debts. -/
def debtShares (s : Chain A) (a : AssetId) (u : A) : ℚ := share (s.lending.debts.records (a, u))

/-- Every pool's debt covers the debts of its users, and can be accrued at the current block. -/
structure Backs [Fintype A] (s : Chain A) : Prop where
  last : ∀ a pool, s.lending.pools a = some pool → pool.lastUpdated.toNat ≤ s.blockNumber.toNat
  fits : ∀ a pool, s.lending.pools a = some pool → DebtFits s.blockNumber pool
  down : RoundsDown s .debt s.blockNumber
  covers : ∀ a pool, s.lending.pools a = some pool →
    Shares.Covers (debtShares s a) (pool.debt.toNat : ℚ) (pool.totalDebtIndex.toNat : ℚ)

section Invariant
variable [Fintype A]

omit [DecidableEq A] in
theorem Backs.growth (h : Backs s) (hpool : s.lending.pools a = some pool)
    (hq : accrueInterest .release s.blockNumber pool = some q) : ∃ factor, DebtGrowth pool q factor ∧
      (ChargedInFull s.blockNumber pool → factor * pool.debt.toNat ≤ accuracy * q.debt.toNat) :=
  debtGrowth (h.last a pool hpool) (h.fits a pool hpool) (h.down a pool hpool).1 hq

omit [DecidableEq A] in
theorem Backs.below (h : Backs s) (hpool : s.lending.pools a = some pool)
    (hq : accrueInterest .release s.blockNumber pool = some q) (u : A) :
    BelowShare q.totalDebtIndex (s.lending.debts.records (a, u)) := (h.down a pool hpool).2 q hq u

omit [DecidableEq A] in
/-- **Positions at the accrued index sum to at most the accrued debt.** -/
theorem Backs.sum_le (h : Backs s) (hpool : s.lending.pools a = some pool)
    (hq : accrueInterest .release s.blockNumber pool = some q) {v : A → Nat}
    (hv : ∀ u, (v u : ℚ) ≤ q.totalDebtIndex.toNat * debtShares s a u) : ∑ u, v u ≤ q.debt.toNat := by
  obtain ⟨factor, hgrowth, _⟩ := h.growth hpool hq
  have hsum := (h.covers a pool hpool).sum_le (Nat.cast_nonneg _) hgrowth.index_le (Nat.cast_nonneg _) hv
  have hD : (0 : ℚ) < (accuracy : ℕ) := by exact_mod_cast accuracy_pos
  rw [← mul_div_assoc, le_div_iff₀ hD, mul_comm, mul_comm (pool.debt.toNat : ℚ)] at hsum
  rw [hgrowth.debt_eq]
  exact le_rounded_of_le accuracy_pos (by exact_mod_cast hsum)

theorem Backs.owed_le (h : Backs s) (hpool : s.lending.pools a = some pool)
    (hq : accrueInterest .release s.blockNumber pool = some q) {owed : Balance}
    (howed : valueAt .release q.totalDebtIndex (s.lending.debts.records (a, u)) = some owed) :
    owed.toNat ≤ q.debt.toNat := by
  have hsum := h.sum_le hpool hq (v := fun w => if w = u then owed.toNat else 0) fun w => by
    split
    · rename_i hw
      rw [hw]
      exact value_le_share (h.below hpool hq u) howed
    · rw [Nat.cast_zero]
      exact mul_nonneg (Nat.cast_nonneg _) (share_nonneg _)
  simpa using hsum

omit [DecidableEq A] in
theorem Backs.accrued (h : Backs s) (hpool : s.lending.pools a = some pool)
    (hq : accrueInterest .release s.blockNumber pool = some q) (hfull : ChargedInFull s.blockNumber pool) :
    Shares.Covers (debtShares s a) (q.debt.toNat : ℚ) (q.totalDebtIndex.toNat : ℚ) := by
  obtain ⟨factor, hgrowth, hcharged⟩ := h.growth hpool hq
  have hcovers := h.covers a pool hpool
  have hD : (0 : ℚ) < (accuracy : ℕ) := by exact_mod_cast accuracy_pos
  refine hcovers.grow (hgrowth.index_pos hcovers.index_pos) hgrowth.index_le (Nat.cast_nonneg _) ?_
  rw [← mul_div_assoc, div_le_iff₀ hD, mul_comm, mul_comm (q.debt.toNat : ℚ)]
  exact_mod_cast hcharged hfull

theorem debtFits_self (h : pool.lastUpdated = now) : DebtFits now pool := by
  intro rate _
  rw [h, Nat.sub_self, grown_zero_blocks, Nat.mul_zero]
  exact ⟨accuracy_lt, pool.debt.isLt⟩

omit [DecidableEq A] in
theorem Backs.commit (h : Backs s) (hdown : RoundsDown s' .debt s'.blockNumber)
    (hblock : s'.blockNumber = s.blockNumber) {q' : Pool}
    (hpools : s'.lending.pools = Function.update s.lending.pools a (some q'))
    (hlast : q'.lastUpdated = s.blockNumber) (hothers : ∀ b, b ≠ a → debtShares s' b = debtShares s b)
    (hcovers : Shares.Covers (debtShares s' a) (q'.debt.toNat : ℚ) (q'.totalDebtIndex.toNat : ℚ)) : Backs s' := by
  have hcases : ∀ b pool, s'.lending.pools b = some pool → (b = a ∧ some q' = some pool) ∨
      (b ≠ a ∧ s.lending.pools b = some pool) := by
    intro b pool hpool
    rw [hpools] at hpool
    exact stored_cases hpool
  refine ⟨fun b pool hpool => ?_, fun b pool hpool => ?_, hdown, fun b pool hpool => ?_⟩
  · rw [hblock]
    rcases hcases b pool hpool with ⟨_, ⟨⟩⟩ | ⟨_, hpool⟩
    · rw [hlast]
    · exact h.last b pool hpool
  · rw [hblock]
    rcases hcases b pool hpool with ⟨_, ⟨⟩⟩ | ⟨_, hpool⟩
    · exact debtFits_self hlast
    · exact h.fits b pool hpool
  · rcases hcases b pool hpool with ⟨rfl, ⟨⟩⟩ | ⟨hb, hpool⟩
    · exact hcovers
    · rw [hothers b hb]
      exact h.covers b pool hpool

/-- A debt that is rewritten at its value keeps its share or loses by rounding. -/
theorem Backs.accrue (h : Backs s) (hdown : RoundsDown s' .debt s'.blockNumber)
    (hblock : s'.blockNumber = s.blockNumber) (hpools : s'.lending.pools = s.lending.pools)
    (hpool : s.lending.pools a = some pool) (hq : accrueInterest .release s.blockNumber pool = some q)
    (hbook : s.lending.debts.accrue .release q.totalDebtIndex a u = some s'.lending.debts) : Backs s' := by
  refine ⟨fun b pool hb => ?_, fun b pool hb => ?_, hdown, fun b pool' hb => ?_⟩
  · rw [hblock]
    exact h.last b pool (by rw [← hpools]; exact hb)
  · rw [hblock]
    exact h.fits b pool (by rw [← hpools]; exact hb)
  · rw [hpools] at hb
    have hle : ∀ v, debtShares s' b v ≤ debtShares s b v := fun v =>
      share_accrue_le (h.below hpool hq u) ⟨id, id⟩ hbook (b, v)
    exact (h.covers b pool' hb).mono (fun v => share_nonneg _) hle

end Invariant

/-! ## Steps -/

/-- The interest on the debt that a call on a position stores is not rounded down, and a loan does not wrap the debt
total. -/
def Exact (cfg : Config A) (s : Chain A) (u : A) (call : Call A) : Prop :=
  ∀ r : Ready cfg s u call, ChargedInFull s.blockNumber r.pool ∧
    (r.side = .debt → r.positive = true → r.accrued.debt.toNat + r.x.toNat < 2 ^ 128)

/-- What each action of a run has to meet: at a new block no accrued debt saturates and no index and no debt of a user is
rounded up, and the calls are exact. Liquidations and new pools are not part of these runs. -/
def ExactStep (cfg : Config A) (s : Chain A) : Action A → Prop
  | .advance n => (∀ a pool, s.lending.pools a = some pool → DebtFits n pool) ∧ RoundsDown s .debt n
  | .call _ (.lending (.liquidate _ _ _ _)) => False
  | .call _ (.lending (.initPool _ _)) => False
  | .call (.signed u) (.lending call) => Exact cfg s u call
  | _ => True

section Steps
variable [Fintype A]

omit [Fintype A] in
theorem Posting.debtShares_of_ne {positive : Bool} {x : Balance} (d : Posting cfg .release s u side positive a x)
    {b : AssetId} {v : A} (hne : side = .supply ∨ (b, v) ≠ (a, u)) :
    debtShares d.result b v = debtShares s b v := by
  have hrec : (d.result.lending.book .debt).records (b, v) = (s.lending.book .debt).records (b, v) := by
    refine d.records_other ?_
    rintro ⟨rfl, rfl, rfl⟩
    exact hne.resolve_left (by simp) rfl
  change d.result.lending.debts.records (b, v) = s.lending.debts.records (b, v) at hrec
  rw [debtShares, debtShares, hrec]

/-- A debt rises by no more than the debt of its pool, and falls by as much. -/
theorem Posting.value_le_total {call : Call A} {positive : Bool} {x : Balance}
    (entry : call.entry = some (.debt, positive, a, x)) (d : Posting cfg .release s u .debt positive a x)
    (hexact : Exact cfg s u call) (h : Backs s) :
    d.value'.toNat + d.accrued.debt.toNat ≤ d.value.toNat + d.total'.toNat := by
  cases positive with
  | true =>
    have hfit : d.accrued.debt.toNat + d.amount.toNat < 2 ^ 128 := by
      rw [d.amount_eq]
      exact (hexact (d.ready entry)).2 rfl rfl
    have htotal : d.total'.toNat = d.accrued.debt.toNat + d.amount.toNat := toNat_adjust_add d.total'_eq hfit
    have hvalue : d.value'.toNat ≤ d.value.toNat + d.amount.toNat := by
      rw [show d.value' = d.value + d.amount from add_eq d.value'_eq, BitVec.toNat_add]
      exact Nat.mod_le _ _
    omega
  | false =>
    have hle := BitVec.le_def.mp d.amount_le_value
    have hfit : d.amount.toNat ≤ d.accrued.debt.toNat := hle.trans (h.owed_le d.stored d.accrues d.value_eq)
    have htotal : d.total'.toNat = d.accrued.debt.toNat - d.amount.toNat := toNat_adjust_sub d.total'_eq hfit
    have hvalue := toNat_adjust_sub d.value'_eq hle
    omega

theorem Posting.covers_debt {call : Call A} {positive : Bool} {x : Balance}
    (entry : call.entry = some (.debt, positive, a, x)) (d : Posting cfg .release s u .debt positive a x)
    (hexact : Exact cfg s u call) (h : Backs s) :
    Shares.Covers (debtShares d.result a) (d.total'.toNat : ℚ) (d.accrued.totalDebtIndex.toNat : ℚ) := by
  have hcovers := h.accrued d.stored d.accrues (hexact (d.ready entry)).1
  have hshare : debtShares d.result a u = (d.value'.toNat : ℚ) / d.accrued.totalDebtIndex.toNat := by
    have hbook : d.result.lending.debts = d.book' := d.result_book .debt
    rw [debtShares, hbook, d.book'_records]
    exact share_put ..
  have hle := d.value_le_total entry hexact h
  refine hcovers.post u (div_le_share (h.below d.stored d.accrues u) d.value_eq) (Nat.cast_nonneg _) hshare
    (fun v hv => ?_) ?_
  · exact d.debtShares_of_ne (Or.inr fun e => hv (Prod.mk.inj e).2)
  · exact_mod_cast hle

theorem Posting.backs {call : Call A} {positive : Bool} {x : Balance}
    (entry : call.entry = some (side, positive, a, x)) (d : Posting cfg .release s u side positive a x)
    (hexact : Exact cfg s u call) (h : Backs s) : Backs d.result := by
  have hdown := h.down.follows (d.follows (P := fun _ => True) trivial)
  refine h.commit hdown rfl d.result_pools d.lastUpdated_after (fun b hb => funext fun v => ?_) ?_
  · exact d.debtShares_of_ne (Or.inr fun e => hb (Prod.mk.inj e).1)
  · cases side with
    | debt => exact d.covers_debt entry hexact h
    | supply =>
      have hsame : debtShares d.result a = debtShares s a := funext fun v => d.debtShares_of_ne (Or.inl rfl)
      have hcovers := h.accrued d.stored d.accrues (hexact (d.ready entry)).1
      rw [hsame]
      exact hcovers

theorem genesis_backs {g : Genesis A} (h : genesis .release g = some s) : Backs s := by
  obtain ⟨_, _, hdebts, hpools⟩ := genesis_lending h
  have hlast := genesis_lastUpdated h
  refine ⟨fun a pool hpool => by rw [hlast a pool hpool], fun a pool hpool => debtFits_self (hlast a pool hpool),
    genesis_roundsDown h _ _, ?_⟩
  intro a pool hpool
  have hzero : ∀ u, debtShares s a u = 0 := fun u => by
    rw [debtShares, hdebts]
    rfl
  have hone : (newPool 0 a true).totalDebtIndex.toNat = accuracy := Fixed.toNat_one accuracy_lt
  rw [hpools a pool hpool]
  refine ⟨?_, fun u => (hzero u).ge, ?_⟩
  · rw [hone]
    exact_mod_cast accuracy_pos
  · rw [Finset.sum_eq_zero fun u _ => hzero u]
    exact div_nonneg (Nat.cast_nonneg _) (Nat.cast_nonneg _)

theorem step_backs {l : Action A} (h : Backs s) (hok : ExactStep cfg s l) (hs : step cfg .release s l = some s') :
    Backs s' := by
  rcases step_cases hs with ⟨block, rfl, hlt, rfl⟩ | ⟨origin, c, r, rfl, hd⟩ | ⟨origin, c, r, rfl, _, _, hl, hblock⟩
  · exact ⟨fun a pool hpool => (h.last a pool hpool).trans (BitVec.lt_def.mp hlt).le, hok.1, hok.2, h.covers⟩
  · rcases dispatch_cases hd with ⟨u, rfl, hstep⟩ | ⟨_, rfl⟩ | ⟨id, can, rfl, _, rfl⟩
    · have hdown := h.down.follows hstep.follows
      cases hstep with
      | refused => exact h
      | touched side e entry stored accrues book =>
        cases side with
        | supply => exact ⟨h.last, h.fits, hdown, h.covers⟩
        | debt => exact h.accrue hdown rfl rfl stored accrues book
      | posted side positive entry d =>
        have hexact : Exact cfg s u c := by
          cases c with
          | liquidate t payId getId x => cases entry
          | initPool id can => cases entry
          | _ => exact hok
        exact d.backs entry hexact h
      | assessed => exact hok.elim
      | halfway => exact hok.elim
      | settled => exact hok.elim
    · exact h
    · exact hok.elim
  · have hshares : ∀ a, debtShares s' a = debtShares s a := fun a => funext fun u => by
      rw [debtShares, debtShares, hl]
    refine ⟨?_, ?_, h.down.congr hl hblock, fun a pool hpool => ?_⟩
    · rw [hl, hblock]
      exact h.last
    · rw [hl, hblock]
      exact h.fits
    · rw [hl] at hpool
      rw [hshares]
      exact h.covers a pool hpool

/-! ## Runs -/

/-- **The debts of the users are covered by the debt of the pool.** In every state reached by actions that meet their
conditions, the debt views of all users sum to at most the accrued debt of the pool, so the subtraction of a repayment,
which is at most the caller's accrued debt, does not go below zero. -/
theorem debts_covered {t : Chain A} (h : Reached cfg (ExactStep cfg) t) (hpool : t.lending.pools a = some pool)
    (hq : accrueInterest .release t.blockNumber pool = some q) :
    (∀ v : A → Balance, (∀ u, getUserDebtWithInterest .release t a u = some (v u)) →
      ∑ u, (v u).toNat ≤ q.debt.toNat) ∧
    ∀ u owed m, valueAt .release q.totalDebtIndex (t.lending.debts.records (a, u)) = some owed → m ≤ owed →
      (updatePoolDebt .checked q m false).isSome := by
  have hbacks : Backs t := h.invariant (fun g s => genesis_backs) (fun s l s' => step_backs)
  refine ⟨fun v hv => hbacks.sum_le hpool hq fun u => ?_, fun u owed m howed hm => ?_⟩
  · have hview : view .release t a u .debt = some (v u) := hv u
    exact value_le_share (hbacks.below hpool hq u) (view_value hpool hq hview)
  · have hle := (BitVec.le_def.mp hm).trans (hbacks.owed_le hpool hq howed)
    unfold updatePoolDebt adjust
    rw [if_neg Bool.false_ne_true, sub_isSome_of_le hle]
    rfl

end Steps

theorem debtFits_of_no_debt (h : Tame pool) (hdebt : pool.debt = 0) : DebtFits n pool := by
  intro rate hrate
  refine ⟨h.noWrap .debt rate hrate, ?_⟩
  rw [hdebt, show (0 : Balance).toNat = 0 from rfl, grown_zero]
  exact Nat.two_pow_pos 128

/-- A loan of half the supply whose interest over a thousand blocks is a whole number of units, and a repayment. -/
theorem debts_covered_mock : ∃ t pool q, Reached mockConfig (ExactStep mockConfig) t ∧ t.lending.pools 0 = some pool ∧
    accrueInterest .release t.blockNumber pool = some q ∧
    ∀ v : Fin 4 → Balance, (∀ u, getUserDebtWithInterest .release t 0 u = some (v u)) →
      ∑ u, (v u).toNat ≤ q.debt.toNat := by
  obtain ⟨s₀, hs₀⟩ : ∃ s, genesis .release mockGenesis = some s := ⟨_, rfl⟩
  have hnew : ∀ a pool n, s₀.lending.pools a = some pool → DebtFits n pool := by
    intro a pool n hpool
    rw [(genesis_lending hs₀).2.2.2 a pool hpool]
    exact debtFits_of_no_debt (newPool_tame 0 a true) rfl
  have hdown := genesis_roundsDown hs₀ .debt
  obtain ⟨s₁, s₂, s₃, s₄, s₅, pool, q, h₁, hok₂, h₂, hok₃, h₃, hok₄, h₄, hok₅, h₅, hpool, hq⟩ :
      ∃ s₁ s₂ s₃ s₄ s₅ : Chain (Fin 4), ∃ pool q, step mockConfig .release s₀ (.advance 1) = some s₁ ∧
      ExactStep mockConfig s₁ (.call (.signed 1) (.lending (.supply 0 200000000000000000))) ∧
      step mockConfig .release s₁ (.call (.signed 1) (.lending (.supply 0 200000000000000000))) = some s₂ ∧
      ExactStep mockConfig s₂ (.call (.signed 1) (.lending (.borrow 0 100000000000000000))) ∧
      step mockConfig .release s₂ (.call (.signed 1) (.lending (.borrow 0 100000000000000000))) = some s₃ ∧
      ExactStep mockConfig s₃ (.advance 1001) ∧ step mockConfig .release s₃ (.advance 1001) = some s₄ ∧
      ExactStep mockConfig s₄ (.call (.signed 1) (.lending (.repay 0 1000))) ∧
      step mockConfig .release s₄ (.call (.signed 1) (.lending (.repay 0 1000))) = some s₅ ∧
      s₅.lending.pools 0 = some pool ∧ accrueInterest .release s₅.blockNumber pool = some q := by
    cases hs₀
    refine ⟨_, _, _, _, _, _, _, rfl, ?_, rfl, ?_, rfl, ?_, rfl, ?_, rfl, rfl, rfl⟩
    · rintro ⟨side, positive, a, x, pool, q, value, ⟨⟩, ⟨⟩, ⟨⟩, ⟨⟩, _⟩
      refine ⟨?_, fun h => by cases h⟩
      dsimp only
      rintro rate ⟨⟩
      decide
    · rintro ⟨side, positive, a, x, pool, q, value, ⟨⟩, ⟨⟩, ⟨⟩, ⟨⟩, _⟩
      refine ⟨?_, fun _ _ => by dsimp only; decide⟩
      dsimp only
      rintro rate ⟨⟩
      decide
    · refine ⟨fun a pool hpool => ?_, (hdown 1001).of_others [0] (fun b hb => ?_) (fun b v hb => ?_) ?_⟩
      · by_cases ha : a = 0
        · subst ha
          cases hpool
          rintro rate ⟨⟩
          decide +kernel
        · refine hnew a pool 1001 ?_
          rw [← hpool]
          exact ((Function.update_of_ne ha ..).trans (Function.update_of_ne ha ..)).symm
      · have hb := List.ne_of_not_mem_cons hb
        exact (Function.update_of_ne hb ..).trans (Function.update_of_ne hb ..)
      · have hb := List.ne_of_not_mem_cons hb
        exact Function.update_of_ne (fun e : (b, v) = (0, 1) => hb (Prod.mk.inj e).1) ..
      · intro b hb pool hpool
        have hb := List.mem_singleton.mp hb
        subst hb
        cases hpool
        refine ⟨indexBelow_of_fits ?_, ?_⟩
        · rintro rate ⟨⟩
          decide +kernel
        · rintro q ⟨⟩
          decide +kernel
    · rintro ⟨side, positive, a, x, pool, q, value, ⟨⟩, ⟨⟩, ⟨⟩, ⟨⟩, _⟩
      refine ⟨?_, fun _ h => by cases h⟩
      dsimp only
      rintro rate ⟨⟩
      decide
  have hreached : Reached mockConfig (ExactStep mockConfig) s₅ := ⟨mockGenesis, s₀, hs₀,
    ((((Run.refl.tail ⟨fun a pool => hnew a pool 1, hdown 1⟩ h₁).tail hok₂ h₂).tail hok₃ h₃).tail hok₄ h₄).tail hok₅ h₅⟩
  exact ⟨s₅, pool, q, hreached, hpool, hq, (debts_covered hreached hpool hq).1⟩

/-- User `1` borrows 10. Two accruals stored ten million blocks apart round the pool's debt down to 10 twice, while the
user, who was not touched, owes 11: the repayment takes the pool's debt below zero. -/
theorem repayment_underflows : ∃ s s' pool q pool', play mockConfig .release mockGenesis
      [.advance 1, .call (.signed 1) (.lending (.supply 0 100)), .call (.signed 1) (.lending (.borrow 0 10)),
        .advance 10000001, .call (.signed 1) (.lending (.supply 0 1)),
        .advance 20000001, .call (.signed 1) (.lending (.supply 0 1))] = some s ∧
    s.lending.pools 0 = some pool ∧ accrueInterest .release s.blockNumber pool = some q ∧
    (∃ v : Fin 4 → Balance, (∀ u, getUserDebtWithInterest .release s 0 u = some (v u)) ∧
      ¬ ∑ u, (v u).toNat ≤ q.debt.toNat) ∧
    dispatch mockConfig .release s (.signed 1) (.repay 0 20) = some (.ok (), s') ∧
    s'.lending.pools 0 = some pool' ∧ pool'.debt = 340282366920938463463374607431768211455#128 :=
  ⟨_, _, _, _, _, rfl, rfl, rfl, ⟨fun | 1 => 11 | _ => 0, by decide, by decide⟩, rfl, rfl, by decide⟩

end Konomi.Lending
