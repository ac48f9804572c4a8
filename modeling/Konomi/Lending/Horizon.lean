import Konomi.Lending.Ceiling
import Konomi.Lending.Lists

/-!
# For how long nothing panics

The pallet panics where a checked product or quotient does not fit: an index times its multiplier, the index of a pool
by the index of a record, a price by another. While the debt stays within the supply no index is above
`(1 + indexRate) ^ blockNumber` (`Lasting`), and that fits for `horizon` blocks, which are 190 years at six seconds a
block. In these, every pool can be accrued and every view is defined (`Live`), and every call returns, a liquidation if
the two prices can be divided by each other (`calls_return`).
-/

namespace Konomi.Lending
open Machine Compound

variable {A : Type} [DecidableEq A] {cfg : Config A} {s s' t : Chain A} {u v : A} {a b : AssetId} {side : Side}
  {pool q : Pool} {now : BlockNumber} {I rate : FixedU128} {call : Call A} {m n : Nat}

/-- A number of blocks. -/
def horizon : Nat := 1000000000

theorem ceiling_fits (hn : n ≤ horizon) : (accuracy : ℚ) * (1 + indexRate) ^ n < 2 ^ 128 := by
  have hR : indexRate ≤ 1 := by
    unfold indexRate maxRate halfUnit
    norm_num
  -- four million blocks at the highest rate cost less than 20.4 percent
  have hcovers : 1 - (4000000 : Nat) * indexRate = 830599999998 / 1000000000000 := by
    unfold indexRate maxRate halfUnit
    norm_num
  have hpow : (1 + indexRate) ^ n ≤ (1204 / 1000 : ℚ) ^ 250 := by
    calc (1 + indexRate) ^ n ≤ (1 + indexRate) ^ (4000000 * 250) :=
          pow_le_pow_right₀ (by linarith [indexRate_nonneg]) hn
      _ ≤ (1204 / 1000 : ℚ) ^ 250 := by
        apply pow_le_pow_of_covers indexRate_nonneg hR
        · rw [hcovers]
          norm_num
        · rw [hcovers]
          norm_num
  calc (accuracy : ℚ) * (1 + indexRate) ^ n ≤ accuracy * (1204 / 1000 : ℚ) ^ 250 :=
        mul_le_mul_of_nonneg_left hpow (Nat.cast_nonneg _)
    _ < 2 ^ 128 := by
      unfold accuracy
      norm_num

/-! ## Accruals -/

theorem multiplier_isSome (now last : BlockNumber) (hrate : rate.toNat ≤ accuracy) :
    (multiplier .release now last rate).isSome := by
  obtain ⟨time, htime⟩ : ∃ time, (Fixed.saturatingFromInteger .release (now - last) : Option FixedU128) = some time :=
    ⟨_, congrArg _ (if_pos (Or.inr rfl))⟩
  have hvalue : time.toNat = (now - last).toNat * accuracy := Fixed.toNat_fromInteger (by decide) htime
  have hfits : rounded 128 (rate.toNat * time.toNat) accuracy < 2 ^ 128 := by
    rw [hvalue, ← Nat.mul_assoc, rounded_mul_right 128 _ accuracy_pos]
    calc rate.toNat * (now - last).toNat ≤ accuracy * 2 ^ 32 := Nat.mul_le_mul hrate (now - last).isLt.le
      _ < 2 ^ 128 := by decide
  obtain ⟨interest, hinterest⟩ : ∃ interest, rate.mul time = some interest := by
    rw [Fixed.mul_eq, fit, if_pos hfits]
    exact ⟨_, rfl⟩
  obtain ⟨factor, hfactor⟩ : ∃ factor, Fixed.one.add .release interest = some factor :=
    ⟨_, congrArg (Option.map Fixed.mk) add_release⟩
  exact Option.isSome_iff_exists.mpr ⟨factor, Option.bind_eq_some_iff.mpr ⟨_, sub_release, Option.bind_eq_some_iff.mpr
    ⟨time, htime, Option.bind_eq_some_iff.mpr ⟨interest, hinterest, hfactor⟩⟩⟩⟩

theorem indexNow_isSome (hs : Standard pool) (h : Tame pool) (hlast : pool.lastUpdated.toNat ≤ now.toNat)
    (hone : accuracy ≤ (pool.index side).toNat)
    (hfits : ((pool.index side).toNat : ℚ) * (1 + indexRate) ^ (now.toNat - pool.lastUpdated.toNat) < 2 ^ 128) :
    (indexNow .release now pool side).isSome := by
  obtain ⟨rate, hrate⟩ := Option.isSome_iff_exists.mp (h.rate_isSome side)
  obtain ⟨factor, hfactor⟩ := Option.isSome_iff_exists.mp
    (multiplier_isSome now pool.lastUpdated (h.rate hrate).2)
  have hvalue : rounded 128 ((pool.index side).toNat * factor.toNat) accuracy < 2 ^ 128 := by
    have hle := (multiplied_compounds (hs.rate_le h hrate) hlast hone).index_le
    rw [toNat_multiplier_of_fits hlast (h.noWrap side rate hrate) hfactor]
    exact_mod_cast hle.trans_lt hfits
  rw [indexNow_bind, hrate, Option.bind_eq_bind, Option.bind_some, hfactor, Option.bind_some, Fixed.mul_eq, fit,
    if_pos hvalue]
  rfl

theorem accrueInterest_isSome (h : ∀ side, (indexNow .release now pool side).isSome) :
    ∃ q, accrueInterest .release now pool = some q := by
  by_cases hnow : pool.lastUpdated = now
  · exact ⟨pool, accrueInterest_self hnow⟩
  · have hparts : ∀ side, ∃ rate factor I, rateInternal .release pool side = some rate ∧
        multiplier .release now pool.lastUpdated rate = some factor ∧ (pool.index side).mul factor = some I := by
      intro side
      obtain ⟨I, hI⟩ := Option.isSome_iff_exists.mp (h side)
      rw [indexNow_bind] at hI
      obtain ⟨rate, hrate, hI⟩ := Option.bind_eq_some_iff.mp hI
      obtain ⟨factor, hfactor, hI⟩ := Option.bind_eq_some_iff.mp hI
      exact ⟨rate, factor, I, hrate, hfactor, hI⟩
    choose rate factor I hrate hfactor hI using hparts
    refine ⟨{ pool with
      supply := worth (factor .supply) pool.supply
      totalSupplyIndex := I .supply
      debt := worth (factor .debt) pool.debt
      totalDebtIndex := I .debt
      lastUpdated := now }, Accrual.accrueInterest_eq hnow ⟨rate, factor, hrate, hfactor, ?_, ?_, rfl⟩⟩
    · intro side
      cases side <;> exact mulInt_release ..
    · intro side
      cases side <;> exact hI _

/-! ## What returns -/

/-- What the views and the calls need of a state. -/
structure Live (s : Chain A) : Prop where
  indexes : ∀ a pool, s.lending.pools a = some pool → ∀ side, (indexNow .release s.blockNumber pool side).isSome
  one_le : ∀ a pool q, AccruesTo s a pool q → ∀ side, accuracy ≤ (q.index side).toNat
  records : ∀ side a u user, (s.lending.book side).records (a, u) = some user → accuracy ≤ user.index.toNat
  pooled : Pooled s
  standard : ∀ a pool, s.lending.pools a = some pool → Standard pool

omit [DecidableEq A] in
theorem Live.accrues (h : Live s) (hpool : s.lending.pools a = some pool) : ∃ q, AccruesTo s a pool q := by
  obtain ⟨q, hq⟩ := accrueInterest_isSome (h.indexes a pool hpool)
  exact ⟨q, hpool, hq⟩

theorem div_returns {x y : FixedU128} (hy : y.toNat ≠ 0) (hfits : rounded 128 (x.toNat * accuracy) y.toNat < 2 ^ 128) :
    ∃ z, x.div y = some z ∧ z.toNat = rounded 128 (x.toNat * accuracy) y.toNat := by
  have hdiv : x.div y = some ⟨BitVec.ofNat 128 (rounded 128 (x.toNat * accuracy) y.toNat)⟩ := by
    rw [Fixed.div_eq hy, fit, if_pos hfits]
    rfl
  exact ⟨_, hdiv, (Fixed.toNat_div hdiv).2⟩

theorem accrued_isSome {user : Position} (hone : accuracy ≤ user.index.toNat) (I : FixedU128) :
    ∃ w, user.accrued .release I = some w := by
  have hpos : 0 < user.index.toNat := accuracy_pos.trans_le hone
  have hfits : rounded 128 (I.toNat * accuracy) user.index.toNat < 2 ^ 128 := by
    apply lt_of_le_of_lt _ I.toNat_lt
    apply rounded_le_of_le hpos
    rw [Nat.mul_comm]
    exact Nat.mul_le_mul_right _ hone
  obtain ⟨ratio, hdiv, _⟩ := div_returns hpos.ne' hfits
  exact ⟨_, Option.bind_eq_some_iff.mpr ⟨_, hdiv, mulInt_release _ _⟩⟩

omit [DecidableEq A] in
theorem Live.value (h : Live s) (I : FixedU128) (side : Side) (a : AssetId) (u : A) :
    ∃ w, valueAt .release I ((s.lending.book side).records (a, u)) = some w := by
  cases hr : (s.lending.book side).records (a, u) with
  | none => exact ⟨0, rfl⟩
  | some user => exact accrued_isSome (h.records side a u user hr) I

omit [DecidableEq A] in
theorem Live.view (h : Live s) (a : AssetId) (u : A) (side : Side) : ∃ w, view .release s a u side = some w := by
  rw [view_eq]
  cases hpool : s.lending.pools a with
  | none => exact ⟨0, rfl⟩
  | some pool =>
    obtain ⟨I, hI⟩ := Option.isSome_iff_exists.mp (h.indexes a pool hpool side)
    obtain ⟨w, hw⟩ := h.value I side a u
    exact ⟨w, Option.bind_eq_some_iff.mpr ⟨I, hI, hw⟩⟩

omit [DecidableEq A] in
/-- The factors of a standard pool are at most one, and its discount is not below three quarters. -/
theorem Standard.factors_le (h : Standard pool) :
    pool.safeFactor.toNat ≤ accuracy ∧ pool.discountFactor.toNat ≤ accuracy ∧
      3 * accuracy ≤ 4 * pool.discountFactor.toNat := by
  rw [h.safeFactor, h.discountFactor]
  decide

omit [DecidableEq A] in
theorem Live.info (h : Live s) (u : A) : ∃ info, getUserInfo .release s u = some info := by
  apply getUserInfo_returns
  intro side a ha
  obtain ⟨w, hw⟩ := h.view a u side
  obtain ⟨pool, hpool⟩ := Option.isSome_iff_exists.mp (h.pooled side u a ha)
  cases side with
  | debt => exact ⟨w, _, hw, rfl⟩
  | supply =>
    obtain ⟨r, hr⟩ := Option.isSome_iff_exists.mp
      (Fixed.mul_isSome (x := s.assets.getRate a) (h.standard a pool hpool).factors_le.1)
    exact ⟨w, r, hw, Option.bind_eq_some_iff.mpr ⟨pool, hpool, hr⟩⟩

theorem Live.touched (h : Live s) (hblock : s'.blockNumber = s.blockNumber) (hpools : s'.lending.pools = s.lending.pools)
    (ht : ∀ side, Touched .release s s' side) : Live s' := by
  refine ⟨?_, ?_, fun side a u user hr => ?_, fun side u a ha => ?_, ?_⟩
  · rw [hpools, hblock]
    exact h.indexes
  · rintro a pool q ⟨hpool, hq⟩
    rw [hpools] at hpool
    rw [hblock] at hq
    exact h.one_le a pool q ⟨hpool, hq⟩
  · rcases ht side with hsame | ⟨b, v, pool, q, hpool, hq, hbook⟩
    · exact h.records side a u user (hsame ▸ hr)
    · by_cases hk : (a, u) = (b, v)
      · obtain ⟨rfl, rfl⟩ := Prod.mk.inj hk
        rw [(Book.accrue_record hbook hr).2.1]
        exact h.one_le a pool q ⟨hpool, hq⟩ side
      · rw [Book.accrue_records_of_ne hbook hk] at hr
        exact h.records side a u user hr
  · rw [hpools]
    rw [assets_of_touched (ht side)] at ha
    exact h.pooled side u a ha
  · rw [hpools]
    exact h.standard

/-! ## Calls -/

theorem transfer_returns (st : Assets A) (u v : A) (a : AssetId) (x : Balance) :
    ∃ r, st.transfer .release u a v x = some r := by
  by_cases hc : st.Covered u a x
  · obtain ⟨st', h⟩ := Assets.transfer_of_covered (b := v) hc
    exact ⟨_, h⟩
  · obtain ⟨e, h⟩ := Assets.transfer_of_not_covered (p := .release) (b := v) hc
    exact ⟨_, h⟩

theorem adjust_returns (positive : Bool) (x y : Balance) : ∃ z, adjust .release positive x y = some z := by
  cases positive <;> simp [adjust]

theorem Live.accrue_returns (h : Live s) (I : FixedU128) (side : Side) (a : AssetId) (u : A) :
    ∃ bk, (s.lending.book side).accrue .release I a u = some bk := by
  unfold Book.accrue
  cases hr : (s.lending.book side).records (a, u) with
  | none => exact ⟨_, rfl⟩
  | some user =>
    obtain ⟨w, hw⟩ := accrued_isSome (h.records side a u user hr) I
    simp [hw]

theorem Live.update_returns (h : Live s) (I : FixedU128) (side : Side) (a : AssetId) (u : A) (x : Balance)
    (positive : Bool) : ∃ bk, (s.lending.book side).update .release I a u x positive = some bk := by
  unfold Book.update
  cases hr : (s.lending.book side).records (a, u) with
  | none =>
    dsimp only
    split <;> exact ⟨_, rfl⟩
  | some user =>
    obtain ⟨w, hw⟩ := accrued_isSome (h.records side a u user hr) I
    obtain ⟨z, hz⟩ := adjust_returns positive w x
    simp only [hw, hz, Option.bind_eq_bind, Option.bind_some]
    split <;> exact ⟨_, rfl⟩

theorem supply_returns (h : Live s) (a : AssetId) (x : Balance) : ∃ o, supply cfg .release s u a x = some o := by
  unfold supply
  cases hpool : s.lending.pools a with
  | none => exact ⟨_, rfl⟩
  | some pool =>
    obtain ⟨q, hacc⟩ := h.accrues hpool
    obtain ⟨r, hr⟩ := transfer_returns s.assets u cfg.accountId a x
    simp only [hacc.accrues, hr, Option.bind_eq_bind, Option.bind_some]
    cases r with
    | error e => exact ⟨_, rfl⟩
    | ok st =>
      obtain ⟨bk, hbk⟩ := h.update_returns q.totalSupplyIndex .supply a u x true
      obtain ⟨z, hz⟩ := adjust_returns true q.supply x
      change s.lending.supplies.update .release q.totalSupplyIndex a u x true = some bk at hbk
      simp [updateUserSupply, updatePoolSupply, hbk, hz]

theorem repay_returns (h : Live s) (a : AssetId) (x : Balance) : ∃ o, repay cfg .release s u a x = some o := by
  unfold repay
  cases hpool : s.lending.pools a with
  | none => exact ⟨_, rfl⟩
  | some pool =>
    obtain ⟨q, hacc⟩ := h.accrues hpool
    obtain ⟨touched, htouched⟩ := h.accrue_returns q.totalDebtIndex .debt a u
    have hlive : Live { s with lending := s.lending.setBook touched .debt } := h.touched rfl rfl
      (touched_setBook hacc.stored hacc.accrues htouched)
    change s.lending.debts.accrue .release q.totalDebtIndex a u = some touched at htouched
    simp only [hacc.accrues, accrueDebtWithInterest, htouched, Option.bind_eq_bind, Option.bind_some]
    cases hr : touched.records (a, u) with
    | none => exact ⟨_, rfl⟩
    | some userDebt =>
      dsimp only
      generalize (if userDebt.amount < x then userDebt.amount else x) = m
      obtain ⟨r, hr⟩ := transfer_returns s.assets u cfg.accountId a m
      simp only [hr, Option.bind_some]
      cases r with
      | error e => exact ⟨_, rfl⟩
      | ok st =>
        obtain ⟨bk, hbk⟩ := hlive.update_returns q.totalDebtIndex .debt a u m false
        obtain ⟨z, hz⟩ := adjust_returns false q.debt m
        change touched.update .release q.totalDebtIndex a u m false = some bk at hbk
        simp [updateUserDebt, updatePoolDebt, hbk, hz]

theorem withdraw_returns (h : Live s) (a : AssetId) (x : Balance) : ∃ o, withdraw cfg .release s u a x = some o := by
  unfold withdraw
  cases hpool : s.lending.pools a with
  | none => exact ⟨_, rfl⟩
  | some pool =>
    obtain ⟨q, hacc⟩ := h.accrues hpool
    obtain ⟨touched, htouched⟩ := h.accrue_returns q.totalSupplyIndex .supply a u
    have hlive : Live { s with lending := s.lending.setBook touched .supply } := h.touched rfl rfl
      (touched_setBook hacc.stored hacc.accrues htouched)
    change s.lending.supplies.accrue .release q.totalSupplyIndex a u = some touched at htouched
    simp only [hacc.accrues, accrueSupplyWithInterest, htouched, Option.bind_eq_bind, Option.bind_some]
    cases hr : touched.records (a, u) with
    | none => exact ⟨_, rfl⟩
    | some userSupply =>
      dsimp only
      generalize (if userSupply.amount < x then userSupply.amount else x) = m
      obtain ⟨info, hinfo⟩ := hlive.info u
      obtain ⟨factor, hfactor⟩ := Option.isSome_iff_exists.mp (Fixed.mul_isSome (x := s.assets.getRate a)
        ((h.standard a pool hpool).accrued hacc.accrues).factors_le.1)
      change getUserInfo .release { s with lending := { s.lending with supplies := touched } } u = some info at hinfo
      simp only [hinfo, hfactor, mulInt_release, sub_release, Option.bind_some]
      split
      · exact ⟨_, rfl⟩
      split
      · exact ⟨_, rfl⟩
      obtain ⟨r, hr⟩ := transfer_returns s.assets cfg.accountId u a m
      simp only [hr, Option.bind_some]
      cases r with
      | error e => exact ⟨_, rfl⟩
      | ok st =>
        obtain ⟨bk, hbk⟩ := hlive.update_returns q.totalSupplyIndex .supply a u m false
        obtain ⟨z, hz⟩ := adjust_returns false q.supply m
        change touched.update .release q.totalSupplyIndex a u m false = some bk at hbk
        simp [updateUserSupply, updatePoolSupply, hbk, hz]

theorem borrow_returns (h : Live s) (a : AssetId) (x : Balance) : ∃ o, borrow cfg .release s u a x = some o := by
  unfold borrow
  cases hpool : s.lending.pools a with
  | none => exact ⟨_, rfl⟩
  | some pool =>
    obtain ⟨q, hacc⟩ := h.accrues hpool
    obtain ⟨touched, htouched⟩ := h.accrue_returns q.totalDebtIndex .debt a u
    have hlive : Live { s with lending := s.lending.setBook touched .debt } := h.touched rfl rfl
      (touched_setBook hacc.stored hacc.accrues htouched)
    obtain ⟨info, hinfo⟩ := hlive.info u
    change s.lending.debts.accrue .release q.totalDebtIndex a u = some touched at htouched
    change getUserInfo .release { s with lending := { s.lending with debts := touched } } u = some info at hinfo
    simp only [hacc.accrues, accrueDebtWithInterest, htouched, hinfo, mulInt_release, add_release, sub_release,
      Option.bind_eq_bind, Option.bind_some]
    split
    · exact ⟨_, rfl⟩
    split
    · exact ⟨_, rfl⟩
    obtain ⟨r, hr⟩ := transfer_returns s.assets cfg.accountId u a x
    simp only [hr, Option.bind_some]
    cases r with
    | error e => exact ⟨_, rfl⟩
    | ok st =>
      obtain ⟨bk, hbk⟩ := hlive.update_returns q.totalDebtIndex .debt a u x true
      obtain ⟨z, hz⟩ := adjust_returns true q.debt x
      change touched.update .release q.totalDebtIndex a u x true = some bk at hbk
      simp [updateUserDebt, updatePoolDebt, hbk, hz]

/-! ### Liquidations -/

/-- The quotient of two prices fits, with a factor of two to spare. -/
def Comparable (x y : FixedU128) : Prop := x.toNat * (2 * accuracy) < 2 ^ 128 * y.toNat

theorem Comparable.div {x y d : FixedU128} (h : Comparable x y) (hd : 3 * accuracy ≤ 4 * d.toNat) :
    ∃ ratio factor, x.div y = some ratio ∧ ratio.div d = some factor := by
  have hy : 0 < y.toNat := by
    apply Nat.pos_of_ne_zero
    intro hzero
    unfold Comparable at h
    rw [hzero, Nat.mul_zero] at h
    exact Nat.not_lt_zero _ h
  have hdpos : 0 < d.toNat := by
    have := accuracy_pos
    omega
  have hratio : rounded 128 (x.toNat * accuracy) y.toNat ≤ 2 ^ 127 := by
    apply rounded_le_of_le hy
    refine Nat.le_of_mul_le_mul_left (?_ : 2 * _ ≤ 2 * _) two_pos
    calc 2 * (x.toNat * accuracy) = x.toNat * (2 * accuracy) := Nat.mul_left_comm ..
      _ ≤ 2 ^ 128 * y.toNat := h.le
      _ = 2 * (y.toNat * 2 ^ 127) := by ring
  obtain ⟨ratio, hdiv, hvalue⟩ := div_returns hy.ne' (hratio.trans_lt (by norm_num))
  have hfits : rounded 128 (ratio.toNat * accuracy) d.toNat < 2 ^ 128 := by
    rw [← hvalue] at hratio
    have hword : 2 ^ 128 - 1 < 2 ^ 128 := by norm_num
    refine lt_of_le_of_lt (rounded_le_of_le hdpos ?_) hword
    refine Nat.le_of_mul_le_mul_left (?_ : 3 * _ ≤ 3 * _) three_pos
    calc 3 * (ratio.toNat * accuracy) = ratio.toNat * (3 * accuracy) := Nat.mul_left_comm ..
      _ ≤ 2 ^ 127 * (4 * d.toNat) := Nat.mul_le_mul hratio hd
      _ = d.toNat * (4 * 2 ^ 127) := by ring
      _ ≤ d.toNat * (3 * (2 ^ 128 - 1)) := Nat.mul_le_mul_left _ (by norm_num)
      _ = 3 * (d.toNat * (2 ^ 128 - 1)) := Nat.mul_left_comm ..
  obtain ⟨factor, hfactor, _⟩ := div_returns hdpos.ne' hfits
  exact ⟨ratio, factor, hdiv, hfactor⟩

theorem payLimit_returns {x y : FixedU128} (h : Comparable x y) (hd : pool.discountFactor.toNat ≤ accuracy)
    (supplied : Balance) : ∃ limit, payLimit .release pool x y supplied = some limit := by
  obtain ⟨ratio, _, hratio, _⟩ := h.div (d := Fixed.one) (by rw [Fixed.toNat_one accuracy_lt]; omega)
  obtain ⟨factor, hfactor⟩ := Option.isSome_iff_exists.mp (Fixed.mul_isSome (x := ratio) hd)
  unfold payLimit
  simp [mulInt_release, hratio, hfactor]

theorem paidAndSeized_returns {x y : FixedU128} (h : Comparable x y) (hd : 3 * accuracy ≤ 4 * pool.discountFactor.toNat)
    (limit owed amount : Balance) : ∃ amounts, paidAndSeized .release pool y x limit owed amount = some amounts := by
  obtain ⟨ratio, factor, hratio, hfactor⟩ := h.div hd
  unfold paidAndSeized
  simp [mulInt_release, hratio, hfactor]

theorem seizure_returns {payId getId : AssetId} (h : Live s)
    (hpay : Comparable (s.assets.getRate payId) (s.assets.getRate getId))
    (hget : Comparable (s.assets.getRate getId) (s.assets.getRate payId)) (x : Balance) :
    ∃ o, seizure .release s u payId getId x = some o := by
  unfold seizure
  cases hgetPool : s.lending.pools getId with
  | none => exact ⟨_, rfl⟩
  | some getPool =>
    dsimp only
    split
    · exact ⟨_, rfl⟩
    rename_i hcollateral
    cases hpayPool : s.lending.pools payId with
    | none => exact ⟨_, rfl⟩
    | some payPool =>
      obtain ⟨payAccrued, hpayAcc⟩ := h.accrues hpayPool
      obtain ⟨getAccrued, hgetAcc⟩ := h.accrues hgetPool
      obtain ⟨supplies, hsupplies⟩ := h.accrue_returns getAccrued.totalSupplyIndex .supply getId u
      obtain ⟨debts, hdebts⟩ := h.accrue_returns payAccrued.totalDebtIndex .debt payId u
      change s.lending.supplies.accrue .release getAccrued.totalSupplyIndex getId u = some supplies at hsupplies
      change s.lending.debts.accrue .release payAccrued.totalDebtIndex payId u = some debts at hdebts
      let d : Assessment .release s u payId getId :=
        ⟨payPool, getPool, payAccrued, getAccrued, supplies, debts, hpayPool, hgetPool, by simpa using hcollateral,
          hpayAcc.accrues, hgetAcc.accrues, hsupplies, hdebts⟩
      have hlive : Live { s with lending := d.lending } := h.touched rfl rfl (d.touched rfl)
      obtain ⟨info, hinfo⟩ := hlive.info u
      change getUserInfo .release
        { s with lending := { s.lending with supplies := supplies, debts := debts } } u = some info at hinfo
      simp only [hpayAcc.accrues, hgetAcc.accrues, accrueSupplyWithInterest, accrueDebtWithInterest, hsupplies, hdebts,
        hinfo, mulInt_release, Option.bind_eq_bind, Option.bind_some]
      split
      · exact ⟨_, rfl⟩
      cases hsupplied : supplies.records (getId, u) with
      | none => exact ⟨_, rfl⟩
      | some targetUserSupply =>
        have hfactors := ((h.standard getId getPool hgetPool).accrued hgetAcc.accrues).factors_le
        obtain ⟨limit, hlimit⟩ := payLimit_returns hget hfactors.2.1 targetUserSupply.amount
        simp only [hlimit, Option.bind_some]
        cases howed : debts.records (payId, u) with
        | none => exact ⟨_, rfl⟩
        | some targetUserDebt =>
          obtain ⟨amounts, hamounts⟩ := paidAndSeized_returns hpay hfactors.2.2 limit targetUserDebt.amount x
          simp [hamounts]

/-- A liquidation returns if the two prices can be divided by each other. -/
theorem liquidate_returns {payId getId : AssetId} (h : Live s)
    (hpay : Comparable (s.assets.getRate payId) (s.assets.getRate getId))
    (hget : Comparable (s.assets.getRate getId) (s.assets.getRate payId)) (x : Balance) :
    ∃ o, liquidate cfg .release s u v payId getId x = some o := by
  obtain ⟨o, ho⟩ := seizure_returns (u := v) h hpay hget x
  unfold liquidate
  rw [ho]
  rcases seizure_cases ho with ⟨e, rfl, _⟩ | ⟨e, d, rfl, _⟩ | ⟨d, rfl⟩
  · exact ⟨_, rfl⟩
  · exact ⟨_, rfl⟩
  · obtain ⟨r, hr⟩ := transfer_returns s.assets u cfg.accountId payId d.paid
    have hlive : Live { s with lending := d.lending } := h.touched rfl rfl (d.touched rfl)
    simp only [Terms.seizure, hr, Option.bind_eq_bind, Option.bind_some]
    cases r with
    | error e => exact ⟨_, rfl⟩
    | ok st =>
      obtain ⟨r', hr'⟩ := transfer_returns st cfg.accountId u getId d.seized
      simp only [hr', Option.bind_some]
      cases r' with
      | error e => exact ⟨_, rfl⟩
      | ok st' =>
        obtain ⟨supplies, hsupplies⟩ := hlive.update_returns d.getAccrued.totalSupplyIndex .supply getId v d.seized false
        obtain ⟨debts, hdebts⟩ := hlive.update_returns d.payAccrued.totalDebtIndex .debt payId v d.paid false
        change d.lending.supplies.update .release d.getAccrued.totalSupplyIndex getId v d.seized false = _ at hsupplies
        change d.lending.debts.update .release d.payAccrued.totalDebtIndex payId v d.paid false = _ at hdebts
        simp [updateUserSupply, updateUserDebt, hsupplies, hdebts]

/-! ## Runs -/

/-- What holds of every state of a run in which the debt stays within the supply. -/
structure Lasting (s : Chain A) : Prop where
  paying : Paying s
  pooled : Pooled s
  ceiling : ∀ a pool, s.lending.pools a = some pool → ∀ side,
    Compounds indexRate 0 pool.lastUpdated.toNat (accuracy : ℚ) (pool.index side).toNat

omit [DecidableEq A] in
theorem Lasting.live (h : Lasting s) (hblock : s.blockNumber.toNat ≤ horizon) : Live s := by
  refine ⟨fun a pool hpool side => ?_, fun a pool q hacc side => ?_,
    fun side a u user hr => (h.paying.paced.records side a u user hr).1, h.pooled, h.paying.standard⟩
  · have hsound := h.paying.sound a pool hpool
    have hlast := hsound.last
    have hle := (h.ceiling a pool hpool side).index_le
    have hpow : 0 ≤ (1 + indexRate) ^ (s.blockNumber.toNat - pool.lastUpdated.toNat) :=
      pow_nonneg (by linarith [indexRate_nonneg]) _
    apply indexNow_isSome (h.paying.standard a pool hpool) hsound.tame hlast (h.paying.paced.pools a pool hpool side)
    calc _ ≤ accuracy * (1 + indexRate) ^ (pool.lastUpdated.toNat - 0) *
            (1 + indexRate) ^ (s.blockNumber.toNat - pool.lastUpdated.toNat) := mul_le_mul_of_nonneg_right hle hpow
      _ = accuracy * (1 + indexRate) ^ s.blockNumber.toNat := by
        rw [mul_assoc, ← pow_add]
        congr 2
        omega
      _ < 2 ^ 128 := ceiling_fits hblock
  · exact h.paying.paced.one_le hacc (h.paying.sound a pool hacc.stored).tame.noWrap side

theorem newPool_ceiling (now : BlockNumber) (id : AssetId) (c : Bool) (side : Side) :
    Compounds indexRate 0 (newPool now id c).lastUpdated.toNat (accuracy : ℚ) ((newPool now id c).index side).toNat := by
  rw [newPool_index]
  exact (Compounds.refl indexRate 0 _).later indexRate_nonneg (Nat.zero_le _) (Nat.cast_nonneg _)

theorem step_lasting {l : Action A} (h : Lasting s) (hok : PayingStep cfg s l) (hs : step cfg .release s l = some s') :
    Lasting s' := by
  obtain ⟨hpaying, _⟩ := step_paying h.paying hok hs
  have hpooled : Pooled s' := step_pooled h.pooled hs
  rcases step_storage hs with ⟨n, rfl, _, rfl⟩ | ⟨u, call, r, rfl, hcall⟩ | ⟨origin, id, c, rfl, rfl⟩ | ⟨hl, _⟩
  · exact ⟨hpaying, hpooled, h.ceiling⟩
  · refine ⟨hpaying, hpooled, fun b pool' hpool' side => ?_⟩
    rcases hcall.follows.stored hpool' with hold | ⟨pool, q, _, hacc, hlast, hindex⟩
    · exact h.ceiling b pool' hold side
    · have hsound := h.paying.sound b pool hacc.stored
      have hgrown := accrued_compounds (h.paying.standard b pool hacc.stored) hsound.tame hsound.last
        (h.paying.paced.pools b pool hacc.stored side) hacc.accrues
      rw [hindex, hlast]
      exact (h.ceiling b pool hacc.stored side).trans indexRate_nonneg hgrown
  · refine ⟨hpaying, hpooled, fun b pool hpool side => ?_⟩
    rcases stored_cases hpool with ⟨_, hmade⟩ | ⟨_, hold⟩
    · cases hmade
      exact newPool_ceiling ..
    · exact h.ceiling b pool hold side
  · refine ⟨hpaying, hpooled, fun b pool hpool side => ?_⟩
    rw [hl] at hpool
    exact h.ceiling b pool hpool side

theorem genesis_lasting {g : Genesis A} (h : genesis .release g = some s) : Lasting s := by
  refine ⟨genesis_paying h, genesis_pooled h, fun a pool hpool side => ?_⟩
  rw [(genesis_lending h).2.2.2 a pool hpool]
  exact newPool_ceiling ..

theorem reached_lasting (h : Reached cfg (PayingStep cfg) s) : Lasting s :=
  h.invariant (fun _ _ => genesis_lasting) (fun _ _ _ => step_lasting)

/-- What a liquidation needs of the prices; no other call needs anything. -/
def Call.Priced (s : Chain A) : Call A → Prop
  | .liquidate _ payId getId _ => Comparable (s.assets.getRate payId) (s.assets.getRate getId) ∧
      Comparable (s.assets.getRate getId) (s.assets.getRate payId)
  | _ => True

theorem dispatch_returns (h : Live s) (origin : Origin A) (hprices : call.Priced s) :
    ∃ o, dispatch cfg .release s origin call = some o := by
  cases origin with
  | signed u =>
    cases call with
    | supply a x => exact supply_returns h a x
    | withdraw a x => exact withdraw_returns h a x
    | borrow a x => exact borrow_returns h a x
    | repay a x => exact repay_returns h a x
    | liquidate target payId getId x => exact liquidate_returns h hprices.1 hprices.2 x
    | initPool id c => exact ⟨_, rfl⟩
  | root => cases call <;> exact ⟨_, rfl⟩
  | none => cases call <;> exact ⟨_, rfl⟩

/-- **Nothing panics up to the horizon.** In every state reached without a pool made anew, in which the debt has stayed
within the supply, up to a block number of 10^9: every call of the pallet returns, a liquidation at prices that can be
divided by each other, every pool can be accrued, and every view is defined. -/
theorem calls_return (h : Reached cfg (PayingStep cfg) s) (hblock : s.blockNumber.toNat ≤ horizon) :
    (∀ origin call, call.Priced s → ∃ r s', dispatch cfg .release s origin call = some (r, s')) ∧
    (∀ a pool, s.lending.pools a = some pool → ∃ q, accrueInterest .release s.blockNumber pool = some q) ∧
    (∀ u, ∃ info, getUserInfo .release s u = some info) ∧
    ∀ a u, (∃ w, getUserSupplyWithInterest .release s a u = some w) ∧
      ∃ w, getUserDebtWithInterest .release s a u = some w := by
  have hlive := (reached_lasting h).live hblock
  refine ⟨fun origin call hprices => ?_, fun a pool hpool => ?_, hlive.info,
    fun a u => ⟨hlive.view a u .supply, hlive.view a u .debt⟩⟩
  · obtain ⟨⟨r, s'⟩, ho⟩ := dispatch_returns hlive origin hprices
    exact ⟨r, s', ho⟩
  · obtain ⟨q, hacc⟩ := hlive.accrues hpool
    exact ⟨q, hacc.accrues⟩

/-- A million blocks after a loan, its liquidation returns. -/
theorem calls_return_mock : ∃ s r s', Reached mockConfig (PayingStep mockConfig) s ∧ s.blockNumber.toNat = 1000001 ∧
    dispatch mockConfig .release s (.signed 2) (.liquidate 1 0 0 10000) = some (r, s') := by
  obtain ⟨s, t, pool, ⟨g, s₀, hs₀, hrun₀⟩, hrun, hone, _, _, _, _, hblock, _, hprice⟩ := lent_run
  have ht : Reached mockConfig (PayingStep mockConfig) t := ⟨g, s₀, hs₀, hrun₀.trans hrun⟩
  have hnumber : t.blockNumber.toNat = 1000001 := by rw [hblock, hone]
  have hcomparable : Comparable (t.assets.getRate 0) (t.assets.getRate 0) := by
    unfold Comparable
    rw [Nat.mul_comm]
    exact Nat.mul_lt_mul_of_pos_right (by decide) hprice
  have hbefore : t.blockNumber.toNat ≤ horizon := by
    rw [hnumber]
    decide
  obtain ⟨r, t', hr⟩ := (calls_return ht hbefore).1 (.signed 2) (.liquidate 1 0 0 10000) ⟨hcomparable, hcomparable⟩
  exact ⟨t, r, t', ht, hnumber, hr⟩

end Konomi.Lending
