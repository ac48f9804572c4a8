import Konomi.Lending.Steps

/-!
# Accrual of interest

`accrueInterest_cases` inverts `accrue_interest`: the pool is up to date and returned as it is, or both totals and both
indexes are multiplied (`Accrual`). The views recompute the index without the shortcut and agree with it
(`indexNow_eq`), also on a pool that has been committed at the current block.

Without a wrap the multiplier is `1 + rate * elapsed` exactly (`toNat_multiplier`), so a total grows to `grown`
(`Accrual.toNat_total`, `Accrual.total_of_strict`): its product with the multiplier is rounded once.
-/

namespace Konomi.Lending
open Machine

variable {p : Profile} {now n : BlockNumber} {pool q : Pool} {side : Side}

/-- `supply_rate_internal` and `debt_rate_internal`. -/
def rateInternal (p : Profile) (pool : Pool) : Side → Option FixedU128
  | .supply => supplyRateInternal p pool
  | .debt => debtRateInternal p pool

theorem mono_rateInternal (pool : Pool) (side : Side) : Mono (fun p => rateInternal p pool side) := by
  cases side with
  | supply => exact mono_supplyRateInternal pool
  | debt => exact mono_debtRateInternal pool

/-- The multipliers of an accrual, and what they make of the pool. -/
structure Accrual (p : Profile) (now : BlockNumber) (pool q : Pool) where
  rate : Side → FixedU128
  factor : Side → FixedU128
  rate_eq : ∀ side, rateInternal p pool side = some (rate side)
  factor_eq : ∀ side, multiplier p now pool.lastUpdated (rate side) = some (factor side)
  total_eq : ∀ side, (factor side).saturatingMulInt p (pool.total side) = some (q.total side)
  index_eq : ∀ side, (pool.index side).mul (factor side) = some (q.index side)
  frame : q = { pool with
    supply := q.supply, totalSupplyIndex := q.totalSupplyIndex, debt := q.debt, totalDebtIndex := q.totalDebtIndex,
    lastUpdated := now }

theorem accrueInterest_cases (h : accrueInterest p now pool = some q) :
    (pool.lastUpdated = now ∧ q = pool) ∨ (pool.lastUpdated ≠ now ∧ Nonempty (Accrual p now pool q)) := by
  unfold accrueInterest at h
  split at h
  · exact Or.inl ⟨‹_›, (Option.some.inj h).symm⟩
  · obtain ⟨sr, hsr, h⟩ := Option.bind_eq_some_iff.mp h
    obtain ⟨sm, hsm, h⟩ := Option.bind_eq_some_iff.mp h
    obtain ⟨dr, hdr, h⟩ := Option.bind_eq_some_iff.mp h
    obtain ⟨dm, hdm, h⟩ := Option.bind_eq_some_iff.mp h
    obtain ⟨supply, hsupply, h⟩ := Option.bind_eq_some_iff.mp h
    obtain ⟨si, hsi, h⟩ := Option.bind_eq_some_iff.mp h
    obtain ⟨debt, hdebt, h⟩ := Option.bind_eq_some_iff.mp h
    obtain ⟨di, hdi, h⟩ := Option.bind_eq_some_iff.mp h
    cases h
    refine Or.inr ⟨‹_›, ⟨fun | .supply => sr | .debt => dr, fun | .supply => sm | .debt => dm, ?_, ?_, ?_, ?_, rfl⟩⟩
    · rintro (_ | _)
      exacts [hsr, hdr]
    · rintro (_ | _)
      exacts [hsm, hdm]
    · rintro (_ | _)
      exacts [hsupply, hdebt]
    · rintro (_ | _)
      exacts [hsi, hdi]

theorem Accrual.accrueInterest_eq (hne : pool.lastUpdated ≠ now) (d : Accrual p now pool q) :
    accrueInterest p now pool = some q := by
  have hsr : supplyRateInternal p pool = some (d.rate .supply) := d.rate_eq .supply
  have hdr : debtRateInternal p pool = some (d.rate .debt) := d.rate_eq .debt
  have hs : (d.factor .supply).saturatingMulInt p pool.supply = some q.supply := d.total_eq .supply
  have hd : (d.factor .debt).saturatingMulInt p pool.debt = some q.debt := d.total_eq .debt
  have hsi : pool.totalSupplyIndex.mul (d.factor .supply) = some q.totalSupplyIndex := d.index_eq .supply
  have hdi : pool.totalDebtIndex.mul (d.factor .debt) = some q.totalDebtIndex := d.index_eq .debt
  unfold accrueInterest
  simp only [if_neg hne, hsr, hdr, d.factor_eq, hs, hd, hsi, hdi, Option.bind_eq_bind, Option.bind_some]
  exact congrArg some d.frame.symm

theorem accrueInterest_self (h : pool.lastUpdated = now) : accrueInterest p now pool = some pool := if_pos h

theorem accrueInterest_lastUpdated (h : accrueInterest p now pool = some q) : q.lastUpdated = now := by
  rcases accrueInterest_cases h with ⟨hlast, rfl⟩ | ⟨_, ⟨d⟩⟩
  · exact hlast
  · rw [d.frame]

theorem accrueInterest_frame (h : accrueInterest p now pool = some q) :
    q.utilizationFactor = pool.utilizationFactor ∧ q.initialInterestRate = pool.initialInterestRate ∧
      q.closeFactor = pool.closeFactor ∧ q.discountFactor = pool.discountFactor ∧ q.safeFactor = pool.safeFactor := by
  rcases accrueInterest_cases h with ⟨_, rfl⟩ | ⟨_, ⟨d⟩⟩
  · exact ⟨rfl, rfl, rfl, rfl, rfl⟩
  · rw [d.frame]
    exact ⟨rfl, rfl, rfl, rfl, rfl⟩

/-! ## The index of the views -/

theorem indexNow_bind (p : Profile) (now : BlockNumber) (pool : Pool) (side : Side) :
    indexNow p now pool side = rateInternal p pool side >>= fun rate =>
      multiplier p now pool.lastUpdated rate >>= fun factor => (pool.index side).mul factor := by
  cases side <;> rfl

theorem multiplier_self (rate : FixedU128) : multiplier p now now rate = some Fixed.one := by
  have helapsed : p.sub now now = some 0 := by
    rw [sub_isSome_of_le (le_refl _)]
    simp
  unfold multiplier
  simp only [helapsed, Fixed.fromInteger_zero, Option.bind_eq_bind, Option.bind_some]
  rw [Fixed.mul_zero rfl]
  exact Fixed.add_zero

/-- **The index that a view recomputes is the index of the accrued pool.** -/
theorem indexNow_eq {I : FixedU128} (h : accrueInterest p now pool = some q) (hI : indexNow p now pool side = some I) :
    I = q.index side := by
  rw [indexNow_bind] at hI
  obtain ⟨rate, hrate, hI⟩ := Option.bind_eq_some_iff.mp hI
  obtain ⟨factor, hfactor, hI⟩ := Option.bind_eq_some_iff.mp hI
  rcases accrueInterest_cases h with ⟨hlast, rfl⟩ | ⟨_, ⟨d⟩⟩
  · rw [hlast, multiplier_self] at hfactor
    cases hfactor
    rw [Fixed.mul_one accuracy_lt] at hI
    exact (Option.some.inj hI).symm
  · rw [d.rate_eq] at hrate
    cases hrate
    rw [d.factor_eq] at hfactor
    cases hfactor
    rw [d.index_eq] at hI
    exact (Option.some.inj hI).symm

/-! ## Exact values -/

theorem toNat_multiplier {last : BlockNumber} {rate factor : FixedU128} (hp : p.wraps = false)
    (h : multiplier p now last rate = some factor) :
    last.toNat ≤ now.toNat ∧ factor.toNat = accuracy + rate.toNat * (now.toNat - last.toNat) := by
  obtain ⟨elapsed, helapsed, h⟩ := Option.bind_eq_some_iff.mp h
  obtain ⟨time, htime, h⟩ := Option.bind_eq_some_iff.mp h
  obtain ⟨interest, hinterest, h⟩ := Option.bind_eq_some_iff.mp h
  have he := toNat_sub hp helapsed
  have ht : time.toNat = elapsed.toNat * accuracy := Fixed.toNat_fromInteger (by decide) htime
  have hi : interest.toNat = rate.toNat * elapsed.toNat := by
    rw [Fixed.toNat_mul hinterest, ht, ← Nat.mul_assoc]
    exact rounded_mul_right 128 _ accuracy_pos
  refine ⟨by omega, ?_⟩
  rw [Fixed.toNat_add hp h, hi, Fixed.toNat_one accuracy_lt]
  congr 2
  omega

/-- A multiplier that fits is exact, under every profile. -/
theorem toNat_multiplier_of_fits {p : Profile} {last : BlockNumber} {rate factor : FixedU128}
    (hlast : last.toNat ≤ now.toNat) (hfits : accuracy + rate.toNat * (now.toNat - last.toNat) < 2 ^ 128)
    (h : multiplier p now last rate = some factor) :
    factor.toNat = accuracy + rate.toNat * (now.toNat - last.toNat) := by
  obtain ⟨elapsed, helapsed, h⟩ := Option.bind_eq_some_iff.mp h
  obtain ⟨time, htime, h⟩ := Option.bind_eq_some_iff.mp h
  obtain ⟨interest, hinterest, h⟩ := Option.bind_eq_some_iff.mp h
  have he : elapsed.toNat = now.toNat - last.toNat := by
    rw [sub_eq helapsed, BitVec.toNat_sub_of_le (BitVec.le_def.mpr hlast)]
  have ht : time.toNat = elapsed.toNat * accuracy := Fixed.toNat_fromInteger (by decide) htime
  have hi : interest.toNat = rate.toNat * (now.toNat - last.toNat) := by
    rw [Fixed.toNat_mul hinterest, ht, ← Nat.mul_assoc, rounded_mul_right 128 _ accuracy_pos, he]
  obtain ⟨sum, hsum, rfl⟩ := Option.map_eq_some_iff.mp h
  have hone : (Fixed.one : FixedU128).inner.toNat = accuracy := Fixed.toNat_one accuracy_lt
  change interest.inner.toNat = _ at hi
  show sum.toNat = _
  rw [add_eq hsum, BitVec.toNat_add, hone, hi, Nat.mod_eq_of_lt hfits]

/-- What a total grows to over `blocks` at a rate, before it is clamped. -/
def grown (total rate blocks : Nat) : Nat := rounded 128 ((accuracy + rate * blocks) * total) accuracy

theorem grown_zero_blocks (total rate : Nat) : grown total rate 0 = total := by
  rw [grown, Nat.mul_zero, Nat.add_zero]
  exact rounded_mul 128 total accuracy_pos

theorem grown_zero (rate blocks : Nat) : grown 0 rate blocks = 0 := by
  rw [grown, Nat.mul_zero, rounded_zero]

theorem le_grown (total rate blocks : Nat) : total ≤ grown total rate blocks :=
  le_rounded_of_le accuracy_pos (Nat.mul_le_mul_right total (Nat.le_add_right accuracy _))

/-- The interest on a total over `blocks` at a rate, in whole units. -/
def interest (total rate blocks : Nat) : Nat :=
  total * rate * blocks / accuracy +
    -- past the word the grown total is rounded to the nearest
    if 2 ^ 128 ≤ (accuracy + rate * blocks) * total ∧ accuracy / 2 < total * rate * blocks % accuracy then 1 else 0

theorem interest_zero_blocks (total rate : Nat) : interest total rate 0 = 0 := by
  simp [interest]

theorem interest_zero (rate blocks : Nat) : interest 0 rate blocks = 0 := by
  simp [interest]

theorem interest_zero_rate (total blocks : Nat) : interest total 0 blocks = 0 := by
  simp [interest]

theorem interest_of_fits {total rate blocks : Nat} (h : (accuracy + rate * blocks) * total < 2 ^ 128) :
    interest total rate blocks = total * rate * blocks / accuracy := by
  rw [interest, if_neg fun hup => absurd hup.1 (Nat.not_le.mpr h), Nat.add_zero]

theorem interest_le_half (total rate blocks : Nat) :
    2 * (accuracy * interest total rate blocks) ≤ 2 * (total * rate * blocks) + accuracy := by
  have hsplit := Nat.div_add_mod (total * rate * blocks) accuracy
  unfold interest
  split
  · rw [Nat.mul_add, Nat.mul_one]
    omega
  · rw [Nat.add_zero]
    omega

theorem lt_interest (total rate blocks : Nat) :
    total * rate * blocks < accuracy * (interest total rate blocks + 1) := by
  refine (Nat.lt_mul_div_succ _ accuracy_pos).trans_le (Nat.mul_le_mul_left _ (Nat.succ_le_succ ?_))
  exact Nat.le_add_right _ _

theorem grown_eq_add (total rate blocks : Nat) : grown total rate blocks = total + interest total rate blocks := by
  have hsplit : (accuracy + rate * blocks) * total = total * rate * blocks + accuracy * total := by ring
  have hdiv : (accuracy + rate * blocks) * total / accuracy = total * rate * blocks / accuracy + total := by
    rw [hsplit, Nat.add_mul_div_left _ _ accuracy_pos]
  have hmod : (accuracy + rate * blocks) * total % accuracy = total * rate * blocks % accuracy := by
    rw [hsplit, Nat.add_mul_mod_self_left]
  have hlong : ¬ accuracy < 2 ^ 32 := by decide
  unfold grown rounded interest
  rw [hdiv, hmod]
  split_ifs <;> omega

namespace Accrual

theorem toNat_factor (d : Accrual p now pool q) (hp : p.wraps = false) (side : Side) :
    (d.factor side).toNat = accuracy + (d.rate side).toNat * (now.toNat - pool.lastUpdated.toNat) :=
  (toNat_multiplier hp (d.factor_eq side)).2

theorem toNat_index (d : Accrual p now pool q) (side : Side) :
    (q.index side).toNat = rounded 128 ((pool.index side).toNat * (d.factor side).toNat) accuracy :=
  Fixed.toNat_mul (d.index_eq side)

theorem toNat_total (d : Accrual p now pool q) (hp : p.wraps = false) (side : Side) :
    (q.total side).toNat = min (grown (pool.total side).toNat (d.rate side).toNat
      (now.toNat - pool.lastUpdated.toNat)) (2 ^ 128 - 1) := by
  rw [Fixed.toNat_mulInt (d.total_eq side), d.toNat_factor hp, grown]

theorem total_of_strict (d : Accrual .strict now pool q) (side : Side) :
    (q.total side).toNat =
      grown (pool.total side).toNat (d.rate side).toNat (now.toNat - pool.lastUpdated.toNat) := by
  rw [Fixed.toNat_mulInt_strict rfl (d.total_eq side), d.toNat_factor rfl, grown]

end Accrual

theorem accrued_totals (hne : pool.lastUpdated ≠ now) (h : accrueInterest .strict now pool = some q) :
    ∃ supplyRate debtRate, supplyRateInternal .strict pool = some supplyRate ∧
      debtRateInternal .strict pool = some debtRate ∧ pool.lastUpdated.toNat < now.toNat ∧
      q.supply.toNat = pool.supply.toNat +
        interest pool.supply.toNat supplyRate.toNat (now.toNat - pool.lastUpdated.toNat) ∧
      q.debt.toNat = pool.debt.toNat +
        interest pool.debt.toNat debtRate.toNat (now.toNat - pool.lastUpdated.toNat) := by
  rcases accrueInterest_cases h with ⟨heq, _⟩ | ⟨_, ⟨d⟩⟩
  · exact absurd heq hne
  · have hlt : pool.lastUpdated.toNat < now.toNat :=
      lt_of_le_of_ne (toNat_multiplier rfl (d.factor_eq .debt)).1 fun heq => hne (BitVec.eq_of_toNat_eq heq)
    refine ⟨_, _, d.rate_eq .supply, d.rate_eq .debt, hlt, ?_, ?_⟩
    · exact (d.total_of_strict .supply).trans (grown_eq_add _ _ _)
    · exact (d.total_of_strict .debt).trans (grown_eq_add _ _ _)

/-! ## Accruals that cannot wrap -/

/-- Rates of at most one per block, and no more debt than supply: what keeps the multipliers far from wrapping. -/
structure Tame (pool : Pool) : Prop where
  rates : pool.utilizationFactor.toNat + pool.initialInterestRate.toNat ≤ accuracy
  debt_le : pool.debt.toNat ≤ pool.supply.toNat

theorem newPool_tame (now : BlockNumber) (id : AssetId) (c : Bool) : Tame (newPool now id c) :=
  ⟨(by decide : (Fixed.ofRational 385 10000000000 : FixedU128).toNat +
    (Fixed.ofRational 385 100000000000 : FixedU128).toNat ≤ accuracy), Nat.le_refl _⟩

theorem ratio_le_one (h : pool.debt.toNat ≤ pool.supply.toNat) {ratio : FixedU128}
    (hratio : Fixed.saturatingFromRational p pool.debt pool.supply = some ratio) : ratio.toNat ≤ accuracy := by
  obtain ⟨hne, hratio⟩ := Fixed.toNat_fromRational hratio
  rw [hratio]
  exact (min_le_left _ _).trans (rounded_le_of_le (Nat.pos_of_ne_zero hne) (Nat.mul_le_mul_right _ h))

theorem Tame.debtRate (h : Tame pool) {rate : FixedU128} (hrate : debtRateInternal .release pool = some rate) :
    debtRateInternal .checked pool = some rate ∧ rate.toNat ≤ accuracy := by
  unfold debtRateInternal at hrate ⊢
  have hrates := h.rates
  split at hrate
  · rename_i hzero
    cases hrate
    exact ⟨if_pos hzero, by omega⟩
  · rename_i hzero
    obtain ⟨ratio, hratio, hrate⟩ := Option.bind_eq_some_iff.mp hrate
    obtain ⟨slope, hslope, hrate⟩ := Option.bind_eq_some_iff.mp hrate
    have hslope_le : slope.toNat ≤ pool.utilizationFactor.toNat := by
      rw [Fixed.toNat_mul hslope]
      refine rounded_le_of_le accuracy_pos ?_
      rw [Nat.mul_comm accuracy]
      exact Nat.mul_le_mul_left _ (ratio_le_one h.debt_le hratio)
    have hfit : pool.initialInterestRate.inner.toNat + slope.inner.toNat < 2 ^ 128 := by
      have hlt := accuracy_lt
      show pool.initialInterestRate.toNat + slope.toNat < 2 ^ 128
      omega
    have hchecked : pool.initialInterestRate.add .checked slope = some rate := by
      have hsame : pool.initialInterestRate.add .release slope = pool.initialInterestRate.add .checked slope := by
        rw [Fixed.add, Fixed.add, add_isSome_of_lt hfit, add_isSome_of_lt hfit]
      rw [← hsame]
      exact hrate
    refine ⟨?_, ?_⟩
    · rw [if_neg hzero]
      exact Option.bind_eq_some_iff.mpr ⟨ratio, hratio, Option.bind_eq_some_iff.mpr ⟨slope, hslope, hchecked⟩⟩
    · rw [Fixed.toNat_add rfl hchecked]
      omega

theorem Tame.rate (h : Tame pool) {rate : FixedU128} (hrate : rateInternal .release pool side = some rate) :
    rateInternal .checked pool side = some rate ∧ rate.toNat ≤ accuracy := by
  cases side with
  | debt => exact h.debtRate hrate
  | supply =>
    change supplyRateInternal .release pool = some rate at hrate
    show supplyRateInternal .checked pool = some rate ∧ _
    unfold supplyRateInternal at hrate ⊢
    split at hrate
    · rename_i hzero
      cases hrate
      exact ⟨if_pos hzero, Nat.zero_le _⟩
    · rename_i hzero
      obtain ⟨ratio, hratio, hrate⟩ := Option.bind_eq_some_iff.mp hrate
      obtain ⟨dr, hdr, hrate⟩ := Option.bind_eq_some_iff.mp hrate
      obtain ⟨hdr, hle⟩ := h.debtRate hdr
      refine ⟨?_, ?_⟩
      · rw [if_neg hzero]
        exact Option.bind_eq_some_iff.mpr ⟨ratio, hratio, Option.bind_eq_some_iff.mpr ⟨dr, hdr, hrate⟩⟩
      · rw [Fixed.toNat_mul hrate]
        exact rounded_le_of_le accuracy_pos (Nat.mul_le_mul hle (ratio_le_one h.debt_le hratio))

theorem supplyRate_le (h : pool.debt.toNat ≤ pool.supply.toNat) {supplyRate debtRate : FixedU128}
    (hsupply : supplyRateInternal p pool = some supplyRate) (hdebt : debtRateInternal p pool = some debtRate) :
    supplyRate.toNat ≤ debtRate.toNat := by
  unfold supplyRateInternal at hsupply
  split at hsupply
  · cases hsupply
    exact Nat.zero_le _
  · obtain ⟨ratio, hratio, hsupply⟩ := Option.bind_eq_some_iff.mp hsupply
    obtain ⟨rate, hrate, hsupply⟩ := Option.bind_eq_some_iff.mp hsupply
    cases hrate.symm.trans hdebt
    rw [Fixed.toNat_mul hsupply]
    refine rounded_le_of_le accuracy_pos ?_
    rw [Nat.mul_comm accuracy]
    exact Nat.mul_le_mul_left _ (ratio_le_one h hratio)

theorem Tame.rate_isSome (h : Tame pool) (side : Side) : (rateInternal .release pool side).isSome := by
  by_cases hzero : pool.supply = 0
  · cases side <;> simp [rateInternal, debtRateInternal, supplyRateInternal, hzero]
  · obtain ⟨ratio, hratio⟩ : ∃ ratio : FixedU128, Fixed.saturatingFromRational .release pool.debt pool.supply =
        some ratio := by
      rw [Fixed.saturatingFromRational, if_neg hzero]
      exact ⟨_, congrArg _ (if_pos (Or.inr rfl))⟩
    obtain ⟨slope, hslope⟩ :=
      Option.isSome_iff_exists.mp (Fixed.mul_isSome (x := pool.utilizationFactor) (ratio_le_one h.debt_le hratio))
    have hdebt : debtRateInternal .release pool = some ⟨pool.initialInterestRate.inner + slope.inner⟩ := by
      unfold debtRateInternal
      rw [if_neg hzero, hratio, Option.bind_eq_bind, Option.bind_some, hslope, Option.bind_some, Fixed.add,
        add_release]
      rfl
    cases side with
    | debt =>
      show (debtRateInternal .release pool).isSome
      rw [hdebt]
      rfl
    | supply =>
      show (supplyRateInternal .release pool).isSome
      unfold supplyRateInternal
      rw [if_neg hzero, hratio, hdebt]
      exact Fixed.mul_isSome (ratio_le_one h.debt_le hratio)

theorem indexNow_of_tame (hq : accrueInterest .release now pool = some q) (h : Tame q) (side : Side) :
    indexNow .release now pool side = some (q.index side) := by
  rw [indexNow_bind]
  rcases accrueInterest_cases hq with ⟨hlast, rfl⟩ | ⟨_, ⟨d⟩⟩
  · obtain ⟨rate, hrate⟩ := Option.isSome_iff_exists.mp (h.rate_isSome side)
    rw [hrate, hlast, Option.bind_eq_bind, Option.bind_some, multiplier_self, Option.bind_some]
    exact Fixed.mul_one accuracy_lt
  · rw [d.rate_eq, Option.bind_eq_bind, Option.bind_some, d.factor_eq, Option.bind_some]
    exact d.index_eq side

/-- A multiplier of a rate of at most one does not wrap in the life of the chain. -/
theorem multiplier_checked {last : BlockNumber} {rate factor : FixedU128} (hlast : last.toNat ≤ now.toNat)
    (hrate : rate.toNat ≤ accuracy) (h : multiplier .release now last rate = some factor) :
    multiplier .checked now last rate = some factor := by
  obtain ⟨elapsed, helapsed, h⟩ := Option.bind_eq_some_iff.mp h
  obtain ⟨time, htime, h⟩ := Option.bind_eq_some_iff.mp h
  obtain ⟨interest, hinterest, h⟩ := Option.bind_eq_some_iff.mp h
  have ht : time.toNat = elapsed.toNat * accuracy := Fixed.toNat_fromInteger (by decide) htime
  have hi : interest.toNat ≤ accuracy * 2 ^ 32 := by
    rw [Fixed.toNat_mul hinterest, ht, ← Nat.mul_assoc, rounded_mul_right 128 _ accuracy_pos]
    exact Nat.mul_le_mul hrate elapsed.isLt.le
  have hfit : (Fixed.one : FixedU128).inner.toNat + interest.inner.toNat < 2 ^ 128 := by
    have hone : (Fixed.one : FixedU128).inner.toNat = accuracy := Fixed.toNat_one accuracy_lt
    show _ + interest.toNat < _
    have : accuracy + accuracy * 2 ^ 32 < 2 ^ 128 := by decide
    omega
  refine Option.bind_eq_some_iff.mpr ⟨elapsed, ?_, Option.bind_eq_some_iff.mpr ⟨time, htime,
    Option.bind_eq_some_iff.mpr ⟨interest, hinterest, ?_⟩⟩⟩
  · rw [sub_isSome_of_le hlast] at helapsed ⊢
    exact helapsed
  · rw [Fixed.add, add_isSome_of_lt hfit] at h ⊢
    exact h

/-- **The accrual of a tame pool never wraps.** -/
theorem Tame.accrueInterest (h : Tame pool) (hlast : pool.lastUpdated.toNat ≤ now.toNat)
    (hq : accrueInterest .release now pool = some q) : accrueInterest .checked now pool = some q := by
  rcases accrueInterest_cases hq with ⟨hlast, rfl⟩ | ⟨hne, ⟨d⟩⟩
  · exact accrueInterest_self hlast
  · refine Accrual.accrueInterest_eq hne ⟨d.rate, d.factor, fun side => (h.rate (d.rate_eq side)).1, fun side => ?_,
      d.total_eq, d.index_eq, d.frame⟩
    exact multiplier_checked hlast (h.rate (d.rate_eq side)).2 (d.factor_eq side)

/-- No multiplier `1 + rate * elapsed` wraps at block `n`. -/
def NoWrap (n : BlockNumber) (pool : Pool) : Prop :=
  ∀ side rate, rateInternal .release pool side = some rate →
    accuracy + rate.toNat * (n.toNat - pool.lastUpdated.toNat) < 2 ^ 128

theorem noWrap_self (h : pool.lastUpdated = now) : NoWrap now pool := by
  intro side rate _
  rw [h, Nat.sub_self, Nat.mul_zero]
  exact accuracy_lt

theorem Tame.noWrap (h : Tame pool) : NoWrap n pool := by
  intro side rate hrate
  have hle : rate.toNat * (n.toNat - pool.lastUpdated.toNat) ≤ accuracy * 2 ^ 32 :=
    Nat.mul_le_mul (h.rate hrate).2 ((Nat.sub_le _ _).trans n.isLt.le)
  have : accuracy + accuracy * 2 ^ 32 < 2 ^ 128 := by decide
  omega

end Konomi.Lending
