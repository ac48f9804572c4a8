import Konomi.Lending.Custody

/-!
# Growth of a pool over its accruals

An accrual credits no more than it charges, and lends no smaller part of the supply, exactly if the interest on the
supply, rounded as the totals are, is at most the interest on the debt (`accrual_credits_iff`).

The part that is lent may fall in an accrual, but by less than the debt has grown (`ratio_recovers`): no smaller part is
lent if it was at most half (`utilization_kept_of_half`) or if all products are in the word, and otherwise the supply is
so large that what is lost is a unit, or the debt has grown severalfold. With the initial rate of `_init_pool` the index
compounds (`rate_pays`, `Fixed.compound_le`), and touching the pool once more never lowers what is owed
(`accrue_twice`).
-/

namespace Konomi.Lending
open Machine

variable {now t t' : BlockNumber} {pool q q' r : Pool} {rate rate' : FixedU128}

theorem supply_le_accrued (h : accrueInterest .strict now pool = some q) : pool.supply.toNat ≤ q.supply.toNat := by
  rcases accrueInterest_cases h with ⟨_, rfl⟩ | ⟨_, ⟨d⟩⟩
  · exact le_refl _
  · exact (le_grown _ _ _).trans_eq (d.total_of_strict .supply).symm

theorem debt_le_accrued (h : accrueInterest .strict now pool = some q) : pool.debt.toNat ≤ q.debt.toNat := by
  rcases accrueInterest_cases h with ⟨_, rfl⟩ | ⟨_, ⟨d⟩⟩
  · exact le_refl _
  · exact (le_grown _ _ _).trans_eq (d.total_of_strict .debt).symm

/-- The part that is lent does not fall, as a relation of products. -/
theorem utilization_cross (hdebt : pool.debt.toNat ≤ pool.supply.toNat) (hsupply : pool.supply.toNat ≤ q.supply.toNat)
    (hcredit : q.supply.toNat + pool.debt.toNat ≤ pool.supply.toNat + q.debt.toNat) :
    pool.debt.toNat * q.supply.toNat ≤ q.debt.toNat * pool.supply.toNat := by
  obtain ⟨credited, hcredited⟩ := Nat.exists_eq_add_of_le hsupply
  obtain ⟨charged, hcharged⟩ : ∃ n, q.debt.toNat = pool.debt.toNat + n := Nat.exists_eq_add_of_le (by omega)
  have hle : credited ≤ charged := by omega
  rw [hcredited, hcharged, Nat.mul_add, Nat.add_mul]
  refine Nat.add_le_add_left ?_ _
  rw [Nat.mul_comm]
  exact Nat.mul_le_mul hle hdebt

/-- The utilisation of a pool, as its rates are computed from it. -/
def utilizationRatio (pool : Pool) : Nat := rounded 128 (pool.debt.toNat * accuracy) pool.supply.toNat

theorem toNat_debtRate (h : debtRateInternal .strict pool = some rate) :
    (pool.supply.toNat = 0 ∧ rate = pool.initialInterestRate) ∨ (pool.supply.toNat ≠ 0 ∧
      rate.toNat = pool.initialInterestRate.toNat +
        rounded 128 (pool.utilizationFactor.toNat * utilizationRatio pool) accuracy) := by
  unfold debtRateInternal at h
  split at h
  · rename_i hzero
    exact Or.inl ⟨by rw [hzero]; rfl, (Option.some.inj h).symm⟩
  · rename_i hne
    obtain ⟨ratio, hratio, h⟩ := Option.bind_eq_some_iff.mp h
    obtain ⟨slope, hslope, h⟩ := Option.bind_eq_some_iff.mp h
    refine Or.inr ⟨fun h0 => hne (BitVec.eq_of_toNat_eq (by simpa using h0)), ?_⟩
    rw [Fixed.toNat_add rfl h, Fixed.toNat_mul hslope, Fixed.toNat_fromRational_strict rfl hratio, utilizationRatio]

theorem initial_le_debtRate (h : debtRateInternal .strict pool = some rate) :
    pool.initialInterestRate.toNat ≤ rate.toNat := by
  rcases toNat_debtRate h with ⟨_, rfl⟩ | ⟨_, hrate⟩
  · exact le_refl _
  · rw [hrate]
    exact Nat.le_add_right _ _

/-- A pool of which at most half is lent pays at most half of what it charges. -/
theorem supplyRate_half (hhalf : 2 * pool.debt.toNat ≤ pool.supply.toNat)
    (hsupply : supplyRateInternal .strict pool = some rate) (hdebt : debtRateInternal .strict pool = some rate') :
    2 * rate.toNat ≤ rate'.toNat + 1 := by
  unfold supplyRateInternal at hsupply
  split at hsupply
  · cases hsupply
    exact Nat.zero_le _
  · obtain ⟨ratio, hratio, hsupply⟩ := Option.bind_eq_some_iff.mp hsupply
    obtain ⟨_, hsame, hsupply⟩ := Option.bind_eq_some_iff.mp hsupply
    cases hsame.symm.trans hdebt
    obtain ⟨hne, hratio⟩ := Fixed.toNat_fromRational hratio
    have hratio_le : ratio.toNat ≤ accuracy / 2 := by
      rw [hratio]
      refine (min_le_left _ _).trans (rounded_le_of_le (Nat.pos_of_ne_zero hne) ?_)
      calc pool.debt.toNat * accuracy = 2 * pool.debt.toNat * (accuracy / 2) := by
            rw [Nat.mul_right_comm]
            exact Nat.mul_comm _ _
        _ ≤ pool.supply.toNat * (accuracy / 2) := Nat.mul_le_mul_right _ hhalf
    have hround := rounded_le_half 128 (rate'.toNat * ratio.toNat) accuracy
    rw [← Fixed.toNat_mul hsupply] at hround
    refine Nat.le_of_mul_le_mul_left (?_ : accuracy * _ ≤ accuracy * _) accuracy_pos
    calc accuracy * (2 * rate.toNat) = 2 * (accuracy * rate.toNat) := by ring
      _ ≤ 2 * (rate'.toNat * ratio.toNat) + accuracy := hround
      _ ≤ 2 * (rate'.toNat * (accuracy / 2)) + accuracy := by gcongr
      _ = rate'.toNat * (2 * (accuracy / 2)) + accuracy := by ring
      _ = accuracy * (rate'.toNat + 1) := by
        rw [Nat.mul_add, Nat.mul_one, Nat.mul_comm accuracy]
        rfl

/-! ## The interest of an accrual -/

theorem lt_of_grown (hq : accrueInterest .strict now pool = some q)
    (hrate : supplyRateInternal .release pool = some rate) :
    (accuracy + rate.toNat * (now.toNat - pool.lastUpdated.toNat)) * pool.supply.toNat <
      accuracy * (q.supply.toNat + 1) := by
  rcases accrueInterest_cases hq with ⟨hlast, rfl⟩ | ⟨_, ⟨d⟩⟩
  · rw [hlast, Nat.sub_self, Nat.mul_zero, Nat.add_zero]
    exact Nat.mul_lt_mul_of_pos_left (Nat.lt_succ_self _) accuracy_pos
  · have hsame : supplyRateInternal .release pool = some (d.rate .supply) :=
      mono_supplyRateInternal pool Profile.strict_le_release (d.rate_eq .supply)
    cases hsame.symm.trans hrate
    have hsupply : q.supply.toNat = grown pool.supply.toNat _ _ := d.total_of_strict .supply
    rw [hsupply]
    exact lt_rounded accuracy_pos

theorem utilization_drop (hne : pool.lastUpdated ≠ now) (hdebt : pool.debt.toNat ≤ pool.supply.toNat)
    (hq : accrueInterest .strict now pool = some q) :
    2 * (pool.debt.toNat * q.supply.toNat) ≤ 2 * (q.debt.toNat * pool.supply.toNat) + 3 * pool.supply.toNat := by
  obtain ⟨supplyRate, debtRate, hsr, hdr, hlt, hsupply, hcharged⟩ := accrued_totals hne hq
  have hrates := supplyRate_le hdebt hsr hdr
  have hcredit := interest_le_half pool.supply.toNat supplyRate.toNat (now.toNat - pool.lastUpdated.toNat)
  have hcharge := (lt_interest pool.debt.toNat debtRate.toNat (now.toNat - pool.lastUpdated.toNat)).le
  rw [hsupply, hcharged]
  generalize interest pool.supply.toNat supplyRate.toNat _ = credited at hcredit ⊢
  generalize interest pool.debt.toNat debtRate.toNat _ = charged at hcharge ⊢
  generalize now.toNat - pool.lastUpdated.toNat = blocks at hcredit hcharge
  have hproduct : 2 * (pool.debt.toNat * credited) ≤ 2 * (pool.supply.toNat * charged) + 3 * pool.supply.toNat := by
    refine Nat.le_of_mul_le_mul_left (?_ : accuracy * _ ≤ accuracy * _) accuracy_pos
    calc accuracy * (2 * (pool.debt.toNat * credited)) = pool.debt.toNat * (2 * (accuracy * credited)) := by ring
      _ ≤ pool.debt.toNat * (2 * (pool.supply.toNat * supplyRate.toNat * blocks) + accuracy) :=
          Nat.mul_le_mul_left _ hcredit
      _ ≤ pool.debt.toNat * (2 * (pool.supply.toNat * debtRate.toNat * blocks) + accuracy) := by gcongr
      _ = 2 * pool.supply.toNat * (pool.debt.toNat * debtRate.toNat * blocks) + accuracy * pool.debt.toNat := by ring
      _ ≤ 2 * pool.supply.toNat * (accuracy * (charged + 1)) + accuracy * pool.supply.toNat :=
          Nat.add_le_add (Nat.mul_le_mul_left _ hcharge) (Nat.mul_le_mul_left _ hdebt)
      _ = accuracy * (2 * (pool.supply.toNat * charged) + 3 * pool.supply.toNat) := by ring
  calc 2 * (pool.debt.toNat * (pool.supply.toNat + credited))
      = 2 * (pool.debt.toNat * pool.supply.toNat) + 2 * (pool.debt.toNat * credited) := by ring
    _ ≤ 2 * (pool.debt.toNat * pool.supply.toNat) + (2 * (pool.supply.toNat * charged) + 3 * pool.supply.toNat) :=
        Nat.add_le_add_left hproduct _
    _ = 2 * ((pool.debt.toNat + charged) * pool.supply.toNat) + 3 * pool.supply.toNat := by ring

/-! ## A pool of which at most half is lent -/

/-- Three units of interest on the debt make up for all roundings. -/
theorem credit_cross {supply debt supplyRate debtRate blocks : Nat} (hhalf : 2 * debt ≤ supply)
    (hrates : 2 * supplyRate ≤ debtRate + 1) (hrate : 4 ≤ debtRate) (hcharge : 3 ≤ interest debt debtRate blocks) :
    debt * interest supply supplyRate blocks ≤ supply * interest debt debtRate blocks := by
  have hcredited := interest_le_half supply supplyRate blocks
  have hcharged := (lt_interest debt debtRate blocks).le
  generalize interest supply supplyRate blocks = credited at hcredited ⊢
  generalize interest debt debtRate blocks = charged at hcharge hcharged ⊢
  refine Nat.le_of_mul_le_mul_left (?_ : 8 * accuracy * _ ≤ 8 * accuracy * _) (by decide)
  have hsmall : debt * 4 * blocks ≤ debt * debtRate * blocks := by gcongr
  calc 8 * accuracy * (debt * credited) = 4 * debt * (2 * (accuracy * credited)) := by ring
    _ ≤ 4 * debt * (2 * (supply * supplyRate * blocks) + accuracy) := Nat.mul_le_mul_left _ hcredited
    _ = 4 * supply * debt * (2 * supplyRate) * blocks + 2 * (2 * debt) * accuracy := by ring
    _ ≤ 4 * supply * debt * (debtRate + 1) * blocks + 2 * supply * accuracy := by gcongr
    _ = 4 * supply * (debt * debtRate * blocks) + supply * (debt * 4 * blocks) + 2 * supply * accuracy := by ring
    _ ≤ 4 * supply * (debt * debtRate * blocks) + supply * (debt * debtRate * blocks) + 2 * supply * accuracy := by
        gcongr
    _ = 5 * supply * (debt * debtRate * blocks) + 2 * supply * accuracy := by ring
    _ ≤ 5 * supply * (accuracy * (charged + 1)) + 2 * supply * accuracy := by gcongr
    _ = supply * accuracy * (5 * charged + 7) := by ring
    _ ≤ supply * accuracy * (8 * charged) := Nat.mul_le_mul_left _ (by omega)
    _ = 8 * accuracy * (supply * charged) := by ring

/-- Where little is charged, no product leaves the word. -/
theorem credit_le_of_little {supplyRate : FixedU128} {blocks : Nat} (hdebt : pool.debt.toNat ≤ pool.supply.toNat)
    (hpos : 0 < pool.debt.toNat) (hblocks : 0 < blocks) (hsr : supplyRateInternal .strict pool = some supplyRate)
    (hrate : debtRateInternal .strict pool = some rate) (hlow : 0 < rate.toNat)
    (hless : interest pool.debt.toNat rate.toNat blocks < 3) :
    interest pool.supply.toNat supplyRate.toNat blocks ≤ interest pool.debt.toNat rate.toNat blocks := by
  rcases Nat.eq_zero_or_pos supplyRate.toNat with hzero | hpays
  · rw [hzero, interest_zero_rate]
    exact Nat.zero_le _
  have hlittle : pool.debt.toNat * rate.toNat * blocks < 3 * accuracy := by
    refine (lt_interest _ _ _).trans_le ?_
    rw [Nat.mul_comm]
    exact Nat.mul_le_mul_right _ hless
  have hproduct : pool.debt.toNat * rate.toNat < 3 * accuracy :=
    (Nat.le_mul_of_pos_right _ hblocks).trans_lt hlittle
  have hcredit : pool.supply.toNat * supplyRate.toNat ≤ pool.debt.toNat * rate.toNat := by
    refine supplyRate_mul_le hdebt ?_ ?_ (mono_supplyRateInternal pool Profile.strict_le_release hsr)
      (mono_debtRateInternal pool Profile.strict_le_release hrate)
    · exact (Nat.mul_le_mul_right _ ((Nat.le_mul_of_pos_right _ hlow).trans hproduct.le)).trans_lt (by decide)
    · exact (Nat.mul_le_mul_right _ ((Nat.le_mul_of_pos_left _ hpos).trans hproduct.le)).trans_lt (by decide)
  have hcredit' : pool.supply.toNat * supplyRate.toNat * blocks ≤ pool.debt.toNat * rate.toNat * blocks :=
    Nat.mul_le_mul_right blocks hcredit
  have hsupply : pool.supply.toNat ≤ 3 * accuracy :=
    calc pool.supply.toNat ≤ pool.supply.toNat * supplyRate.toNat := Nat.le_mul_of_pos_right _ hpays
      _ ≤ pool.supply.toNat * supplyRate.toNat * blocks := Nat.le_mul_of_pos_right _ hblocks
      _ ≤ 3 * accuracy := hcredit'.trans hlittle.le
  have hfits : (accuracy + supplyRate.toNat * blocks) * pool.supply.toNat < 2 ^ 128 :=
    calc (accuracy + supplyRate.toNat * blocks) * pool.supply.toNat
        = accuracy * pool.supply.toNat + pool.supply.toNat * supplyRate.toNat * blocks := by ring
      _ ≤ accuracy * (3 * accuracy) + 3 * accuracy :=
          Nat.add_le_add (Nat.mul_le_mul_left _ hsupply) (hcredit'.trans hlittle.le)
      _ < 2 ^ 128 := by decide
  rw [interest_of_fits hfits]
  exact (Nat.div_le_div_right hcredit').trans (Nat.le_add_right _ _)

/-- **No smaller part is lent after an accrual, of a pool of which at most half is lent.** -/
theorem utilization_kept_of_half (hne : pool.lastUpdated ≠ now) (hhalf : 2 * pool.debt.toNat ≤ pool.supply.toNat)
    (hq : accrueInterest .strict now pool = some q) (hrate : debtRateInternal .strict pool = some rate)
    (hlow : 4 ≤ rate.toNat) : pool.debt.toNat * q.supply.toNat ≤ q.debt.toNat * pool.supply.toNat := by
  have hdebt : pool.debt.toNat ≤ pool.supply.toNat := by omega
  obtain ⟨supplyRate, debtRate, hsr, hdr, hlt, hsupply, hcharged⟩ := accrued_totals hne hq
  cases hrate.symm.trans hdr
  rw [hsupply, hcharged, Nat.mul_add, Nat.add_mul]
  refine Nat.add_le_add_left ?_ _
  rw [Nat.mul_comm (interest _ _ _)]
  have hblocks : 0 < now.toNat - pool.lastUpdated.toNat := Nat.sub_pos_of_lt hlt
  generalize now.toNat - pool.lastUpdated.toNat = blocks at hblocks
  rcases Nat.eq_zero_or_pos pool.debt.toNat with hzero | hpos
  · rw [hzero, Nat.zero_mul]
    exact Nat.zero_le _
  rcases Nat.lt_or_ge (interest pool.debt.toNat rate.toNat blocks) 3 with hless | hmore
  · exact Nat.mul_le_mul hdebt (credit_le_of_little hdebt hpos hblocks hsr hrate (by omega) hless)
  · exact credit_cross hhalf (supplyRate_half hhalf hsr hdr) hlow hmore

/-! ## A pool of which more than half is lent -/

theorem third_le_ratio (hne : pool.lastUpdated ≠ now) (hdebt : pool.debt.toNat ≤ pool.supply.toNat)
    (hhalf : pool.supply.toNat < 2 * pool.debt.toNat) (hq : accrueInterest .strict now pool = some q) :
    accuracy / 3 ≤ utilizationRatio q := by
  obtain ⟨supplyRate, debtRate, hsr, hdr, _, hsupply, hcharged⟩ := accrued_totals hne hq
  have hcredit := interest_le_half pool.supply.toNat supplyRate.toNat (now.toNat - pool.lastUpdated.toNat)
  have hcharge := lt_interest pool.debt.toNat debtRate.toNat (now.toNat - pool.lastUpdated.toNat)
  generalize interest pool.supply.toNat supplyRate.toNat _ = credited at hcredit hsupply
  generalize interest pool.debt.toNat debtRate.toNat _ = charged at hcharge hcharged
  generalize now.toNat - pool.lastUpdated.toNat = blocks at hcredit hcharge
  have hproduct : pool.supply.toNat * supplyRate.toNat * blocks ≤ 2 * (pool.debt.toNat * debtRate.toNat * blocks) :=
    calc pool.supply.toNat * supplyRate.toNat * blocks
        ≤ 2 * pool.debt.toNat * debtRate.toNat * blocks :=
          Nat.mul_le_mul_right _ (Nat.mul_le_mul hhalf.le (supplyRate_le hdebt hsr hdr))
      _ = 2 * (pool.debt.toNat * debtRate.toNat * blocks) := by ring
  have hcredited : credited ≤ 2 * charged + 2 := by
    have hunits : accuracy * (2 * credited) < accuracy * (4 * charged + 5) := by
      rw [Nat.mul_left_comm, Nat.mul_add, Nat.mul_left_comm accuracy 4]
      rw [Nat.mul_add, Nat.mul_one] at hcharge
      omega
    have := Nat.lt_of_mul_lt_mul_left hunits
    omega
  refine le_rounded_of_le (by omega) ?_
  calc q.supply.toNat * (accuracy / 3) ≤ 3 * q.debt.toNat * (accuracy / 3) := Nat.mul_le_mul_right _ (by omega)
    _ = q.debt.toNat * (3 * (accuracy / 3)) := by ring
    _ ≤ q.debt.toNat * accuracy := Nat.mul_le_mul_left _ (by decide)

/-! ## Two accruals -/

/-- The initial rate of `_init_pool`, which all its pools charge at least. -/
def leastRate : Nat := 3850000000

/-- **The utilisation may fall in an accrual, but by less than the debt has grown.** -/
theorem ratio_recovers (hne : pool.lastUpdated ≠ now) (hdebt : pool.debt.toNat ≤ pool.supply.toNat)
    (hpos : 0 < pool.supply.toNat) (hq : accrueInterest .strict now pool = some q)
    (hrate : debtRateInternal .strict pool = some rate) (hlow : leastRate ≤ rate.toNat) :
    accuracy * utilizationRatio pool ≤
      (accuracy + rate.toNat * (now.toNat - pool.lastUpdated.toNat)) * utilizationRatio q := by
  have hkept (h : pool.debt.toNat * q.supply.toNat ≤ q.debt.toNat * pool.supply.toNat) :
      accuracy * utilizationRatio pool ≤
        (accuracy + rate.toNat * (now.toNat - pool.lastUpdated.toNat)) * utilizationRatio q := by
    refine Nat.mul_le_mul (Nat.le_add_right _ _) ?_
    refine rounded_cross hpos (Nat.mul_le_mul_right _ (debt_le_accrued hq)) (supply_le_accrued hq) ?_
    calc pool.debt.toNat * accuracy * q.supply.toNat = pool.debt.toNat * q.supply.toNat * accuracy := by ring
      _ ≤ q.debt.toNat * pool.supply.toNat * accuracy := Nat.mul_le_mul_right _ h
      _ = q.debt.toNat * accuracy * pool.supply.toNat := by ring
  rcases Nat.lt_or_ge pool.supply.toNat (2 * pool.debt.toNat) with hhalf | hhalf
  · have hthird := third_le_ratio hne hdebt hhalf hq
    obtain ⟨_, _, _, _, hlt, _, _⟩ := accrued_totals hne hq
    have hrate_le : rate.toNat ≤ rate.toNat * (now.toNat - pool.lastUpdated.toNat) :=
      Nat.le_mul_of_pos_right _ (Nat.sub_pos_of_lt hlt)
    rcases Nat.lt_or_ge (rate.toNat * (now.toNat - pool.lastUpdated.toNat)) (3 * accuracy) with hslow | hfast
    · rcases Nat.lt_or_ge q.supply.toNat (3 * accuracy) with hsmall | hlarge
      · -- all products are in the word
        have hcovered : CreditCovered pool now 0 := by
          refine creditCovered_of_word hdebt (fun r hr => ?_) (fun r hr => (lt_of_grown hq hr).trans_le ?_)
          · cases (mono_debtRateInternal pool Profile.strict_le_release hrate).symm.trans hr
            exact (Nat.mul_le_mul_right _ (hrate_le.trans hslow.le)).trans_lt (by decide)
          · exact (Nat.mul_le_mul_left accuracy hsmall).trans (by decide)
        exact hkept (utilization_cross hdebt (supply_le_accrued hq) ((creditCovered_iff hq).mp hcovered))
      · -- the supply is so large that what is lost is at most one unit
        have hdrop : utilizationRatio pool ≤ utilizationRatio q + 1 :=
          rounded_drop hpos (hpos.trans_le (supply_le_accrued hq)) hlarge (utilization_drop hne hdebt hq)
        calc accuracy * utilizationRatio pool ≤ accuracy * (utilizationRatio q + 1) := Nat.mul_le_mul_left _ hdrop
          _ = accuracy * utilizationRatio q + accuracy := Nat.mul_add_one ..
          _ ≤ accuracy * utilizationRatio q +
              rate.toNat * (now.toNat - pool.lastUpdated.toNat) * utilizationRatio q := by
            refine Nat.add_le_add_left ?_ _
            exact (by decide : accuracy ≤ leastRate * (accuracy / 3)).trans
              (Nat.mul_le_mul (hlow.trans hrate_le) hthird)
          _ = (accuracy + rate.toNat * (now.toNat - pool.lastUpdated.toNat)) * utilizationRatio q :=
            (Nat.add_mul ..).symm
    · calc accuracy * utilizationRatio pool ≤ accuracy * accuracy :=
            Nat.mul_le_mul_left _ (rounded_le_of_le hpos (Nat.mul_le_mul_right _ hdebt))
        _ ≤ (accuracy + 3 * accuracy) * (accuracy / 3) := by decide
        _ ≤ (accuracy + rate.toNat * (now.toNat - pool.lastUpdated.toNat)) * utilizationRatio q :=
            Nat.mul_le_mul (Nat.add_le_add_left hfast _) hthird
  · exact hkept (utilization_kept_of_half hne hhalf hq hrate ((by decide : 4 ≤ leastRate).trans hlow))

/-- A second slope that recovers pays for what was rounded off both slopes, if the rates are not too low. -/
theorem slopes_pay {d grown init slope slope' share : Nat} (hinit : 2 ≤ init)
    (hsquare : 5 * d ≤ 2 * (init * (init - 2))) (hslope : 2 * (d * slope) ≤ 2 * share + d)
    (hshare : share ≤ (d + grown) * (slope' + 1)) (hle : slope' ≤ slope) (hgrown : init + slope ≤ grown) :
    d * (init + slope + 1) + (init + slope') ≤ (d + grown) * (init + slope') := by
  obtain ⟨k, rfl⟩ := Nat.exists_eq_add_of_le' hinit
  rw [Nat.add_sub_cancel] at hsquare
  have hinterest : (k + 2) * k ≤ grown * k := Nat.mul_le_mul_right k (by omega)
  have hexpand : (d + grown) * (k + 2 + slope') =
      (d + grown) * (slope' + 1) + d * k + d + grown * k + grown := by ring
  have hexpand' : d * (k + 2 + slope + 1) = d * k + d * slope + 3 * d := by ring
  omega

/-- What the second rate has lost is paid by the interest on the first interest, along with the rounding. -/
theorem rate_pays (hne : pool.lastUpdated ≠ now) (hdebt : pool.debt.toNat ≤ pool.supply.toNat)
    (hinit : leastRate ≤ pool.initialInterestRate.toNat) (hq : accrueInterest .strict now pool = some q)
    (hrate : debtRateInternal .strict pool = some rate) (hrate' : debtRateInternal .strict q = some rate') :
    accuracy * (rate.toNat + 1) + rate'.toNat ≤
      (accuracy + rate.toNat * (now.toNat - pool.lastUpdated.toNat)) * rate'.toNat := by
  obtain ⟨hutil, hsame, _⟩ := accrueInterest_frame (mono_accrueInterest now pool Profile.strict_le_release hq)
  obtain ⟨_, _, _, _, hlt, _, _⟩ := accrued_totals hne hq
  have hlow := hinit.trans (initial_le_debtRate hrate)
  have hlow' : pool.initialInterestRate.toNat ≤ rate'.toNat := by
    rw [← hsame]
    exact initial_le_debtRate hrate'
  have hgrown : rate.toNat ≤ rate.toNat * (now.toNat - pool.lastUpdated.toNat) :=
    Nat.le_mul_of_pos_right _ (Nat.sub_pos_of_lt hlt)
  rcases Nat.lt_or_ge rate'.toNat rate.toNat with hfalls | hkept
  · rcases toNat_debtRate hrate with ⟨_, rfl⟩ | ⟨hsupply, hr⟩
    · exact absurd hlow' (Nat.not_le.mpr hfalls)
    rcases toNat_debtRate hrate' with ⟨hzero, _⟩ | ⟨_, hr'⟩
    · have := supply_le_accrued hq
      omega
    have hrecovers := ratio_recovers hne hdebt (Nat.pos_of_ne_zero hsupply) hq hrate hlow
    rw [hutil, hsame] at hr'
    generalize rate.toNat * (now.toNat - pool.lastUpdated.toNat) = grown at hrecovers hgrown ⊢
    have hround := (lt_rounded (w := 128) (n := pool.utilizationFactor.toNat * utilizationRatio q) accuracy_pos).le
    rw [hr, hr']
    rw [hr] at hgrown hfalls
    rw [hr'] at hfalls
    refine slopes_pay ?_ ?_ (rounded_le_half 128 _ accuracy) ?_ (by omega) hgrown
    · exact (by decide : 2 ≤ leastRate).trans hinit
    · refine (by decide : 5 * accuracy ≤ 2 * (leastRate * (leastRate - 2))).trans ?_
      exact Nat.mul_le_mul_left 2 (Nat.mul_le_mul hinit (Nat.sub_le_sub_right hinit 2))
    · refine Nat.le_of_mul_le_mul_left (?_ : accuracy * _ ≤ accuracy * _) accuracy_pos
      calc accuracy * (pool.utilizationFactor.toNat * utilizationRatio pool)
          = pool.utilizationFactor.toNat * (accuracy * utilizationRatio pool) := by ring
        _ ≤ pool.utilizationFactor.toNat * ((accuracy + grown) * utilizationRatio q) := Nat.mul_le_mul_left _ hrecovers
        _ = (accuracy + grown) * (pool.utilizationFactor.toNat * utilizationRatio q) := by ring
        _ ≤ (accuracy + grown) * (accuracy * _) := Nat.mul_le_mul_left _ hround
        _ = accuracy * ((accuracy + grown) * _) := Nat.mul_left_comm ..
  · generalize rate.toNat * (now.toNat - pool.lastUpdated.toNat) = grown at hgrown ⊢
    have hsquare : accuracy + rate'.toNat ≤ grown * rate'.toNat := by
      obtain ⟨k, hk⟩ : ∃ k, grown = k + 1 := Nat.exists_eq_succ_of_ne_zero (by
        have : 0 < leastRate := by decide
        omega)
      rw [hk, Nat.add_mul, Nat.one_mul]
      refine Nat.add_le_add_right ?_ _
      refine (by decide : accuracy ≤ (leastRate - 1) * leastRate).trans (Nat.mul_le_mul ?_ (hlow.trans hkept))
      omega
    have hmul : accuracy * rate.toNat ≤ accuracy * rate'.toNat := Nat.mul_le_mul_left accuracy hkept
    rw [Nat.mul_add, Nat.mul_one, Nat.add_mul]
    omega

theorem toNat_debtIndex (hne : pool.lastUpdated ≠ now) (h : accrueInterest .strict now pool = some q) :
    ∃ rate, debtRateInternal .strict pool = some rate ∧ pool.lastUpdated.toNat ≤ now.toNat ∧
      q.totalDebtIndex.toNat = rounded 128 (pool.totalDebtIndex.toNat *
        (accuracy + rate.toNat * (now.toNat - pool.lastUpdated.toNat))) accuracy := by
  rcases accrueInterest_cases h with ⟨heq, _⟩ | ⟨_, ⟨d⟩⟩
  · exact absurd heq hne
  · refine ⟨d.rate .debt, d.rate_eq .debt, (toNat_multiplier rfl (d.factor_eq .debt)).1, ?_⟩
    have hindex : q.totalDebtIndex.toNat =
        rounded 128 (pool.totalDebtIndex.toNat * (d.factor .debt).toNat) accuracy := d.toNat_index .debt
    rw [hindex, d.toNat_factor rfl]

/-- **Touching a pool more often never lowers what borrowers owe.** Accrued at `t` and again at `t'`, a pool with the
initial rate of `_init_pool`, no more debt than supply and an index of at least one has an index that is at least the
one of a single accrual at `t'`. Its slope, the other factor of `_init_pool`, may be any. -/
theorem accrue_twice (hinit : pool.initialInterestRate = Fixed.ofRational 385 100000000000)
    (hdebt : pool.debt.toNat ≤ pool.supply.toNat) (hindex : accuracy ≤ pool.totalDebtIndex.toNat)
    (h : accrueInterest .strict t pool = some q) (h' : accrueInterest .strict t' q = some q')
    (honce : accrueInterest .strict t' pool = some r) :
    r.totalDebtIndex.toNat ≤ q'.totalDebtIndex.toNat := by
  have hlast : q.lastUpdated = t := accrueInterest_lastUpdated h
  by_cases hfirst : pool.lastUpdated = t
  · -- the first accrual finds the pool up to date
    rw [accrueInterest_self hfirst] at h
    cases h
    rw [honce] at h'
    cases h'
    exact le_refl _
  by_cases hsecond : t = t'
  · -- the second one does
    rw [accrueInterest_self (hlast.trans hsecond)] at h'
    cases h'
    rw [← hsecond, h] at honce
    cases honce
    exact le_refl _
  obtain ⟨rate, hrate, hle, hq⟩ := toNat_debtIndex hfirst h
  obtain ⟨rate', hrate', hle', hq'⟩ := toNat_debtIndex (hlast.trans_ne hsecond) h'
  rw [hlast] at hle' hq'
  have hlt : pool.lastUpdated.toNat < t.toNat :=
    lt_of_le_of_ne hle fun heq => hfirst (BitVec.eq_of_toNat_eq heq)
  have hlt' : t.toNat < t'.toNat := lt_of_le_of_ne hle' fun heq => hsecond (BitVec.eq_of_toNat_eq heq)
  have hne : pool.lastUpdated ≠ t' := by
    rintro rfl
    omega
  obtain ⟨_, hsame, _, hr⟩ := toNat_debtIndex hne honce
  cases hrate.symm.trans hsame
  have helapsed : t'.toNat - pool.lastUpdated.toNat =
      (t.toNat - pool.lastUpdated.toNat) + (t'.toNat - t.toNat) := by omega
  rw [hr, hq', hq, helapsed]
  refine Fixed.compound_le accuracy_pos hindex (by omega) (rate_pays hfirst hdebt ?_ h hrate hrate')
  rw [hinit]
  exact (by decide : leastRate ≤ (Fixed.ofRational 385 100000000000 : FixedU128).toNat)

/-- The same pool, touched after half a million blocks of a million. -/
theorem accrue_twice_lent : ∃ pool q q' r, accrueInterest .strict 500000 pool = some q ∧
    accrueInterest .strict 1000000 q = some q' ∧ accrueInterest .strict 1000000 pool = some r ∧
    accuracy < q.totalDebtIndex.toNat ∧ r.totalDebtIndex.toNat ≤ q'.totalDebtIndex.toNat := by
  obtain ⟨pool, q, q', r, hinit, hdebt, hindex, h, h', honce, hgrown⟩ : ∃ (pool q q' r : Pool),
      pool.initialInterestRate = Fixed.ofRational 385 100000000000 ∧ pool.debt.toNat ≤ pool.supply.toNat ∧
      accuracy ≤ pool.totalDebtIndex.toNat ∧ accrueInterest .strict 500000 pool = some q ∧
      accrueInterest .strict 1000000 q = some q' ∧ accrueInterest .strict 1000000 pool = some r ∧
      accuracy < q.totalDebtIndex.toNat :=
    ⟨{ newPool 0 0 true with supply := 200000000000, debt := 100000000000 }, _, _, _, rfl,
      by decide, by decide, rfl, rfl, rfl, by decide⟩
  exact ⟨pool, q, q', r, h, h', honce, hgrown, accrue_twice hinit hdebt hindex h h' honce⟩

end Konomi.Lending
