import Konomi.Lending.Info

/-!
# Loans and withdrawals that leave the user liquidatable

`borrow` and `withdraw` check the collateral before they write. They add or subtract the value of the amount that
moves, as `saturating_mul_int` computes it for the amount by itself, whereas `get_user_info` computes that of the whole
position, and `liquidate` checks that.
`notLiquidatable_iff` says which calls that passed the check leave the user above the threshold: those whose amount is
worth, to the unit, what it changes the value of the position by, and those with room for the difference.
-/

namespace Konomi.Lending
open Machine Assets

variable {A : Type} [DecidableEq A] {cfg : Config A} {s s' : Chain A} {u : A} {a : AssetId} {x : Balance}
  {info info' : Balance × Balance × Balance}

/-- What `liquidate` compares: the threshold times the debt is at most the converted supply. -/
def Healthy (s : Chain A) (u : A) : Prop :=
  ∀ info required, getUserInfo .release s u = some info →
    s.lending.liquidationThreshold.saturatingMulInt .release info.2.2 = some required → required ≤ info.2.1

omit [DecidableEq A] in
theorem healthy_iff (hinfo : getUserInfo .release s u = some info) :
    Healthy s u ↔ worth s.lending.liquidationThreshold info.2.2 ≤ info.2.1 := by
  constructor
  · intro h
    exact h info _ hinfo (mulInt_release _ _)
  · intro hle info₁ required hinfo₁ hrequired
    rw [hinfo] at hinfo₁
    cases hinfo₁
    rw [mulInt_release] at hrequired
    cases hrequired
    exact hle

/-- A user that no liquidation of existing pools gets past the threshold for. -/
def NotLiquidatable (cfg : Config A) (s : Chain A) (u : A) : Prop :=
  Healthy s u ∧ ∀ v payId getId y r s', (s.lending.pools payId).isSome →
    (∃ pool, s.lending.pools getId = some pool ∧ pool.canBeCollateral = true) →
    dispatch cfg .release s (.signed v) (.liquidate u payId getId y) = some (r, s') →
    r = .error (.lending .aboveLiquidationThreshold)

/-- The check of `liquidate` on the accrued records is the one on the stored records. -/
theorem seizure_of_healthy {payId getId : AssetId} {payPool getPool : Pool} {y : Balance}
    {o : Except (LendingError × Lending A) (Seizure A)} (h : Healthy s u) (hpay : s.lending.pools payId = some payPool)
    (hget : s.lending.pools getId = some getPool) (hcollateral : getPool.canBeCollateral = true)
    (ho : seizure .release s u payId getId y = some o) : ∃ l, o = .error (.aboveLiquidationThreshold, l) := by
  unfold seizure at ho
  simp only [hget, hpay, hcollateral, Bool.true_eq_false, if_false] at ho
  obtain ⟨payAccrued, hpayAccrued, ho⟩ := Option.bind_eq_some_iff.mp ho
  obtain ⟨getAccrued, hgetAccrued, ho⟩ := Option.bind_eq_some_iff.mp ho
  obtain ⟨l, hl, ho⟩ := Option.bind_eq_some_iff.mp ho
  obtain ⟨supplies, hsupplies, hl⟩ := Option.bind_eq_some_iff.mp hl
  cases hl
  obtain ⟨l, hl, ho⟩ := Option.bind_eq_some_iff.mp ho
  obtain ⟨debts, hdebts, hl⟩ := Option.bind_eq_some_iff.mp hl
  cases hl
  obtain ⟨info, hinfo, ho⟩ := Option.bind_eq_some_iff.mp ho
  obtain ⟨required, hrequired, ho⟩ := Option.bind_eq_some_iff.mp ho
  let d : Assessment .release s u payId getId :=
    ⟨payPool, getPool, payAccrued, getAccrued, supplies, debts, hpay, hget, hcollateral, hpayAccrued, hgetAccrued,
      hsupplies, hdebts⟩
  have hinfo : getUserInfo .release s u = some info :=
    getUserInfo_of_touched s { s with lending := d.lending } rfl rfl rfl (d.touched rfl) hinfo
  rw [if_pos (h info required hinfo hrequired)] at ho
  exact ⟨_, (Option.some.inj ho).symm⟩

theorem Healthy.notLiquidatable (h : Healthy s u) : NotLiquidatable cfg s u := by
  refine ⟨h, fun v payId getId y r s' hpay hget hd => ?_⟩
  obtain ⟨payPool, hpay⟩ := Option.isSome_iff_exists.mp hpay
  obtain ⟨getPool, hget, hcollateral⟩ := hget
  obtain ⟨o, ho, hd⟩ := Option.bind_eq_some_iff.mp hd
  obtain ⟨l, rfl⟩ := seizure_of_healthy h hpay hget hcollateral ho
  cases hd
  rfl

/-! ## The two checks -/

/-- The amount is worth what it changes the value of the caller's position by, or the rounding leaves the debt within
the collateral. -/
def RoomToRound (s : Chain A) (u : A) : Call A → Prop
  | .borrow a x => ∀ pool q owed info, s.lending.pools a = some pool →
      accrueInterest .release s.blockNumber pool = some q →
      valueAt .release q.totalDebtIndex (s.lending.debts.records (a, u)) = some owed →
      getUserInfo .release s u = some info →
      let price := s.assets.getRate a
      let grows := worth price (owed + x) - worth price owed
      grows = worth price x ∨ worth s.lending.liquidationThreshold (info.2.2 + grows) ≤ info.2.1
  | .withdraw a x => ∀ pool q supplied info factor, s.lending.pools a = some pool →
      accrueInterest .release s.blockNumber pool = some q →
      valueAt .release q.totalSupplyIndex (s.lending.supplies.records (a, u)) = some supplied →
      getUserInfo .release s u = some info → (s.assets.getRate a).mul pool.safeFactor = some factor →
      let amount := transferred false supplied x
      let shrinks := worth factor supplied - worth factor (supplied - amount)
      shrinks = worth factor amount ∨ worth s.lending.liquidationThreshold info.2.2 ≤ info.2.1 - shrinks
  | _ => True

/-- The check of `borrow` bounds what the debt would be if values added up. -/
theorem borrow_healthy_iff (d : Posting cfg .release s u .debt true a x) (hs : AllListed s)
    (hinfo' : getUserInfo .release d.result u = some info') :
    Healthy d.result u ↔ RoomToRound s u (.borrow a x) := by
  obtain ⟨touched, cash, hbook, _, _, info, value, owed, required, hinfo, hvalue, howed, hrequired, hpassed⟩ :=
    d.checks rfl
  have hinfo : getUserInfo .release s u = some info :=
    getUserInfo_of_touched s { s with lending := s.lending.setBook touched .debt } rfl rfl rfl
      (touched_setBook d.stored d.accrues hbook) hinfo
  have hother : info'.2.1 = info.2.1 := d.converted_other hinfo hinfo' (show Side.supply ≠ .debt by decide)
  have hown : info'.2.2 + worth (s.assets.getRate a) d.value =
      info.2.2 + worth (s.assets.getRate a) d.value' := d.converted_own hs hinfo hinfo' rfl
  have hvalue' : d.value' = d.value + x := (add_eq d.value'_eq).trans (congrArg (d.value + ·) d.amount_eq)
  have hpassed : worth s.lending.liquidationThreshold (info.2.2 + worth (s.assets.getRate a) x) ≤ info.2.1 := by
    rw [mulInt_release] at hvalue hrequired
    rw [show d.amount = x from d.amount_eq] at hvalue
    rw [Option.some.inj hvalue, ← add_eq howed]
    exact BitVec.not_lt.mp (Option.some.inj hrequired ▸ hpassed)
  have hafter : info'.2.2 =
      info.2.2 + (worth (s.assets.getRate a) (d.value + x) - worth (s.assets.getRate a) d.value) := by
    rw [hvalue'] at hown
    bv_omega
  rw [healthy_iff hinfo', hother, hafter]
  constructor
  · intro hle pool q owed info₁ hpool hq howed hinfo₁
    rw [d.stored] at hpool
    cases hpool
    rw [d.accrues] at hq
    cases hq
    have howed := d.value_eq.symm.trans howed
    cases howed
    rw [hinfo] at hinfo₁
    cases hinfo₁
    exact Or.inr hle
  · intro hroom
    rcases hroom d.pool d.accrued d.value info d.stored d.accrues d.value_eq hinfo with hsame | hle
    · rw [hsame]
      exact hpassed
    · exact hle

/-- The check of `withdraw` bounds what the converted supply would be if values added up. -/
theorem withdraw_healthy_iff (d : Posting cfg .release s u .supply false a x) (hs : AllListed s)
    (hinfo' : getUserInfo .release d.result u = some info') :
    Healthy d.result u ↔ RoomToRound s u (.withdraw a x) := by
  obtain ⟨touched, cash, hbook, _, _, info, factor, value, left, required, hinfo, hfactor, hvalue, hleft, hrequired,
    hpassed⟩ := d.checks rfl
  have hinfo : getUserInfo .release s u = some info :=
    getUserInfo_of_touched s { s with lending := s.lending.setBook touched .supply } rfl rfl rfl
      (touched_setBook d.stored d.accrues hbook) hinfo
  have hfactor : (s.assets.getRate a).mul d.pool.safeFactor = some factor := by
    rw [← (accrueInterest_frame d.accrues).2.2.2.2]
    exact hfactor
  have hother : info'.2.2 = info.2.2 := d.converted_other hinfo hinfo' (show Side.debt ≠ .supply by decide)
  have hown : info'.2.1 + worth factor d.value = info.2.1 + worth factor d.value' :=
    d.converted_own hs hinfo hinfo' (Option.bind_eq_some_iff.mpr ⟨d.pool, d.stored, hfactor⟩)
  have hvalue' : d.value' = d.value - d.amount := sub_eq d.value'_eq
  have hpassed : worth s.lending.liquidationThreshold info.2.2 ≤ info.2.1 - worth factor d.amount := by
    rw [mulInt_release] at hvalue hrequired
    rw [Option.some.inj hvalue, ← sub_eq hleft]
    exact BitVec.not_lt.mp (Option.some.inj hrequired ▸ hpassed)
  have hafter : info'.2.1 = info.2.1 - (worth factor d.value - worth factor (d.value - d.amount)) := by
    rw [hvalue'] at hown
    bv_omega
  rw [healthy_iff hinfo', hother, hafter]
  constructor
  · intro hle pool q supplied info₁ factor₁ hpool hq hsupplied hinfo₁ hfactor₁
    rw [d.stored] at hpool
    cases hpool
    rw [d.accrues] at hq
    cases hq
    have hsupplied := d.value_eq.symm.trans hsupplied
    cases hsupplied
    rw [hinfo] at hinfo₁
    cases hinfo₁
    rw [hfactor] at hfactor₁
    cases hfactor₁
    dsimp only
    rw [← d.amount_eq]
    exact Or.inr hle
  · intro hroom
    have hroom := hroom d.pool d.accrued d.value info factor d.stored d.accrues d.value_eq hinfo hfactor
    dsimp only at hroom
    rw [← d.amount_eq] at hroom
    rcases hroom with hsame | hle
    · rw [hsame]
      exact hpassed
    · exact hle

/-- **When a loan or a withdrawal leaves the user above the threshold.** In every reachable state, for every loan and
every withdrawal that returns `Ok`, the user cannot be liquidated in the same block exactly when there was room for the
rounding. -/
theorem notLiquidatable_iff {call : Call A} (hs : Reached cfg (fun _ _ => True) s)
    (hcall : (∃ a x, call = .borrow a x) ∨ ∃ a x, call = .withdraw a x)
    (h : dispatch cfg .release s (.signed u) call = some (.ok (), s'))
    (hinfo' : getUserInfo .release s' u = some info') : NotLiquidatable cfg s' u ↔ RoomToRound s u call := by
  have hlisted := reached_listed hs
  have hhealthy : Healthy s' u ↔ RoomToRound s u call := by
    rcases dispatch_cases h with ⟨v, hv, hstep⟩ | ⟨⟨e, he⟩, _⟩ | ⟨id, c, rfl, _, _⟩
    · cases hv
      rcases hcall with ⟨a, x, rfl⟩ | ⟨a, x, rfl⟩
      · cases hstep with
        | posted side positive entry d =>
          cases entry
          exact borrow_healthy_iff d hlisted hinfo'
      · cases hstep with
        | posted side positive entry d =>
          cases entry
          exact withdraw_healthy_iff d hlisted hinfo'
    · cases he
    · rcases hcall with ⟨a, x, hcall⟩ | ⟨a, x, hcall⟩ <;> cases hcall
  rw [← hhealthy]
  exact ⟨fun hn => hn.1, fun hh => hh.notLiquidatable⟩

/-- User `2` supplies 10 of asset `1` at the price 60 and borrows 840 of asset `0` at the price 1/2: the loan is worth
420, and so is the supply at the safe factor 7/10. -/
theorem notLiquidatable_mock : ∃ s s', Reached mockConfig (fun _ _ => True) s ∧
    dispatch mockConfig .release s (.signed 2) (.borrow 0 840) = some (.ok (), s') ∧
    getUserInfo .release s' 2 = some (600, 420, 420) ∧ NotLiquidatable mockConfig s' 2 := by
  have hplay : ∃ s₀ s s', genesis .release mockGenesis = some s₀ ∧
      exec (guarded (step mockConfig .release) (fun _ _ => True)) s₀
        [.call (.signed 1) (.lending (.supply 0 100000)), .call (.signed 2) (.lending (.supply 1 10)),
          .call .root (.assets (.setPrice 0 ⟨500000000000000000⟩))] = some s ∧
      dispatch mockConfig .release s (.signed 2) (.borrow 0 840) = some (.ok (), s') ∧
      getUserInfo .release s' 2 = some (600, 420, 420) ∧ s.lending.debts.records (0, 2) = none ∧
      s.assets.getRate 0 = ⟨500000000000000000⟩ :=
    ⟨_, _, _, rfl, rfl, rfl, rfl, rfl, rfl⟩
  obtain ⟨s₀, s, s', hs₀, hs, hborrow, hinfo, hnone, hprice⟩ := hplay
  have hreached : Reached mockConfig (fun _ _ => True) s := ⟨mockGenesis, s₀, hs₀, run_of_exec hs⟩
  have hroom : RoomToRound s 2 (.borrow 0 840) := by
    intro pool q owed info _ _ howed _
    rw [hnone] at howed
    cases howed
    rw [hprice]
    exact Or.inl (by decide)
  exact ⟨s, s', hreached, hborrow, hinfo,
    (notLiquidatable_iff hreached (Or.inl ⟨0, 840, rfl⟩) hborrow hinfo).mpr hroom⟩

/-- The same user borrows one more of asset `0`, and another one. Each is worth nothing by itself and passes the check,
together they are worth one: the debt is 421, and user `1` liquidates it in the same block. -/
theorem two_small_loans : ∃ s s' s'', Reached mockConfig (fun _ _ => True) s ∧
    dispatch mockConfig .release s (.signed 2) (.borrow 0 1) = some (.ok (), s') ∧
    getUserInfo .release s' 2 = some (600, 420, 421) ∧
    s'.lending.liquidationThreshold.saturatingMulInt .release 421 = some 421 ∧
    dispatch mockConfig .release s' (.signed 1) (.liquidate 2 0 1 300) = some (.ok (), s'') ∧
    ¬ NotLiquidatable mockConfig s' 2 := by
  have hplay : ∃ s₀ s s' s'', genesis .release mockGenesis = some s₀ ∧
      exec (guarded (step mockConfig .release) (fun _ _ => True)) s₀
        [.call (.signed 1) (.lending (.supply 0 100000)), .call (.signed 2) (.lending (.supply 1 10)),
          .call .root (.assets (.setPrice 0 ⟨500000000000000000⟩)), .call (.signed 2) (.lending (.borrow 0 840)),
          .call (.signed 2) (.lending (.borrow 0 1))] = some s ∧
      dispatch mockConfig .release s (.signed 2) (.borrow 0 1) = some (.ok (), s') ∧
      getUserInfo .release s' 2 = some (600, 420, 421) ∧
      s'.lending.liquidationThreshold.saturatingMulInt .release 421 = some 421 ∧
      dispatch mockConfig .release s' (.signed 1) (.liquidate 2 0 1 300) = some (.ok (), s'') :=
    ⟨_, _, _, _, rfl, rfl, rfl, rfl, rfl, rfl⟩
  obtain ⟨s₀, s, s', s'', hs₀, hs, hborrow, hinfo, hrequired, hliquidate⟩ := hplay
  refine ⟨s, s', s'', ⟨mockGenesis, s₀, hs₀, run_of_exec hs⟩, hborrow, hinfo, hrequired, hliquidate, fun h => ?_⟩
  exact absurd (h.1 _ _ hinfo hrequired) (by decide)

end Konomi.Lending
