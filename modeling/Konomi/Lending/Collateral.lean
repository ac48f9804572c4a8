import Konomi.Lending.Health
import Konomi.Lending.Loans

/-!
# Supplies that are not collateral

`can_be_collateral` is set when a pool is made and read by `liquidate` alone: it refuses to seize an asset of which the
pool cannot be collateral. `get_user_info` counts the supplies of all pools. `collateralOnly s u` is the state without
the supplies of `u` that cannot be seized, and `same_check_iff` says which of the three checks on `get_user_info` come
out the same there. What the calls return decides how a check came out (`borrow_check`, `withdraw_check`,
`liquidation_check`).
-/

namespace Konomi.Lending
open Machine Assets

variable {A : Type} [DecidableEq A] {cfg : Config A} {s s' : Chain A} {u v : A} {a : AssetId} {x : Balance}
  {side : Side} {info info' : Balance × Balance × Balance}

/-- The pool of the asset exists and cannot be collateral. -/
def NotCollateral (s : Chain A) (a : AssetId) : Prop :=
  ∃ pool, s.lending.pools a = some pool ∧ pool.canBeCollateral = false

instance (s : Chain A) (a : AssetId) : Decidable (NotCollateral s a) :=
  match h : s.lending.pools a with
  | none => isFalse (by rintro ⟨pool, hpool, _⟩; rw [h] at hpool; cases hpool)
  | some pool => decidable_of_iff (pool.canBeCollateral = false)
      ⟨fun hc => ⟨pool, h, hc⟩, by rintro ⟨pool', hpool, hc⟩; rw [h] at hpool; cases hpool; exact hc⟩

/-- The state in which the supplies of `u` in pools that cannot be collateral are removed. -/
def collateralOnly (s : Chain A) (u : A) : Chain A :=
  { s with lending := { s.lending with supplies :=
    { records := fun k => if k.2 = u ∧ NotCollateral s k.1 then none else s.lending.supplies.records k
      assets := Function.update s.lending.supplies.assets u
        ((s.lending.supplies.assets u).filter (fun a => !decide (NotCollateral s a))) } } }

/-- What the converted supply of `u` owes to pools that cannot be collateral. -/
def unseizable (s : Chain A) (u : A) : Balance :=
  (((s.lending.supplies.assets u).filter (fun a => decide (NotCollateral s a))).map (counted s u .supply)).sum

/-! ## The state without them -/

theorem view_collateralOnly (ha : ¬ (side = .supply ∧ NotCollateral s a)) :
    view .release (collateralOnly s u) a u side = view .release s a u side := by
  refine view_congr s (collateralOnly s u) rfl rfl ?_
  cases side with
  | supply => exact if_neg (fun h => ha ⟨rfl, h.2⟩)
  | debt => rfl

theorem weight_collateralOnly (side : Side) : weight (collateralOnly s u) a side = weight s a side := by
  cases side <;> rfl

theorem assets_collateralOnly : (collateralOnly s u).lending.supplies.assets u =
    (s.lending.supplies.assets u).filter (fun a => !decide (NotCollateral s a)) := Function.update_self ..

/-- **Without them `get_user_info` returns the same debt, and the converted supply without what it owes to them.** -/
theorem getUserInfo_collateralOnly (h : getUserInfo .release s u = some info) :
    ∃ info', getUserInfo .release (collateralOnly s u) u = some info' ∧ info'.2.1 = info.2.1 - unseizable s u ∧
      info'.2.2 = info.2.2 := by
  have hkept : ∀ b ∈ (s.lending.supplies.assets u).filter (fun a => !decide (NotCollateral s a)),
      b ∈ s.lending.supplies.assets u ∧ ¬ NotCollateral s b := by
    intro b hb
    simpa using hb
  obtain ⟨info', hinfo'⟩ : ∃ info', getUserInfo .release (collateralOnly s u) u = some info' := by
    refine getUserInfo_returns fun side b hb => ?_
    cases side with
    | supply =>
      rw [show (collateralOnly s u).lending.book .supply = (collateralOnly s u).lending.supplies from rfl,
        assets_collateralOnly] at hb
      obtain ⟨hmem, hcollateral⟩ := hkept b hb
      rw [view_collateralOnly (fun h => hcollateral h.2), weight_collateralOnly]
      exact (info_total h .supply).1 b hmem
    | debt =>
      rw [view_collateralOnly (by simp), weight_collateralOnly]
      exact (info_total h .debt).1 b hb
  refine ⟨info', hinfo', ?_, ?_⟩
  · have hsum : unseizable s u + info'.2.1 = info.2.1 := by
      have hall : info.2.1 = ((s.lending.supplies.assets u).map (counted s u .supply)).sum := (info_total h .supply).2
      have hrest : info'.2.1 = (((s.lending.supplies.assets u).filter (fun a => !decide (NotCollateral s a))).map
          (counted s u .supply)).sum := by
        have hrest := (info_total hinfo' .supply).2
        change info'.2.1 = (((collateralOnly s u).lending.supplies.assets u).map _).sum at hrest
        rw [hrest, assets_collateralOnly]
        refine congrArg List.sum (List.map_congr_left fun b hb => ?_)
        rw [counted, counted, view_collateralOnly (fun h => (hkept b hb).2 h.2), weight_collateralOnly]
      rw [hall, hrest]
      exact sum_filter_add _ _
    rw [← hsum]
    bv_omega
  · have hall : info.2.2 = ((s.lending.debts.assets u).map (counted s u .debt)).sum := (info_total h .debt).2
    have hrest : info'.2.2 = ((s.lending.debts.assets u).map (counted (collateralOnly s u) u .debt)).sum :=
      (info_total hinfo' .debt).2
    rw [hall, hrest]
    refine congrArg List.sum (List.map_congr_left fun b _ => ?_)
    rw [counted, counted, view_collateralOnly (by simp), weight_collateralOnly]

/-! ## The three checks -/

/-- The checks that compare the two totals of `get_user_info`: those of `borrow` and `withdraw`, and the test of
`liquidate`. -/
inductive Check where
  | borrow (a : AssetId) (x : Balance)
  | withdraw (a : AssetId) (x : Balance)
  | liquidation

/-- What the check asks of the converted supply. -/
def Check.required (s : Chain A) (debt : Balance) : Check → Balance
  | .borrow a x => worth s.lending.liquidationThreshold (debt + worth (s.assets.getRate a) x)
  | _ => worth s.lending.liquidationThreshold debt

/-- What a withdrawal takes from the converted supply. -/
def Check.withdrawn (s : Chain A) (u : A) : Check → Balance
  | .withdraw a x =>
    match view .release s a u .supply, weight s a .supply with
    | some n, some r => worth r (transferred false n x)
    | _, _ => 0
  | _ => 0

/-- The check passes. For `liquidate` this means that the account is not liquidated. -/
def Check.Passes (s : Chain A) (u : A) (c : Check) : Prop :=
  ∃ info, getUserInfo .release s u = some info ∧ c.required s info.2.2 ≤ info.2.1 - c.withdrawn s u

section Calls
variable {r : Except DispatchError Unit}

omit [DecidableEq A] in
theorem Check.passes_iff (c : Check) (hinfo : getUserInfo .release s u = some info) :
    c.Passes s u ↔ c.required s info.2.2 ≤ info.2.1 - c.withdrawn s u := by
  constructor
  · rintro ⟨info', hinfo', hle⟩
    cases hinfo.symm.trans hinfo'
    exact hle
  · exact fun hle => ⟨info, hinfo, hle⟩

/-- A loan is granted only if its check passes, and refused for its collateral only if the check does not. -/
theorem borrow_check (h : dispatch cfg .release s (.signed u) (.borrow a x) = some (r, s')) :
    (r = .ok () → (Check.borrow a x).Passes s u) ∧
      (r = .error (.lending .belowLiquidationThreshold) → ¬ (Check.borrow a x).Passes s u) := by
  constructor
  · rintro rfl
    cases borrow_cases h with
    | posted side positive entry d =>
      cases entry
      obtain ⟨touched, _, hbook, _, _, info, _, _, _, hinfo, _⟩ := d.checks rfl
      let t : Touch s u .debt a := ⟨d.pool, d.accrued, touched, d.stored, d.accrues, hbook⟩
      have hinfo := t.getUserInfo_eq hinfo
      refine ⟨info, hinfo, ?_⟩
      simpa [Check.withdrawn, Check.required] using (d.loan_passed hinfo).2
  · rintro rfl
    cases borrow_refusal h with
    | loan t cash info_eq fails =>
      rcases fails with ⟨_, hbelow⟩ | ⟨⟨⟩, _⟩
      rw [Check.passes_iff _ (t.getUserInfo_eq info_eq)]
      simpa [Check.withdrawn, Check.required] using hbelow

/-- What a withdrawal takes, once the record of the caller has been accrued in storage. -/
theorem Touch.withdrawn_eq (t : Touch s u .supply a) (hs : AllListed s) (hinfo : getUserInfo .release s u = some info)
    {user : Position} {factor : FixedU128} (hr : t.book.records (a, u) = some user)
    (hfactor : (s.assets.getRate a).mul t.accrued.safeFactor = some factor) :
    (Check.withdraw a x).withdrawn s u = worth factor (transferred false user.amount x) := by
  obtain ⟨n, hview, hweight, hn⟩ := t.listed_view hs hinfo hr hfactor
  rw [Check.withdrawn, hview, hweight, hn]

theorem withdraw_check (hs : Reached cfg (fun _ _ => True) s)
    (h : dispatch cfg .release s (.signed u) (.withdraw a x) = some (r, s')) :
    (r = .ok () → (Check.withdraw a x).Passes s u) ∧
      (r = .error (.lending .belowLiquidationThreshold) → ¬ (Check.withdraw a x).Passes s u) := by
  have hlisted := reached_listed hs
  constructor
  · rintro rfl
    cases withdraw_cases h with
    | posted side positive entry d =>
      cases entry
      obtain ⟨t, user, info, factor, hr, hinfo, hfactor, hpassed⟩ := d.withdrawal_passed
      rw [Check.passes_iff _ hinfo, t.withdrawn_eq hlisted hinfo hr hfactor]
      exact hpassed
  · rintro rfl
    cases withdraw_refusal h with
    | withdrawal t record amount info_eq factor_eq fails =>
      rcases fails with ⟨_, hbelow⟩ | ⟨⟨⟩, _⟩ | ⟨⟨⟩, _⟩
      have hinfo := t.getUserInfo_eq info_eq
      rw [Check.passes_iff _ hinfo, t.withdrawn_eq hlisted hinfo record factor_eq, ← amount]
      exact BitVec.not_le.mpr hbelow

/-- What `liquidate` compares, once both positions of the target have been accrued in storage. -/
theorem Assessment.passes_iff {payId getId : AssetId} (d : Assessment .release s u payId getId) {required : Balance}
    (hinfo : getUserInfo .release { s with lending := d.lending } u = some info)
    (hrequired : s.lending.liquidationThreshold.saturatingMulInt .release info.2.2 = some required) :
    Check.liquidation.Passes s u ↔ required ≤ info.2.1 := by
  have hinfo : getUserInfo .release s u = some info :=
    getUserInfo_of_touched s { s with lending := d.lending } rfl rfl rfl (d.touched rfl) hinfo
  rw [mulInt_release] at hrequired
  cases hrequired
  rw [Check.passes_iff _ hinfo]
  simp [Check.required, Check.withdrawn]

theorem liquidation_check {payId getId : AssetId} {y : Balance}
    (h : dispatch cfg .release s (.signed v) (.liquidate u payId getId y) = some (r, s')) :
    (r = .ok () → ¬ Check.liquidation.Passes s u) ∧
      (r = .error (.lending .aboveLiquidationThreshold) → Check.liquidation.Passes s u) := by
  obtain ⟨o, ho, h⟩ := Option.bind_eq_some_iff.mp h
  rcases seizure_cases ho with ⟨e, rfl, hne⟩ | ⟨e, d, rfl, htested⟩ | ⟨d, rfl⟩
  · cases h
    refine ⟨nofun, ?_⟩
    rintro ⟨⟩
    exact absurd rfl hne
  · cases h
    refine ⟨nofun, ?_⟩
    rintro ⟨⟩
    obtain ⟨info, required, hinfo, hrequired, hle⟩ := htested rfl
    exact (d.passes_iff hinfo hrequired).mpr hle
  · obtain ⟨info, required, hinfo, hrequired, hbelow⟩ := d.below
    refine ⟨fun _ hpasses => hbelow ((d.toAssessment.passes_iff hinfo hrequired).mp hpasses), ?_⟩
    -- the errors after the test are those of the transfers
    rintro rfl
    obtain ⟨o, _, h⟩ := Option.bind_eq_some_iff.mp h
    cases o with
    | error m => cases h
    | ok st₁ =>
      obtain ⟨o, _, h⟩ := Option.bind_eq_some_iff.mp h
      cases o with
      | error m => cases h
      | ok st₂ =>
        obtain ⟨l, _, h⟩ := Option.bind_eq_some_iff.mp h
        obtain ⟨l', _, h⟩ := Option.bind_eq_some_iff.mp h
        cases h

end Calls

/-! ## What they count for -/

/-- A withdrawal of an asset that is left in `collateralOnly s u` takes what it takes in `s`; of another one nothing is
left to take. -/
def Check.withdrawnOnly (s : Chain A) (u : A) : Check → Balance
  | .withdraw a x => if NotCollateral s a then 0 else (Check.withdraw a x).withdrawn s u
  | _ => 0

theorem withdrawn_collateralOnly (c : Check) : c.withdrawn (collateralOnly s u) u = c.withdrawnOnly s u := by
  cases c with
  | borrow a x => rfl
  | liquidation => rfl
  | withdraw a x =>
    by_cases ha : NotCollateral s a
    · rw [Check.withdrawnOnly, if_pos ha, Check.withdrawn, weight_collateralOnly]
      have hnone : ((collateralOnly s u).lending.book .supply).records (a, u) = none := if_pos ⟨rfl, ha⟩
      cases hview : view .release (collateralOnly s u) a u .supply with
      | none => rfl
      | some n =>
        have hzero : n = 0 := by
          obtain ⟨pool, hpool, _⟩ := ha
          rw [view_eq, show (collateralOnly s u).lending.pools a = some pool from hpool, hnone] at hview
          obtain ⟨I, _, hn⟩ := Option.bind_eq_some_iff.mp hview
          exact (Option.some.inj hn).symm
        have htransferred : transferred false n x = 0 := by
          have hle := transferred_le n x
          rw [hzero] at hle ⊢
          exact BitVec.eq_of_toNat_eq (Nat.le_zero.mp hle)
        cases weight s a .supply with
        | none => rfl
        | some r =>
          show worth r (transferred false n x) = 0
          rw [htransferred, worth_zero]
    · rw [Check.withdrawnOnly, if_neg ha, Check.withdrawn, Check.withdrawn, weight_collateralOnly,
        view_collateralOnly (fun h => ha h.2)]

/-- The check comes out the same in the state without the supplies that cannot be seized. -/
def SameCheck (s : Chain A) (u : A) (c : Check) : Prop := c.Passes s u ↔ c.Passes (collateralOnly s u) u

/-- What the check asks for does not lie in the gap that the supplies that cannot be seized fill. -/
def Unaided (s : Chain A) (u : A) (info : Balance × Balance × Balance) (c : Check) : Prop :=
  let all := (info.2.1 - c.withdrawn s u).toNat
  let seizable := (info.2.1 - unseizable s u - c.withdrawnOnly s u).toNat
  (c.required s info.2.2).toNat ∉ Set.Ioc (min seizable all) (max seizable all)

instance (s : Chain A) (u : A) (info : Balance × Balance × Balance) (c : Check) : Decidable (Unaided s u info c) :=
  inferInstanceAs (Decidable (¬ (_ < _ ∧ _ ≤ _)))

theorem le_iff_le_of_gap {n m k : Nat} : (k ≤ m ↔ k ≤ n) ↔ k ∉ Set.Ioc (min n m) (max n m) := by
  rw [Set.mem_Ioc, min_lt_iff, le_max_iff]
  omega

/-- **Which checks do not depend on supplies that cannot be seized.** -/
theorem same_check_iff (c : Check) (hinfo : getUserInfo .release s u = some info) :
    SameCheck s u c ↔ Unaided s u info c := by
  obtain ⟨info', hinfo', hsupply, hdebt⟩ := getUserInfo_collateralOnly hinfo
  have hrequired : c.required (collateralOnly s u) info'.2.2 = c.required s info.2.2 := by
    rw [hdebt]
    cases c <;> rfl
  unfold SameCheck Unaided
  rw [c.passes_iff hinfo, c.passes_iff hinfo', hrequired, hsupply, withdrawn_collateralOnly, BitVec.le_def,
    BitVec.le_def]
  exact le_iff_le_of_gap

/-- Anyone may make the pool of asset `1` such that it cannot be collateral. The borrower supplies 10 of it at 60. -/
def unseizableSupply (lender borrower : A) : List (Action A) :=
  [.call (.signed lender) (.lending (.initPool 1 false)), .call (.signed lender) (.lending (.supply 0 100000)),
    .call (.signed borrower) (.lending (.supply 1 10))]

/-- The loan of 5 of asset `0` at the price 100 is refused with and without the supply of asset `1`. -/
theorem same_check_mock : ∃ s,
    play mockConfig .release { mockGenesis with pools := [0] } (unseizableSupply 1 2) = some s ∧
    unseizable s 2 = 420 ∧ SameCheck s 2 (.borrow 0 5) := by
  obtain ⟨s, hs, hinfo, hvalue, hunaided⟩ : ∃ s,
      play mockConfig .release { mockGenesis with pools := [0] } (unseizableSupply 1 2) = some s ∧
      getUserInfo .release s 2 = some (600, 420, 0) ∧ unseizable s 2 = 420 ∧ Unaided s 2 (600, 420, 0) (.borrow 0 5) :=
    ⟨_, rfl, rfl, by decide, by decide⟩
  exact ⟨s, hs, hvalue, (same_check_iff _ hinfo).mpr hunaided⟩

/-- The loan of 4 is granted, and would be refused without it. When the price of asset `1` falls, it is not seized. -/
theorem loan_on_unseizable_supply : ∃ s s' s'' t t',
    play mockConfig .release { mockGenesis with pools := [0] } (unseizableSupply 1 2) = some s ∧
    dispatch mockConfig .release s (.signed 2) (.borrow 0 4) = some (.ok (), s') ∧
    dispatch mockConfig .release (collateralOnly s 2) (.signed 2) (.borrow 0 4) =
      some (.error (.lending .belowLiquidationThreshold), s'') ∧
    ¬ SameCheck s 2 (.borrow 0 4) ∧
    step mockConfig .release s' (.call .root (.assets (.setPrice 1 ⟨5000000000000000000⟩))) = some t ∧
    getUserInfo .release t 2 = some (50, 35, 400) ∧
    dispatch mockConfig .release t (.signed 1) (.liquidate 2 0 1 1) =
      some (.error (.lending .assetNotCollateral), t') := by
  have hcheck : ∀ {s s' s'' : Chain (Fin 4)},
      dispatch mockConfig .release s (.signed 2) (.borrow 0 4) = some (.ok (), s') →
      dispatch mockConfig .release (collateralOnly s 2) (.signed 2) (.borrow 0 4) =
        some (.error (.lending .belowLiquidationThreshold), s'') → ¬ SameCheck s 2 (.borrow 0 4) := by
    intro s s' s'' hgranted hrefused hsame
    exact (borrow_check hrefused).2 rfl (hsame.mp ((borrow_check hgranted).1 rfl))
  exact ⟨_, _, _, _, _, rfl, rfl, rfl, hcheck rfl rfl, rfl, rfl, rfl⟩

end Konomi.Lending
