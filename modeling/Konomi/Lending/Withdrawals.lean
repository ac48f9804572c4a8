import Konomi.Lending.Custody
import Konomi.Lending.RoundTrip

/-!
# Withdrawals that cannot be refused

A supplier without debts gets any amount that its view and the cash of the accrued pool cover exactly when the pallet
account holds that amount (`withdraw_available_iff`). It does as long as no accrual has credited more than it charged
(`cash_held`). The parts of the argument:

* the pallet has no supplies of its own (`pallet_unsupplied`);
* the record that `withdraw` stores first changes no view, so `get_user_info` is as it was (`getUserInfo_accrued`);
* what is taken off the converted supply is part of it, and nothing is required of an account without debts
  (`collateral_without_debts`).
-/

namespace Konomi.Lending
open Machine Assets

variable {A : Type} [DecidableEq A] {cfg : Config A} {p : Profile} {s s' t : Chain A} {u v : A} {a b : AssetId}
  {side : Side} {x w : Balance} {pool q : Pool} {info : Balance × Balance × Balance}

/-! ## The pallet account -/

theorem step_pallet {l : Action A} (hl : Custodial cfg l) (h : step cfg .strict s l = some s')
    (hs : ∀ side a, (s.lending.book side).records (a, cfg.accountId) = none) (side : Side) (a : AssetId) :
    (s'.lending.book side).records (a, cfg.accountId) = none := by
  rcases step_cases h with ⟨block, rfl, _, rfl⟩ | ⟨origin, c, r, rfl, hd⟩ | ⟨origin, c, r, rfl, _, _, hlending, _⟩
  · exact hs side a
  · rcases dispatch_cases hd with ⟨u, rfl, hstep⟩ | ⟨_, rfl⟩ | ⟨id, can, rfl, _, rfl⟩
    · have hu : cfg.accountId ≠ u := by
        rintro rfl
        cases c with
        | liquidate t payId getId x => exact hl
        | _ => exact hl rfl
      cases hstep with
      | refused => exact hs side a
      | touched side' e entry stored accrues book =>
        dsimp only
        rw [book_setBook]
        split
        · rename_i hside
          subst hside
          rw [Book.accrue_records_of_ne book fun he => hu (Prod.mk.inj he).2]
          exact hs side a
        · exact hs side a
      | posted side' positive entry d =>
        rw [d.records_other fun he => hu he.2.1]
        exact hs side a
      | assessed => exact hl.elim
      | halfway => exact hl.elim
      | settled => exact hl.elim
    · exact hs side a
    · rw [show (_initPool s.blockNumber s.lending id can).book side = s.lending.book side by cases side <;> rfl]
      exact hs side a
  · rw [hlending]
    exact hs side a

/-- **The pallet has no supplies and no debts.** -/
theorem pallet_unsupplied (h : Reached cfg (CustodyStep cfg) s) (side : Side) (a : AssetId) :
    (s.lending.book side).records (a, cfg.accountId) = none := by
  refine Reached.invariant (I := fun s => ∀ side a, (s.lending.book side).records (a, cfg.accountId) = none)
    (fun g s hg side a => ?_) (fun s l s' hs hok hstep => ?_) h side a
  · obtain ⟨_, hsupplies, hdebts, _⟩ := genesis_lending hg
    cases side with
    | supply => exact congrFun (congrArg Book.records hsupplies) _
    | debt => exact congrFun (congrArg Book.records hdebts) _
  · exact step_pallet hok.1 ((mono_step cfg s l).eq_of_isSome Profile.strict_le_release hstep hok.2) hs

/-! ## The record that is stored first -/

omit [DecidableEq A] in
theorem getUserInfo_congr (hviews : ∀ a side, view p s' a u side = view p s a u side)
    (hlists : ∀ side, (s'.lending.book side).assets u = (s.lending.book side).assets u)
    (hassets : s'.assets = s.assets) (hpools : s'.lending.pools = s.lending.pools) :
    getUserInfo p s' u = getUserInfo p s u := by
  have hsupply : ∀ a, getUserSupplyWithInterest p s' a u = getUserSupplyWithInterest p s a u :=
    fun a => hviews a .supply
  have hdebt : ∀ a, getUserDebtWithInterest p s' a u = getUserDebtWithInterest p s a u := fun a => hviews a .debt
  have hsupplies : s'.lending.supplies.assets u = s.lending.supplies.assets u := hlists .supply
  have hdebts : s'.lending.debts.assets u = s.lending.debts.assets u := hlists .debt
  unfold getUserInfo
  simp only [hsupply, hdebt, hsupplies, hdebts, hassets, hpools]

/-- A record that is rewritten at its value, under the same profile, leaves `get_user_info` as it was. -/
theorem getUserInfo_accrued (hq : accrueInterest p s.blockNumber pool = some q) (hpool : s.lending.pools a = some pool)
    (hview : view p s a u side = some w) (hw : w ≠ 0) {book : Book A}
    (hbook : (s.lending.book side).accrue p (q.index side) a u = some book) :
    getUserInfo p { s with lending := s.lending.setBook book side } u = getUserInfo p s u := by
  rw [view_eq, hpool] at hview
  obtain ⟨I, hI, hvalue⟩ := Option.bind_eq_some_iff.mp hview
  cases indexNow_eq hq hI
  have hindex := index_ne_zero hvalue hw
  rw [Book.accrue_eq (isSome_of_value hvalue hw) hvalue] at hbook
  cases hbook
  refine getUserInfo_congr (fun b side' => ?_) (fun side' => ?_) rfl (pools_setBook ..)
  · by_cases hk : side' = side ∧ b = a
    · obtain ⟨rfl, rfl⟩ := hk
      rw [view_eq, view_eq, pools_setBook, book_setBook, if_pos rfl, hpool]
      dsimp only
      rw [hI, Function.update_self, Option.bind_eq_bind, Option.bind_some, Option.bind_some, hvalue, valueAt,
        accrued_self, if_neg hindex]
    · refine view_congr s _ rfl (congrFun (pools_setBook ..) b) ?_
      rw [book_setBook]
      split
      · rename_i hside
        subst hside
        exact Function.update_of_ne (fun he => hk ⟨rfl, (Prod.mk.inj he).1⟩) ..
      · rfl
  · rw [book_setBook]
    split
    · rename_i hside
      subst hside
      rfl
    · rfl

/-! ## The collateral check -/

omit [DecidableEq A] in
theorem converted_debt_zero (hdebts : s.lending.debts.assets u = []) (hinfo : getUserInfo .release s u = some info) :
    info.2.2 = 0 := by
  have howed : info.2.2 = _ := (info_total hinfo .debt).2
  rw [howed, show (s.lending.book .debt).assets u = [] from hdebts]
  rfl

omit [DecidableEq A] in
theorem mulInt_of_fits {r : FixedU128} {n : Balance} (h : rounded 128 (r.toNat * n.toNat) accuracy < 2 ^ 128) :
    r.saturatingMulInt p n = some (worth r n) := by
  rw [← mulInt_release, Fixed.mulInt_eq, Fixed.mulInt_eq, Profile.saturate, Profile.saturate, if_pos (Or.inl h),
    if_pos (Or.inl h)]

omit [DecidableEq A] in
/-- **A withdrawal of part of a listed supply passes the collateral check of an account without debts**, and takes no
more off the converted supply than the asset counts for. -/
theorem collateral_without_debts (hlisted : a ∈ s.lending.supplies.assets u) (hdebts : s.lending.debts.assets u = [])
    (hpool : s.lending.pools a = some pool) (hq : accrueInterest .strict s.blockNumber pool = some q)
    (hview : view .strict s a u .supply = some w) (hle : x ≤ w) (hinfo : getUserInfo .strict s u = some info)
    (hsame : getUserInfo .strict s' u = getUserInfo .strict s u) (hassets : s'.assets = s.assets) :
    Collateral .strict s' q a u x .supply false := by
  have hrelease := mono_getUserInfo s u Profile.strict_le_release hinfo
  obtain ⟨n, r, hn, hr⟩ := (info_total hrelease .supply).1 a hlisted
  have hview : view .release s a u .supply = some w :=
    mono_getUserSupplyWithInterest s a u Profile.strict_le_release hview
  cases hn.symm.trans hview
  have hfactor : (s'.assets.getRate a).mul q.safeFactor = some r := by
    rw [weight, hpool] at hr
    rw [hassets, (accrueInterest_frame (release_accrues Profile.strict_le_release hq)).2.2.2.2]
    exact hr
  have hfits := worth_fits Profile.strict_le_release rfl hinfo hlisted hn hr
  have hfits' : rounded 128 (r.toNat * x.toNat) accuracy < 2 ^ 128 :=
    (rounded_mono accuracy_pos (Nat.mul_le_mul_left _ (BitVec.le_def.mp hle))).trans_lt hfits
  have hcounted : (worth r x).toNat ≤ info.2.1.toNat :=
    calc (worth r x).toNat ≤ (worth r w).toNat := worth_mono r (BitVec.le_def.mp hle)
      _ = (counted s u .supply a).toNat := by rw [counted_eq hn hr]
      _ ≤ info.2.1.toNat := counted_le Profile.strict_le_release rfl hinfo hlisted
  have hzero := converted_debt_zero hdebts hrelease
  have hrequired : rounded 128 (s'.lending.liquidationThreshold.toNat * info.2.2.toNat) accuracy < 2 ^ 128 := by
    rw [hzero]
    simp
  refine ⟨info, r, worth r x, _, _, hsame.trans hinfo, hfactor, mulInt_of_fits hfits', sub_isSome_of_le hcounted,
    mulInt_of_fits hrequired, ?_⟩
  rw [hzero, worth_zero]
  exact BitVec.not_lt.mpr (BitVec.le_def.mpr (Nat.zero_le _))

/-! ## The withdrawal -/

/-- The posting of a withdrawal that the view, the cash and the tokens of the pallet cover. -/
theorem withdrawal_posting (hlisted : a ∈ s.lending.supplies.assets u) (hdebts : s.lending.debts.assets u = [])
    (hpool : s.lending.pools a = some pool) (hq : accrueInterest .strict s.blockNumber pool = some q)
    (hview : view .strict s a u .supply = some w) (hinfo : (getUserInfo .strict s u).isSome) (hx : x ≠ 0) (hle : x ≤ w)
    (hcash : x.toNat + q.debt.toNat ≤ q.supply.toNat) (hheld : x ≤ s.assets.balances (a, cfg.accountId))
    (hu : u ≠ cfg.accountId) (hcredit : (s.assets.balances (a, u)).toNat + x.toNat < 2 ^ 128) :
    ∃ d : Posting cfg .strict s u .supply false a x, d.amount = x := by
  obtain ⟨info, hinfo⟩ := Option.isSome_iff_exists.mp hinfo
  have hw : w ≠ 0 := Book.ne_zero_of_toNat hx (BitVec.le_def.mp hle)
  have hvalue := view_value hpool hq hview
  have hbook := Book.accrue_eq (isSome_of_value hvalue hw) hvalue
  obtain ⟨st, hst⟩ : ∃ st, s.assets.transfer .strict cfg.accountId a u x = some (.ok st) := by
    have hadd : Profile.strict.add (s.assets.debited cfg.accountId a x (a, u)) x =
        some (s.assets.balances (a, u) + x) := by
      rw [debited, Function.update_of_ne (fun he => hu (Prod.mk.inj he).2), add_isSome_of_lt hcredit]
    unfold transfer
    dsimp only
    rw [if_neg hx, if_neg (BitVec.not_lt.mpr hheld)]
    exact ⟨_, Option.bind_eq_some_iff.mpr ⟨_, hadd, rfl⟩⟩
  have hamount : x = transferred false w x := (if_neg (BitVec.not_lt.mpr hle)).symm
  have hcovers : ¬ q.supply - q.debt < x := by
    rw [BitVec.not_lt, BitVec.le_def, BitVec.toNat_sub_of_le (BitVec.le_def.mpr (by omega))]
    omega
  have hsame := getUserInfo_accrued hq hpool hview hw hbook
  exact ⟨{
    pool := pool
    accrued := q
    value := w
    amount := x
    value' := w - x
    total' := q.supply - x
    assets := st
    stored := hpool
    accrues := hq
    value_eq := hvalue
    amount_eq := hamount
    pays := hst
    value'_eq := sub_isSome_of_le (BitVec.le_def.mp hle)
    total'_eq := sub_isSome_of_le (by change x.toNat ≤ q.supply.toNat; omega)
    checks := fun _ => ⟨_, _, hbook, sub_isSome_of_le (by omega), hcovers,
      collateral_without_debts hlisted hdebts hpool hq hview hle hinfo hsame rfl⟩ }, rfl⟩

/-- **A supplier without debts gets its cash exactly when the pallet holds it.** In every state reached without overflow
or saturation by block advances, supplies, withdrawals, loans, repayments, new pools and calls of the other pallets, for
an account without debts and a positive amount that is at most its view and the cash of the accrued pool: the withdrawal
returns `Ok` in every build and the account has exactly that much more, if and only if the pallet account holds the
amount. The last three hypotheses are that what the call computes does not overflow or saturate: the accrual and the
view, `get_user_info`, and the credit. -/
theorem withdraw_available_iff (h : Reached cfg (CustodyStep cfg) s) (hdebts : s.lending.debts.assets u = [])
    (hx : x ≠ 0) (hpool : s.lending.pools a = some pool) (hle : x ≤ w)
    (hcash : x.toNat + q.debt.toNat ≤ q.supply.toNat) (hq : accrueInterest .strict s.blockNumber pool = some q)
    (hview : getUserSupplyWithInterest .strict s a u = some w) (hinfo : (getUserInfo .strict s u).isSome)
    (hcredit : (s.assets.balances (a, u)).toNat + x.toNat < 2 ^ 128) :
    (∃ s', (∀ p, dispatch cfg p s (.signed u) (.withdraw a x) = some (.ok (), s')) ∧
      (s'.assets.balances (a, u)).toNat = (s.assets.balances (a, u)).toNat + x.toNat) ↔
    x ≤ s.assets.balances (a, cfg.accountId) := by
  have hsupply : view .strict s a u .supply = some w := hview
  have hvalue := view_value hpool hq hsupply
  constructor
  · rintro ⟨s', hd, _⟩
    obtain ⟨d, _⟩ := dispatch_posted (hd .strict) (rfl : Call.entry (.withdraw a x) = some (.supply, false, a, x))
    cases hpool.symm.trans d.stored
    cases hq.symm.trans d.accrues
    cases hvalue.symm.trans d.value_eq
    have hamount : d.amount = x := d.amount_eq.trans (if_neg (BitVec.not_lt.mpr hle))
    have hcovered : d.amount ≤ s.assets.balances (a, cfg.accountId) := d.covered.2
    rwa [hamount] at hcovered
  · intro hheld
    have hrec : ((s.lending.book .supply).records (a, u)).isSome :=
      isSome_of_value hvalue (Book.ne_zero_of_toNat hx (BitVec.le_def.mp hle))
    have hu : u ≠ cfg.accountId := by
      rintro rfl
      rw [pallet_unsupplied h .supply a] at hrec
      cases hrec
    have hlisted : a ∈ s.lending.supplies.assets u := ((reached_listed h.forget) .supply).listed u a hrec
    obtain ⟨d, hamount⟩ :=
      withdrawal_posting hlisted hdebts hpool hq hsupply hinfo hx hle hcash hheld hu hcredit
    refine ⟨d.result, fun p => ?_, ?_⟩
    · exact mono_dispatch cfg s (.signed u) (.withdraw a x) (Profile.strict_le p) d.withdraw_eq
    · have hpays := d.pays
      change s.assets.transfer .strict cfg.accountId a u d.amount = some (.ok d.assets) at hpays
      rw [hamount] at hpays
      show (d.assets.balances (a, u)).toNat = _
      rw [payee_after hpays hu.symm, if_pos rfl, BitVec.toNat_add, Nat.mod_eq_of_lt hcredit]

/-- User `2` has a loan in asset `0` for a thousand blocks, and user `1` takes most of what is left. -/
theorem withdraw_available_mock : ∃ s s', Reached mockConfig (CustodyStep mockConfig) s ∧
    (∀ p, dispatch mockConfig p s (.signed 1) (.withdraw 0 160000000000000000) = some (.ok (), s')) ∧
    (s'.assets.balances (0, 1)).toNat = (s.assets.balances (0, 1)).toNat + 160000000000000000 := by
  obtain ⟨s, pool, q, w, s₀, hs₀, hs, hdebts, hpool, hq, hview, hinfo, hle, hcash, hcredit, hheld⟩ : ∃ s pool q w s₀,
      genesis .release mockGenesis = some s₀ ∧
      exec (guarded (step mockConfig .release) (CustodyStep mockConfig)) s₀
        [.advance 1, .call (.signed 1) (.assets (.transferAsset 1 2 100000000000000000)),
          .call (.signed 1) (.lending (.supply 0 200000000000000000)),
          .call (.signed 2) (.lending (.supply 1 100000000000000000)),
          .call (.signed 2) (.lending (.borrow 0 30000000000000000)), .advance 1001] = some s ∧
      s.lending.debts.assets 1 = [] ∧ s.lending.pools 0 = some pool ∧
      accrueInterest .strict s.blockNumber pool = some q ∧ getUserSupplyWithInterest .strict s 0 1 = some w ∧
      (getUserInfo .strict s 1).isSome ∧ (160000000000000000 : Balance) ≤ w ∧
      (160000000000000000 : Balance).toNat + q.debt.toNat ≤ q.supply.toNat ∧
      (s.assets.balances (0, 1)).toNat + (160000000000000000 : Balance).toNat < 2 ^ 128 ∧
      160000000000000000 ≤ s.assets.balances (0, mockConfig.accountId) :=
    ⟨_, _, _, _, _, rfl, rfl, rfl, rfl, rfl, rfl, rfl, by decide, by decide, by decide, by decide⟩
  have hreached : Reached mockConfig (CustodyStep mockConfig) s := ⟨mockGenesis, s₀, hs₀, run_of_exec hs⟩
  obtain ⟨s', hd, hpaid⟩ := (withdraw_available_iff hreached hdebts (by decide) hpool hle hcash hq hview hinfo
    hcredit).mpr hheld
  exact ⟨s, s', hreached, hd, hpaid⟩

/-- User `1` has borrowed half of what user `2` supplied, both past 400 units of `10 ^ 18`. The accrual of one block
credits a unit that it does not charge, so the cash of the pool is a unit more than the pallet holds. -/
theorem cash_not_held : ∃ s pool q w s', Reached mockConfig (CustodyStep mockConfig) s ∧
    s.lending.debts.assets 2 = [] ∧ s.lending.pools 0 = some pool ∧
    accrueInterest .strict s.blockNumber pool = some q ∧ getUserSupplyWithInterest .strict s 0 2 = some w ∧
    (200000000000030000001 : Balance) ≤ w ∧ (200000000000030000001 : Balance).toNat + q.debt.toNat ≤ q.supply.toNat ∧
    dispatch mockConfig .strict s (.signed 2) (.withdraw 0 200000000000030000001) =
      some (.error (.lending .transferFailed), s') := by
  obtain ⟨s, pool, q, w, s', s₀, hs₀, hs, hdebts, hpool, hq, hview, hle, hcash, hd⟩ : ∃ s pool q w s' s₀,
      genesis .release richGenesis = some s₀ ∧
      exec (guarded (step mockConfig .release) (CustodyStep mockConfig)) s₀
        [.advance 1, .call (.signed 1) (.assets (.transferAsset 0 2 400000000000060000000)),
          .call (.signed 2) (.lending (.supply 0 400000000000060000000)),
          .call (.signed 1) (.lending (.supply 1 400000000000000000000)),
          .call (.signed 1) (.lending (.borrow 0 200000000000030000000)), .advance 2] = some s ∧
      s.lending.debts.assets 2 = [] ∧ s.lending.pools 0 = some pool ∧
      accrueInterest .strict s.blockNumber pool = some q ∧ getUserSupplyWithInterest .strict s 0 2 = some w ∧
      (200000000000030000001 : Balance) ≤ w ∧ (200000000000030000001 : Balance).toNat + q.debt.toNat ≤ q.supply.toNat ∧
      dispatch mockConfig .strict s (.signed 2) (.withdraw 0 200000000000030000001) =
        some (.error (.lending .transferFailed), s') :=
    ⟨_, _, _, _, _, _, rfl, rfl, rfl, rfl, rfl, rfl, by decide, by decide, rfl⟩
  exact ⟨s, pool, q, w, s', ⟨richGenesis, s₀, hs₀, run_of_exec hs⟩, hdebts, hpool, hq, hview, hle, hcash, hd⟩

end Konomi.Lending
