import Konomi.Lending.Accrual

/-!
# What a call does to the views

`view_value` : a view returns the value of the stored record at the index of the accrued pool. Every outcome of a call
therefore changes the views by a list of entries that can be read off the outcome: `Posting.shifted`,
`Settlement.shifted`, and nothing for an `Err` (`shifted_of_touched`). `views_exact` collects them for the five calls
on positions.
-/

namespace Konomi.Lending
open Machine Assets

variable {A : Type} [DecidableEq A] {cfg : Config A} {s s' : Chain A} {a b : AssetId} {u v : A} {side : Side}
  {w w' : Balance} {pool q : Pool}

omit [DecidableEq A] in
/-- A view is the value of the stored record at the index of the accrued pool. -/
theorem view_value {p : Profile} (hpool : s.lending.pools a = some pool)
    (hq : accrueInterest p s.blockNumber pool = some q) (h : view p s a v side = some w) :
    valueAt p (q.index side) ((s.lending.book side).records (a, v)) = some w := by
  rw [view_eq, hpool] at h
  obtain ⟨I, hI, h⟩ := Option.bind_eq_some_iff.mp h
  rw [← indexNow_eq hq hI]
  exact h

omit [DecidableEq A] in
theorem view_congr {p : Profile} (s s' : Chain A) (hblock : s'.blockNumber = s.blockNumber)
    (hpool : s'.lending.pools a = s.lending.pools a)
    (hrec : (s'.lending.book side).records (a, v) = (s.lending.book side).records (a, v)) :
    view p s' a v side = view p s a v side := by
  rw [view_eq, view_eq, hblock, hpool, hrec]

/-- Every view that returns before and after changes by `change`. -/
def Shifted (s s' : Chain A) (change : AssetId → A → Side → Int) : Prop :=
  ∀ b v side w w', view .release s b v side = some w → view .release s' b v side = some w' →
    (w'.toNat : Int) = w.toNat + change b v side

/-- The change of one view by `m`. -/
def entry (a : AssetId) (u : A) (side : Side) (m : Int) (b : AssetId) (v : A) (side' : Side) : Int :=
  if b = a ∧ v = u ∧ side' = side then m else 0

theorem entry_of_ne {side' : Side} (m : Int) (h : ¬ (b = a ∧ v = u ∧ side' = side)) :
    entry a u side m b v side' = 0 := if_neg h

/-! ## Outcomes -/

section Checked
variable {p : Profile}

theorem release_accrues (hp : p ≤ .release) {now : BlockNumber} (h : accrueInterest p now pool = some q) :
    accrueInterest .release now pool = some q := mono_accrueInterest now pool hp h

omit [DecidableEq A] in
theorem view_eq_some (hpool : s.lending.pools a = some pool) (hq : accrueInterest .release s.blockNumber pool = some q)
    (hI : (indexNow .release s.blockNumber pool side).isSome)
    (hw : valueAt .release (q.index side) ((s.lending.book side).records (a, v)) = some w) :
    view .release s a v side = some w := by
  obtain ⟨I, hI⟩ := Option.isSome_iff_exists.mp hI
  rw [view_eq, hpool]
  refine Option.bind_eq_some_iff.mpr ⟨I, hI, ?_⟩
  rw [indexNow_eq hq hI]
  exact hw

/-- A record that is accrued without its pool being stored had the view it has. -/
theorem view_of_accrue (s s' : Chain A) (hp : p ≤ .release) (hblock : s'.blockNumber = s.blockNumber)
    (hpools : s'.lending.pools = s.lending.pools) (hpool : s.lending.pools a = some pool)
    (hq : accrueInterest p s.blockNumber pool = some q)
    (hbook : (s.lending.book side).accrue p (q.index side) a u = some (s'.lending.book side))
    (hw' : view .release s' b v side = some w') : view .release s b v side = some w' := by
  have hq := release_accrues hp hq
  have hbook := Book.mono_accrue _ _ _ _ hp hbook
  by_cases hk : (b, v) = (a, u)
  · obtain ⟨rfl, rfl⟩ := Prod.mk.inj hk
    have hpool' : s'.lending.pools b = some pool := by rw [hpools, hpool]
    obtain ⟨x, hx, _⟩ := Book.accrue_cases hbook
    have hval' := view_value hpool' (by rw [hblock]; exact hq) hw'
    rw [Book.valueAt_accrue hbook hx hval']
    refine view_eq_some hpool hq ?_ hx
    rw [view_eq, hpool', hblock] at hw'
    obtain ⟨I, hI, _⟩ := Option.bind_eq_some_iff.mp hw'
    rw [hI]
    rfl
  · rw [← view_congr s s' hblock (congrFun hpools b) (Book.accrue_records_of_ne hbook hk)]
    exact hw'

/-- A side whose book is as it was, or has one record rewritten at its value. -/
def Touched (p : Profile) (s s' : Chain A) (side : Side) : Prop :=
  s'.lending.book side = s.lending.book side ∨ ∃ a u pool q, s.lending.pools a = some pool ∧
    accrueInterest p s.blockNumber pool = some q ∧
    (s.lending.book side).accrue p (q.index side) a u = some (s'.lending.book side)

theorem shifted_of_touched (hp : p ≤ .release) (hblock : s'.blockNumber = s.blockNumber)
    (hpools : s'.lending.pools = s.lending.pools) (h : ∀ side, Touched p s s' side) :
    Shifted s s' (fun _ _ _ => 0) := by
  intro b v side w w' hw hw'
  rw [add_zero]
  rcases h side with hsame | ⟨a, u, pool, q, hpool, hq, hbook⟩
  · rw [view_congr s s' hblock (congrFun hpools b) (congrArg (fun bk => bk.records (b, v)) hsame), hw] at hw'
    rw [Option.some.inj hw']
  · rw [view_of_accrue s s' hp hblock hpools hpool hq hbook hw'] at hw
    rw [Option.some.inj hw]

theorem touched_setBook {bk : Book A} (hpool : s.lending.pools a = some pool)
    (hq : accrueInterest p s.blockNumber pool = some q)
    (hbook : (s.lending.book side).accrue p (q.index side) a u = some bk) (side' : Side) :
    Touched p s { s with lending := s.lending.setBook bk side } side' := by
  unfold Touched
  dsimp only
  rw [book_setBook]
  by_cases hside : side' = side
  · subst hside
    exact Or.inr ⟨a, u, pool, q, hpool, hq, by rw [if_pos rfl]; exact hbook⟩
  · exact Or.inl (if_neg hside)

theorem Assessment.touched {t : A} {payId getId : AssetId} (d : Assessment p s t payId getId)
    (hlending : s'.lending = d.lending) : ∀ side, Touched p s s' side
  | .supply => Or.inr ⟨getId, t, d.getPool, d.getAccrued, d.get_stored, d.get_accrues, by
      rw [hlending]
      exact d.supplies_eq⟩
  | .debt => Or.inr ⟨payId, t, d.payPool, d.payAccrued, d.pay_stored, d.pay_accrues, by
      rw [hlending]
      exact d.debts_eq⟩

omit [DecidableEq A] in
theorem Collateral.release {m : Balance} {positive : Bool} (hp : p ≤ .release)
    (h : Collateral p s pool a u m side positive) : Collateral .release s pool a u m side positive := by
  cases side <;> cases positive
  · obtain ⟨info, factor, value, left, required, hinfo, hfactor, hvalue, hleft, hrequired, hpassed⟩ := h
    exact ⟨info, factor, value, left, required, mono_getUserInfo s u hp hinfo, hfactor,
      Fixed.mono_mulInt _ _ hp hvalue, Mono.sub _ _ hp hleft, Fixed.mono_mulInt _ _ hp hrequired, hpassed⟩
  · trivial
  · trivial
  · obtain ⟨info, value, owed, required, hinfo, hvalue, howed, hrequired, hpassed⟩ := h
    exact ⟨info, value, owed, required, mono_getUserInfo s u hp hinfo, Fixed.mono_mulInt _ _ hp hvalue,
      Mono.add _ _ hp howed, Fixed.mono_mulInt _ _ hp hrequired, hpassed⟩

/-- What a stricter build does, the release build does. -/
def Posting.release {positive : Bool} {x : Balance} (hp : p ≤ .release) (d : Posting cfg p s u side positive a x) :
    Posting cfg .release s u side positive a x where
  pool := d.pool
  accrued := d.accrued
  value := d.value
  amount := d.amount
  value' := d.value'
  total' := d.total'
  assets := d.assets
  stored := d.stored
  accrues := release_accrues hp d.accrues
  value_eq := mono_valueAt _ _ hp d.value_eq
  amount_eq := d.amount_eq
  pays := mono_transfer _ _ _ _ _ hp d.pays
  value'_eq := mono_adjust _ _ _ hp d.value'_eq
  total'_eq := mono_adjust _ _ _ hp d.total'_eq
  checks := by
    intro hflow
    obtain ⟨touched, cash, hbook, hcash, hcovers, hcollateral⟩ := d.checks hflow
    exact ⟨touched, cash, Book.mono_accrue _ _ _ _ hp hbook, Mono.sub _ _ hp hcash, hcovers, hcollateral.release hp⟩

theorem Posting.stored_after {positive : Bool} {x : Balance} (d : Posting cfg p s u side positive a x) :
    d.result.lending.pools a = some (d.accrued.setTotal d.total' side) := by
  rw [d.result_pools, Function.update_self]

theorem Posting.lastUpdated_after {positive : Bool} {x : Balance} (d : Posting cfg p s u side positive a x) :
    (d.accrued.setTotal d.total' side).lastUpdated = s.blockNumber := by
  rw [lastUpdated_setTotal]
  exact accrueInterest_lastUpdated d.accrues

theorem Posting.accrues_after {q : Profile} {positive : Bool} {x : Balance} (d : Posting cfg p s u side positive a x) :
    accrueInterest q s.blockNumber (d.accrued.setTotal d.total' side) = some (d.accrued.setTotal d.total' side) :=
  accrueInterest_self d.lastUpdated_after

theorem Posting.view_own {positive : Bool} {x : Balance} (d : Posting cfg p s u side positive a x)
    (hw' : view .release d.result a u side = some w') : w' = d.value' := by
  have hval' := view_value d.stored_after d.accrues_after hw'
  rw [index_setTotal, d.result_book, if_pos rfl, d.book'_records] at hval'
  exact Book.valueAt_put hval'

theorem Posting.view_other {positive : Bool} {x : Balance} {side' : Side} (hp : p ≤ .release)
    (d : Posting cfg p s u side positive a x) (hne : ¬ (b = a ∧ v = u ∧ side' = side))
    (hw : view .release s b v side' = some w) (hw' : view .release d.result b v side' = some w') : w' = w := by
  have hrec := d.records_other hne
  by_cases hb : b = a
  · subst hb
    have hval := view_value d.stored (release_accrues hp d.accrues) hw
    have hval' := view_value d.stored_after d.accrues_after hw'
    rw [index_setTotal, hrec, hval] at hval'
    exact (Option.some.inj hval').symm
  · have hpools : d.result.lending.pools b = s.lending.pools b := by
      rw [d.result_pools, Function.update_of_ne hb]
    rw [view_congr s d.result rfl hpools hrec, hw] at hw'
    exact (Option.some.inj hw').symm

/-- **A call on one's own position changes one view, by the amount transferred.** -/
theorem Posting.shifted {positive : Bool} {x : Balance} (hp : p ≤ .release) (hwraps : p.wraps = false)
    (d : Posting cfg p s u side positive a x) :
    Shifted s d.result (entry a u side (if positive then (d.amount.toNat : Int) else -d.amount.toNat)) := by
  intro b v side' w w' hw hw'
  by_cases hown : b = a ∧ v = u ∧ side' = side
  · obtain ⟨rfl, rfl, rfl⟩ := hown
    have hval := view_value d.stored (release_accrues hp d.accrues) hw
    have hvalue : d.value = w := Option.some.inj ((mono_valueAt _ _ hp d.value_eq).symm.trans hval)
    rw [← hvalue, d.view_own hw', toNat_adjust hwraps d.value'_eq]
    simp [entry]
  · rw [d.view_other hp hown hw hw', entry_of_ne _ hown, add_zero]

namespace Settlement
variable {t : A} {payId getId : AssetId} {x : Balance}

theorem pools_of_mem (d : Settlement cfg p s u t payId getId x) (hb : b = payId ∨ b = getId) :
    ∃ pool q, s.lending.pools b = some pool ∧ accrueInterest p s.blockNumber pool = some q ∧
      d.result.lending.pools b = some q ∧ (b = payId → q = d.payAccrued) ∧ (b = getId → q = d.getAccrued) := by
  have hboth : payId = getId → d.payAccrued = d.getAccrued := by
    rintro rfl
    have hpool := d.pay_stored.symm.trans d.get_stored
    have haccrued := d.pay_accrues
    rw [Option.some.inj hpool, d.get_accrues] at haccrued
    exact (Option.some.inj haccrued).symm
  by_cases hpay : b = payId
  · subst hpay
    exact ⟨d.payPool, d.payAccrued, d.pay_stored, d.pay_accrues, Function.update_self .., fun _ => rfl, hboth⟩
  · have hget := hb.resolve_left hpay
    subst hget
    refine ⟨d.getPool, d.getAccrued, d.get_stored, d.get_accrues, ?_, fun h => absurd h hpay, fun _ => rfl⟩
    exact (Function.update_of_ne hpay ..).trans (Function.update_self ..)

theorem pools_of_not_mem (d : Settlement cfg p s u t payId getId x) (hb : ¬ (b = payId ∨ b = getId)) :
    d.result.lending.pools b = s.lending.pools b := by
  have hpay : b ≠ payId := fun h => hb (Or.inl h)
  have hget : b ≠ getId := fun h => hb (Or.inr h)
  exact (Function.update_of_ne hpay ..).trans (Function.update_of_ne hget ..)

theorem view_seized (d : Settlement cfg p s u t payId getId x)
    (hw' : view .release d.result getId t .supply = some w') : w' = d.supplied' := by
  obtain ⟨pool, q, _, hq, hpool', _, hget⟩ := d.pools_of_mem (Or.inr rfl)
  have hval' := view_value hpool' (accrueInterest_self (accrueInterest_lastUpdated hq)) hw'
  rw [hget rfl] at hval'
  exact Book.valueAt_put hval'

theorem view_paid (d : Settlement cfg p s u t payId getId x)
    (hw' : view .release d.result payId t .debt = some w') : w' = d.owed' := by
  obtain ⟨pool, q, _, hq, hpool', hpay, _⟩ := d.pools_of_mem (Or.inl rfl)
  have hval' := view_value hpool' (accrueInterest_self (accrueInterest_lastUpdated hq)) hw'
  rw [hpay rfl] at hval'
  exact Book.valueAt_put hval'

theorem records_other (d : Settlement cfg p s u t payId getId x) (hget : ¬ (b = getId ∧ v = t ∧ side = .supply))
    (hpay : ¬ (b = payId ∧ v = t ∧ side = .debt)) :
    (d.result.lending.book side).records (b, v) = (s.lending.book side).records (b, v) := by
  cases side with
  | supply => exact Book.put_records_of_ne _ _ _ (fun e => hget ⟨(Prod.mk.inj e).1, (Prod.mk.inj e).2, rfl⟩)
  | debt => exact Book.put_records_of_ne _ _ _ (fun e => hpay ⟨(Prod.mk.inj e).1, (Prod.mk.inj e).2, rfl⟩)

theorem view_other (hp : p ≤ .release) (d : Settlement cfg p s u t payId getId x)
    (hget : ¬ (b = getId ∧ v = t ∧ side = .supply)) (hpay : ¬ (b = payId ∧ v = t ∧ side = .debt))
    (hw : view .release s b v side = some w) (hw' : view .release d.result b v side = some w') : w' = w := by
  have hrec := d.records_other hget hpay
  by_cases hb : b = payId ∨ b = getId
  · obtain ⟨pool, q, hpool, hq, hpool', _⟩ := d.pools_of_mem hb
    have hval := view_value hpool (release_accrues hp hq) hw
    have hval' := view_value hpool' (accrueInterest_self (accrueInterest_lastUpdated hq)) hw'
    rw [hrec, hval] at hval'
    exact (Option.some.inj hval').symm
  · rw [view_congr s d.result rfl (d.pools_of_not_mem hb) hrec, hw] at hw'
    exact (Option.some.inj hw').symm

/-- **A liquidation lowers two views of the target, by what was seized and by what was paid.** -/
theorem shifted (hp : p ≤ .release) (hwraps : p.wraps = false) (d : Settlement cfg p s u t payId getId x) :
    Shifted s d.result (fun b v side =>
      entry getId t .supply (-d.seized.toNat) b v side + entry payId t .debt (-d.paid.toNat) b v side) := by
  intro b v side w w' hw hw'
  dsimp only
  by_cases hget : b = getId ∧ v = t ∧ side = .supply
  · obtain ⟨rfl, rfl, rfl⟩ := hget
    have hval := view_value d.get_stored (release_accrues hp d.get_accrues) hw
    have hsupplied : d.supplied = w := Option.some.inj ((mono_valueAt _ _ hp d.supplied_eq).symm.trans hval)
    rw [d.view_seized hw', toNat_adjust hwraps d.supplied'_eq, hsupplied]
    simp [entry]
  · by_cases hpay : b = payId ∧ v = t ∧ side = .debt
    · obtain ⟨rfl, rfl, rfl⟩ := hpay
      have hval := view_value d.pay_stored (release_accrues hp d.pay_accrues) hw
      have howed : d.owed = w := Option.some.inj ((mono_valueAt _ _ hp d.owed_eq).symm.trans hval)
      rw [d.view_paid hw', toNat_adjust hwraps d.owed'_eq, howed]
      simp [entry]
    · rw [d.view_other hp hget hpay hw hw', entry_of_ne _ hget, entry_of_ne _ hpay]
      omega

end Settlement

end Checked

/-! ## Calls -/

/-- What the views have to say about a signed call: an `Err` changes none; an `Ok` changes exactly the views of the
position it is about, by the amounts of its transfers. -/
def ViewsExact (cfg : Config A) (s : Chain A) (u : A) : Call A → Except DispatchError Unit → Chain A → Prop
  | _, .error _, s' => Shifted s s' (fun _ _ _ => 0)
  | .supply a _, .ok (), s' => ∃ m, s.assets.transfer .release u a cfg.accountId m = some (.ok s'.assets) ∧
      Shifted s s' (entry a u .supply m.toNat)
  | .withdraw a _, .ok (), s' => ∃ m, s.assets.transfer .release cfg.accountId a u m = some (.ok s'.assets) ∧
      Shifted s s' (entry a u .supply (-m.toNat))
  | .borrow a _, .ok (), s' => ∃ m, s.assets.transfer .release cfg.accountId a u m = some (.ok s'.assets) ∧
      Shifted s s' (entry a u .debt m.toNat)
  | .repay a _, .ok (), s' => ∃ m, s.assets.transfer .release u a cfg.accountId m = some (.ok s'.assets) ∧
      Shifted s s' (entry a u .debt (-m.toNat))
  | .liquidate t payId getId _, .ok (), s' => ∃ paid seized st,
      s.assets.transfer .release u payId cfg.accountId paid = some (.ok st) ∧
      st.transfer .release cfg.accountId getId u seized = some (.ok s'.assets) ∧
      Shifted s s' (fun b v side =>
        entry getId t .supply (-seized.toNat) b v side + entry payId t .debt (-paid.toNat) b v side)
  -- a new pool is not a call on a position
  | .initPool _ _, .ok (), _ => True

theorem Posting.viewsExact {positive : Bool} {x : Balance} {call : Call A}
    (entry : call.entry = some (side, positive, a, x)) (d : Posting cfg .checked s u side positive a x) :
    ViewsExact cfg s u call (.ok ()) d.result := by
  have hpays := mono_transfer _ _ _ _ _ Profile.checked_le_release d.pays
  have hshift := d.shifted Profile.checked_le_release rfl
  cases call with
  | supply a x =>
    cases entry
    exact ⟨d.amount, hpays, hshift⟩
  | withdraw a x =>
    cases entry
    exact ⟨d.amount, hpays, hshift⟩
  | borrow a x =>
    cases entry
    exact ⟨d.amount, hpays, hshift⟩
  | repay a x =>
    cases entry
    exact ⟨d.amount, hpays, hshift⟩
  | liquidate t payId getId x => cases entry
  | initPool id c => cases entry

/-- **Same-block accounting is exact.** A call that completes without overflow changes the views of its own position
by the amounts it transfers and no other view; a call that returns `Err` changes none. -/
theorem views_exact {call : Call A} {r : Except DispatchError Unit}
    (h : dispatch cfg .release s (.signed u) call = some (r, s'))
    (hfits : (dispatch cfg .checked s (.signed u) call).isSome) : ViewsExact cfg s u call r s' := by
  have h := (mono_dispatch cfg s (.signed u) call).eq_of_isSome Profile.checked_le_release h hfits
  rcases dispatch_cases h with ⟨v, hv, hstep⟩ | ⟨⟨e, rfl⟩, rfl⟩ | ⟨id, c, rfl, rfl, rfl⟩
  · cases hv
    have hle := Profile.checked_le_release
    cases hstep with
    | refused e =>
      cases call <;> exact shifted_of_touched hle rfl rfl (fun _ => Or.inl rfl)
    | touched side e entry stored accrues book =>
      have htouched := touched_setBook (p := .checked) stored accrues book
      cases call <;> exact shifted_of_touched hle rfl (pools_setBook ..) htouched
    | posted side positive entry d => exact d.viewsExact entry
    | assessed e d => exact shifted_of_touched hle rfl rfl (d.touched rfl)
    | halfway e d hpays hrefuses => exact shifted_of_touched hle rfl rfl (d.touched rfl)
    | settled d =>
      exact ⟨d.paid, d.seized, d.paidAssets, mono_transfer _ _ _ _ _ hle d.pays,
        mono_transfer _ _ _ _ _ hle d.seizes, d.shifted hle rfl⟩
  · cases call <;> exact shifted_of_touched Profile.checked_le_release rfl rfl (fun _ => Or.inl rfl)
  · trivial

/-- The liquidation of the tests: user `1` pays 10000 of the debt of user `2`, whose collateral has lost its price. -/
theorem views_exact_liquidation : ∃ s s', play mockConfig .release mockGenesis
      [.advance 1, .call (.signed 1) (.lending (.supply 0 100000)), .call (.signed 2) (.lending (.supply 1 100000)),
        .call (.signed 2) (.lending (.borrow 0 10000)),
        .call .root (.assets (.setPrice 1 ⟨5000000000000000000⟩)), .advance 1001] = some s ∧
    dispatch mockConfig .release s (.signed 1) (.liquidate 2 0 1 10000) = some (.ok (), s') ∧
    ViewsExact mockConfig s 1 (.liquidate 2 0 1 10000) (.ok ()) s' :=
  ⟨_, _, rfl, rfl, views_exact rfl rfl⟩

end Konomi.Lending
