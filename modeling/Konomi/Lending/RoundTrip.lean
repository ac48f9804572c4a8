import Konomi.Lending.Health
import Konomi.Lending.Checked

/-!
# Round trips within a block

A supply that is withdrawn again in the same block, and a loan that is repaid, find the pool accrued and the record at
its index. `Posting.back` is the posting of the way back, `withdraw_eq` and `repay_eq` say that the
calls make it.

What is supplied may be worth more by itself than it adds to the worth of the position, since both are rounded. The
collateral check of `withdraw` then passes only if there is room for the difference (`RoomToReturn`). Nothing else stops
a user that was not liquidatable (`round_trips_iff`).
-/

namespace Konomi.Lending
open Machine Assets

variable {A : Type} [DecidableEq A] {cfg : Config A} {p : Profile} {s s' : Chain A} {u v : A} {a b : AssetId}
  {side : Side} {x : Balance} {pool q : Pool}

/-! ## Postings are made -/

namespace Posting

theorem accrue_own (d : Posting cfg p s u side false a x) :
    ∃ touched, (s.lending.book side).accrue p (d.accrued.index side) a u = some touched ∧
      touched.records (a, u) = some ⟨d.value, d.accrued.index side⟩ ∧
      touched.update p (d.accrued.index side) a u d.amount false =
        some ((s.lending.book side).put (d.accrued.index side) a u d.value') := by
  refine ⟨_, Book.accrue_eq d.recorded d.value_eq, Function.update_self .., ?_⟩
  rw [Book.update_self (Function.update_self ..) (index_ne_zero d.value_eq d.value_ne_zero) d.value'_eq,
    Book.put_of_records]

theorem withdraw_eq (d : Posting cfg p s u .supply false a x) :
    withdraw cfg p s u a x = some (.ok (), d.result) := by
  obtain ⟨touched, hbook, hrec, hupdate⟩ := d.accrue_own
  obtain ⟨touched', cash, hbook', hcash, hcovers, info, factor, value, left, required, hinfo, hfactor, hvalue, hleft,
    hrequired, hpassed⟩ := d.checks rfl
  cases hbook.symm.trans hbook'
  have hamount : (if d.value < x then d.value else x) = d.amount := d.amount_eq.symm
  unfold withdraw
  rw [d.stored]
  refine Option.bind_eq_some_iff.mpr ⟨_, d.accrues, ?_⟩
  refine Option.bind_eq_some_iff.mpr ⟨_, Option.bind_eq_some_iff.mpr ⟨touched, hbook, rfl⟩, ?_⟩
  dsimp only
  rw [hrec]
  dsimp only
  rw [hamount]
  refine Option.bind_eq_some_iff.mpr ⟨info, hinfo, ?_⟩
  refine Option.bind_eq_some_iff.mpr ⟨factor, hfactor, Option.bind_eq_some_iff.mpr ⟨value, hvalue, ?_⟩⟩
  refine Option.bind_eq_some_iff.mpr ⟨left, hleft, Option.bind_eq_some_iff.mpr ⟨required, hrequired, ?_⟩⟩
  rw [if_neg hpassed]
  refine Option.bind_eq_some_iff.mpr ⟨cash, hcash, ?_⟩
  rw [if_neg hcovers]
  refine Option.bind_eq_some_iff.mpr ⟨_, d.pays, ?_⟩
  refine Option.bind_eq_some_iff.mpr ⟨_, Option.bind_eq_some_iff.mpr ⟨_, hupdate, rfl⟩, ?_⟩
  exact Option.bind_eq_some_iff.mpr ⟨_, Option.bind_eq_some_iff.mpr ⟨_, d.total'_eq, rfl⟩, rfl⟩

theorem repay_eq (d : Posting cfg p s u .debt false a x) : repay cfg p s u a x = some (.ok (), d.result) := by
  obtain ⟨touched, hbook, hrec, hupdate⟩ := d.accrue_own
  have hamount : (if d.value < x then d.value else x) = d.amount := d.amount_eq.symm
  unfold repay
  rw [d.stored]
  refine Option.bind_eq_some_iff.mpr ⟨_, d.accrues, ?_⟩
  refine Option.bind_eq_some_iff.mpr ⟨_, Option.bind_eq_some_iff.mpr ⟨touched, hbook, rfl⟩, ?_⟩
  dsimp only
  rw [hrec]
  dsimp only
  rw [hamount]
  refine Option.bind_eq_some_iff.mpr ⟨_, d.pays, ?_⟩
  refine Option.bind_eq_some_iff.mpr ⟨_, Option.bind_eq_some_iff.mpr ⟨_, hupdate, rfl⟩, ?_⟩
  exact Option.bind_eq_some_iff.mpr ⟨_, Option.bind_eq_some_iff.mpr ⟨_, d.total'_eq, rfl⟩, rfl⟩

end Posting

/-! ## The way back -/

theorem listAfter_back {v v' : Balance} {l : List AssetId} (hv' : v' ≠ 0) (hmem : a ∈ l ↔ v ≠ 0) :
    Book.listAfter a v false (Book.listAfter a v' true l) = l := by
  have hadd : Book.listAfter a v' true l = if a ∉ l then l ++ [a] else l := by
    unfold Book.listAfter
    dsimp only
    rw [if_pos hv']
    simp
  have hdrop : ∀ k, Book.listAfter a v false k = if v ≠ 0 then k else k.filter (· ≠ a) := by
    intro k
    unfold Book.listAfter
    simp only [Bool.false_eq_true, false_and, if_false]
  rw [hdrop, hadd]
  by_cases ha : a ∈ l
  · rw [if_neg (not_not.mpr ha), if_pos (hmem.mp ha)]
  · have hrest : l.filter (· ≠ a) = l := by
      refine List.filter_eq_self.mpr fun b hb => ?_
      simp only [decide_eq_true_eq]
      rintro rfl
      exact ha hb
    rw [if_pos ha, if_neg (mt hmem.mpr ha), List.filter_append, hrest]
    simp

theorem adjust_undone {v v' m : Balance} (h : adjust p true v m = some v') : adjust .release false v' m = some v := by
  have hsum : v' = v + m := add_eq h
  rw [hsum]
  exact sub_release.trans (congrArg some (by bv_omega))

theorem accrue_self {bk : Book A} {I : FixedU128} {w : Balance} (hr : bk.records (a, u) = some ⟨w, I⟩)
    (hI : I.toNat ≠ 0) : bk.accrue p I a u = some bk := by
  have hvalue : valueAt p I (bk.records (a, u)) = some w := by
    rw [hr, valueAt, accrued_self, if_neg hI]
  rw [Book.accrue_eq (by rw [hr]; rfl) hvalue, ← hr, Function.update_eq_self]

namespace Posting
variable (d : Posting cfg p s u side true a x)

theorem record_after (hwraps : p.wraps = false) :
    (d.result.lending.book side).records (a, u) = some ⟨d.value', d.accrued.index side⟩ := by
  rw [d.result_book, if_pos rfl, d.book'_records, Book.put_records, Function.update_self,
    if_pos (d.added_ne_zero hwraps)]

theorem amount_added : d.amount = x := d.amount_eq

theorem value'_added (hwraps : p.wraps = false) : d.value'.toNat = d.value.toNat + x.toNat := by
  have hsum : d.value'.toNat = d.value.toNat + d.amount.toNat := toNat_add hwraps d.value'_eq
  rw [d.amount_added] at hsum
  exact hsum

theorem value_back (hwraps : p.wraps = false) (hI : (d.accrued.index side).toNat ≠ 0) :
    valueAt .release ((d.accrued.setTotal d.total' side).index side) ((d.result.lending.book side).records (a, u)) =
      some d.value' := by
  rw [d.record_after hwraps, index_setTotal, valueAt, accrued_self, if_neg hI]

theorem amount_back (hwraps : p.wraps = false) : x = transferred false d.value' x := by
  have hsum := d.value'_added hwraps
  have hle : ¬ d.value' < x := BitVec.not_lt.mpr (BitVec.le_def.mpr (by omega))
  exact (if_neg hle).symm

theorem pays_back (hwraps : p.wraps = false) :
    d.result.assets.transfer .release (payer cfg u side false) a (payee cfg u side false) x = some (.ok s.assets) := by
  obtain ⟨hpayer, hpayee⟩ := payer_not cfg u side true
  have hpays := transfer_undone hwraps d.pays
  rw [d.amount_added] at hpays
  rw [show payer cfg u side false = _ from hpayer, show payee cfg u side false = _ from hpayee]
  exact hpays

theorem value'_back : adjust .release false d.value' x = some d.value := by
  have hadded := adjust_undone d.value'_eq
  rwa [d.amount_added] at hadded

theorem total_back : adjust .release false ((d.accrued.setTotal d.total' side).total side) x =
    some (d.accrued.total side) := by
  have hadded := adjust_undone d.total'_eq
  rw [d.amount_added] at hadded
  rwa [total_setTotal, if_pos rfl]

/-- The checks of the way back pass on the state that is stored. -/
def BackChecks : Prop :=
  inflow side false = false → ∃ cash,
    Profile.sub .release (d.accrued.setTotal d.total' side).supply (d.accrued.setTotal d.total' side).debt = some cash ∧
    ¬ cash < x ∧ Collateral .release d.result (d.accrued.setTotal d.total' side) a u x side false

theorem checks_back (hwraps : p.wraps = false) (hI : (d.accrued.index side).toNat ≠ 0) (hchecks : d.BackChecks)
    (hflow : inflow side false = false) : ∃ touched cash,
      (d.result.lending.book side).accrue .release ((d.accrued.setTotal d.total' side).index side) a u = some touched ∧
      Profile.sub .release (d.accrued.setTotal d.total' side).supply (d.accrued.setTotal d.total' side).debt = some cash ∧
      ¬ cash < x ∧ Collateral .release { d.result with lending := d.result.lending.setBook touched side }
        (d.accrued.setTotal d.total' side) a u x side false := by
  obtain ⟨cash, hcash, hcovers, hcollateral⟩ := hchecks hflow
  refine ⟨d.result.lending.book side, cash, ?_, hcash, hcovers, ?_⟩
  · rw [index_setTotal]
    exact accrue_self (d.record_after hwraps) hI
  · have hsame : d.result.lending.setBook (d.result.lending.book side) side = d.result.lending := by
      cases side <;> rfl
    rw [hsame]
    exact hcollateral

/-- **What has been added can be taken back**, if the checks of the way back pass. -/
def back (hwraps : p.wraps = false) (hI : (d.accrued.index side).toNat ≠ 0) (hchecks : d.BackChecks) :
    Posting cfg .release d.result u side false a x where
  pool := d.accrued.setTotal d.total' side
  accrued := d.accrued.setTotal d.total' side
  value := d.value'
  amount := x
  value' := d.value
  total' := d.accrued.total side
  assets := s.assets
  stored := d.stored_after
  accrues := d.accrues_after
  value_eq := d.value_back hwraps hI
  amount_eq := d.amount_back hwraps
  pays := d.pays_back hwraps
  value'_eq := d.value'_back
  total'_eq := d.total_back
  checks := d.checks_back hwraps hI hchecks

end Posting

/-! ## What a round trip leaves -/

/-- The balances, the views and the lists are as they were, and the pool of `a` is stored as `q`. -/
structure Neutral (s s' : Chain A) (a : AssetId) (q : Pool) : Prop where
  assets : s'.assets = s.assets
  views : ∀ b v side, view .release s' b v side = view .release s b v side
  lists : ∀ side v, (s'.lending.book side).assets v = (s.lending.book side).assets v
  pools : s'.lending.pools = Function.update s.lending.pools a (some q)

omit [DecidableEq A] in
/-- A view of a pool with no more debt than supply is the value of the record, whether or not that can be computed. -/
theorem view_of_tame (hpool : s.lending.pools a = some pool) (hq : accrueInterest .release s.blockNumber pool = some q)
    (htame : Tame q) (v : A) (side : Side) :
    view .release s a v side = valueAt .release (q.index side) ((s.lending.book side).records (a, v)) := by
  rw [view_eq, hpool]
  dsimp only
  rw [indexNow_of_tame hq htame]
  rfl

section Trip
variable (d : Posting cfg .checked s u side true a x) (hI : (d.accrued.index side).toNat ≠ 0)
  (hchecks : d.BackChecks)

theorem trip_records (side' : Side) : ((d.back rfl hI hchecks).result.lending.book side').records =
    if side' = side then Function.update (s.lending.book side').records (a, u)
      (if d.value ≠ 0 then some ⟨d.value, d.accrued.index side⟩ else none)
    else (s.lending.book side').records := by
  rw [(d.back rfl hI hchecks).result_book]
  split
  · rename_i hside
    subst hside
    have hindex : (d.back rfl hI hchecks).accrued.index side' = d.accrued.index side' := index_setTotal ..
    have hvalue : (d.back rfl hI hchecks).value' = d.value := rfl
    rw [(d.back rfl hI hchecks).book'_records, Book.put_records, d.result_book, if_pos rfl, d.book'_records,
      Book.put_records, Function.update_idem, hindex, hvalue]
  · rw [d.result_book, if_neg ‹_›]

theorem trip_lists (hs : Orderly s) (side' : Side) (v : A) :
    ((d.back rfl hI hchecks).result.lending.book side').assets v = (s.lending.book side').assets v := by
  rw [(d.back rfl hI hchecks).result_book]
  split
  · rename_i hside
    subst hside
    have hacc : AccruesTo s a d.pool d.accrued := ⟨d.stored, release_accrues Profile.checked_le_release d.accrues⟩
    have hlisted : a ∈ (s.lending.book side').assets u ↔ d.value ≠ 0 :=
      hs.listed_iff hacc (noWrap_of_checked d.accrues) (mono_valueAt _ _ Profile.checked_le_release d.value_eq)
    have hbook : (d.back rfl hI hchecks).book' = (d.book').post
        ((d.accrued.setTotal d.total' side').index side') a u d.value false := by
      show Book.put (d.result.lending.book side') _ a u d.value = Book.put d.book' _ a u d.value
      rw [d.result_book, if_pos rfl]
      rfl
    have hbook' : d.book' = (s.lending.book side').post (d.accrued.index side') a u d.value' true := rfl
    rw [hbook, hbook', Book.post_eq, Book.post_eq]
    dsimp only
    rw [Function.update_self, Function.update_idem, listAfter_back (d.added_ne_zero rfl) hlisted,
      Function.update_eq_self]
  · rw [d.result_book, if_neg ‹_›]

theorem trip_pools : (d.back rfl hI hchecks).result.lending.pools =
    Function.update s.lending.pools a (some d.accrued) := by
  have hpool : (d.back rfl hI hchecks).accrued.setTotal (d.back rfl hI hchecks).total' side = d.accrued := by
    show (d.accrued.setTotal d.total' side).setTotal (d.accrued.total side) side = d.accrued
    cases side <;> rfl
  rw [(d.back rfl hI hchecks).result_pools, hpool, d.result_pools, Function.update_idem]

/-- With no more debt than supply in the pool, every view can be computed before and after, and is the same. -/
theorem trip_views (htame : Tame d.accrued) (b : AssetId) (v : A) (side' : Side) :
    view .release (d.back rfl hI hchecks).result b v side' = view .release s b v side' := by
  have haccrues := release_accrues Profile.checked_le_release d.accrues
  have hrec := congrFun (trip_records d hI hchecks side') (b, v)
  by_cases hb : b = a
  · subst hb
    have hpool : (d.back rfl hI hchecks).result.lending.pools b = some d.accrued := by
      rw [trip_pools, Function.update_self]
    have hself := accrueInterest_self (p := .release) (accrueInterest_lastUpdated d.accrues)
    rw [view_of_tame hpool hself htame, view_of_tame d.stored haccrues htame, hrec]
    split
    · rename_i hside
      subst hside
      by_cases hv : v = u
      · subst hv
        have hvalue : valueAt .release _ _ = some d.value := mono_valueAt _ _ Profile.checked_le_release d.value_eq
        rw [Function.update_self, hvalue]
        split
        · rw [valueAt, accrued_self, if_neg hI]
        · rename_i hzero
          rw [not_not.mp hzero]
          rfl
      · rw [Function.update_of_ne (fun h => hv (Prod.mk.inj h).2)]
    · rfl
  · refine view_congr s _ rfl ?_ ?_
    · rw [trip_pools, Function.update_of_ne hb]
    · rw [hrec]
      split
      · rw [Function.update_of_ne (fun h => hb (Prod.mk.inj h).1)]
      · rfl

theorem trip_neutral (hs : Orderly s) (htame : Tame d.accrued) :
    Neutral s (d.back rfl hI hchecks).result a d.accrued where
  assets := rfl
  views := trip_views d hI hchecks htame
  lists := trip_lists d hI hchecks hs
  pools := trip_pools d hI hchecks

end Trip

/-! ## The collateral check of the way back -/

/-- A supply of `x` counts for no more by itself than it adds to what the position counts for, or the debt leaves room
for the difference. -/
def RoomToReturn (s : Chain A) (u : A) (a : AssetId) (x : Balance) : Prop :=
  ∀ pool q supplied info factor, s.lending.pools a = some pool →
    accrueInterest .release s.blockNumber pool = some q →
    valueAt .release q.totalSupplyIndex (s.lending.supplies.records (a, u)) = some supplied →
    getUserInfo .release s u = some info → (s.assets.getRate a).mul pool.safeFactor = some factor →
    info.2.2.toNat + (worth factor x).toNat + (worth factor supplied).toNat ≤
      info.2.1.toNat + (worth factor (supplied + x)).toNat

section Supply
variable {info info₁ : Balance × Balance × Balance} (d : Posting cfg .checked s u .supply true a x)

theorem listed_after : a ∈ (d.result.lending.book .supply).assets u := by
  rw [d.result_book, if_pos rfl]
  show a ∈ (Book.enlist _ a u).assets u
  exact Book.mem_enlist.mpr (Or.inr rfl)

theorem info_before (hs : AllListed s) (htame : Tame d.accrued)
    (hinfo₁ : getUserInfo .release d.result u = some info₁) :
    ∃ info, getUserInfo .release s u = some info := by
  have hle := Profile.checked_le_release
  refine getUserInfo_returns fun side b hb => ?_
  have hlisted : b ∈ (d.result.lending.book side).assets u := by
    cases side with
    | debt =>
      rw [d.result_book, if_neg (by decide)]
      exact hb
    | supply =>
      by_cases hba : b = a
      · rw [hba]
        exact listed_after d
      · exact (((d.release hle).replaces hs).mem b hba).mpr hb
  obtain ⟨n, r, hn, hr⟩ := (info_total hinfo₁ side).1 b hlisted
  have hweight : weight s b side = some r := by
    rw [← (d.release hle).weight_result]
    exact hr
  by_cases hba : b = a
  · subst hba
    have haccrues := release_accrues hle d.accrues
    cases side with
    | supply =>
      have hvalue : valueAt .release _ _ = some d.value := mono_valueAt _ _ hle d.value_eq
      exact ⟨d.value, r, (view_of_tame d.stored haccrues htame u .supply).trans hvalue, hweight⟩
    | debt =>
      have hvalue := view_value d.stored_after d.accrues_after hn
      rw [d.records_other (fun h => by cases h.2.2), index_setTotal] at hvalue
      exact ⟨n, r, (view_of_tame d.stored haccrues htame u .debt).trans hvalue, hweight⟩
  · have hpool : d.result.lending.pools b = s.lending.pools b := by rw [d.result_pools, Function.update_of_ne hba]
    rw [view_congr s d.result rfl hpool (d.records_other fun h => hba h.1)] at hn
    exact ⟨n, r, hn, hweight⟩

theorem supply_grows {r : FixedU128} (hs : AllListed s) (hinfo : getUserInfo .release s u = some info)
    (hinfo₁ : getUserInfo .strict d.result u = some info₁) (hr : weight d.result a .supply = some r) :
    info.2.1.toNat + (worth r d.value').toNat = info₁.2.1.toNat + (worth r d.value).toNat ∧
      (worth r d.value').toNat ≤ info₁.2.1.toNat := by
  have hsum := d.value'_added rfl
  have hrelease := mono_getUserInfo d.result u Profile.strict_le_release hinfo₁
  have hreplaces : Replaces d.result s u .supply a d.value' d.value :=
    ((d.release Profile.checked_le_release).replaces hs).symm
  have hle : (worth r d.value').toNat ≤ info₁.2.1.toNat := by
    obtain ⟨n, r', hn, hr'⟩ := (info_total hrelease .supply).1 a (listed_after d)
    cases hr.symm.trans hr'
    have hcounted : (counted d.result u .supply a).toNat ≤ (converted info₁ .supply).toNat :=
      counted_le Profile.strict_le_release rfl hinfo₁ (listed_after d)
    rw [counted_eq hn hr] at hcounted
    rw [← hreplaces.before n hn]
    exact hcounted
  have hexact := hreplaces.converted_exact (by omega) hinfo₁ hinfo hr
  simp only [converted] at hexact
  exact ⟨hexact, hle⟩

theorem supply_cash (htame : Tame d.accrued) : ¬ d.total' - d.accrued.debt < x := by
  have htotal : d.total'.toNat = d.accrued.supply.toNat + d.amount.toNat := toNat_add rfl d.total'_eq
  have hdebt := htame.debt_le
  rw [d.amount_added] at htotal
  rw [BitVec.not_lt, BitVec.le_def, BitVec.toNat_sub_of_le (BitVec.le_def.mpr (by omega))]
  omega

/-- The collateral check of the way back leaves room for the rounding. -/
theorem supply_collateral_iff (hs : AllListed s) (htame : Tame d.accrued)
    (hthreshold : s.lending.liquidationThreshold = Fixed.one) (hinfo₁ : getUserInfo .strict d.result u = some info₁) :
    Collateral .release d.result (d.accrued.setTotal d.total' .supply) a u x .supply false ↔ RoomToReturn s u a x := by
  have hle := Profile.checked_le_release
  have hrelease := mono_getUserInfo d.result u Profile.strict_le_release hinfo₁
  obtain ⟨info, hinfo⟩ := info_before d hs htame hrelease
  obtain ⟨_, r, _, hr⟩ := (info_total hrelease .supply).1 a (listed_after d)
  obtain ⟨hgrows, hcovered⟩ := supply_grows d hs hinfo hinfo₁ hr
  have howed : info₁.2.2 = info.2.2 := (d.release hle).converted_other hinfo hrelease (show Side.debt ≠ .supply by decide)
  have hfactor : (d.result.assets.getRate a).mul (d.accrued.setTotal d.total' .supply).safeFactor = some r := by
    rw [weight, d.stored_after] at hr
    exact hr
  have hfactor' : (s.assets.getRate a).mul d.pool.safeFactor = some r := by
    have hsame : weight s a .supply = some r := ((d.release hle).weight_result a .supply).symm.trans hr
    rw [weight, d.stored] at hsame
    exact hsame
  have hrequired : d.result.lending.liquidationThreshold.saturatingMulInt .release info₁.2.2 = some info₁.2.2 := by
    rw [show d.result.lending.liquidationThreshold = _ from hthreshold]
    exact Fixed.one_mulInt accuracy_lt _
  have hvalue' : d.value' = d.value + x := (add_eq d.value'_eq).trans (congrArg (d.value + ·) d.amount_added)
  have hwithdrawn : (worth r x).toNat ≤ info₁.2.1.toNat := by
    have hsum := d.value'_added rfl
    exact (worth_mono r (by omega)).trans hcovered
  -- what the check compares, in terms of the state before
  have hpassed : ¬ info₁.2.1 - worth r x < info₁.2.2 ↔
      info.2.2.toNat + (worth r x).toNat + (worth r d.value).toNat ≤
        info.2.1.toNat + (worth r (d.value + x)).toNat := by
    rw [BitVec.not_lt, BitVec.le_def, howed, BitVec.toNat_sub_of_le (BitVec.le_def.mpr hwithdrawn), ← hvalue']
    omega
  constructor
  · rintro ⟨info₂, factor, value, left, required, hinfo₂, hfactor₂, hvalue, hleft, hrequired₂, hcheck⟩
      pool q supplied info₃ factor₃ hpool hq hsupplied hinfo₃ hfactor₃
    cases hrelease.symm.trans hinfo₂
    cases hfactor.symm.trans hfactor₂
    cases hrequired.symm.trans hrequired₂
    cases d.stored.symm.trans hpool
    cases (release_accrues hle d.accrues).symm.trans hq
    cases (mono_valueAt _ _ hle d.value_eq :).symm.trans hsupplied
    cases hinfo.symm.trans hinfo₃
    cases hfactor'.symm.trans hfactor₃
    rw [mulInt_release] at hvalue
    cases hvalue
    rw [sub_eq hleft] at hcheck
    exact hpassed.mp hcheck
  · intro hroom
    have hvalue : valueAt .release d.accrued.totalSupplyIndex (s.lending.supplies.records (a, u)) = some d.value :=
      mono_valueAt _ _ hle d.value_eq
    refine ⟨info₁, r, worth r x, _, _, hrelease, hfactor, mulInt_release r x, sub_release, hrequired, ?_⟩
    exact hpassed.mpr (hroom _ _ _ _ _ d.stored (release_accrues hle d.accrues) hvalue hinfo hfactor')

/-- The withdrawal of what has been supplied makes the check of the way back. -/
theorem collateral_of_withdrawn (hI : (d.accrued.index .supply).toNat ≠ 0)
    (h : dispatch cfg .release d.result (.signed u) (.withdraw a x) = some (.ok (), s')) :
    Collateral .release d.result (d.accrued.setTotal d.total' .supply) a u x .supply false := by
  obtain ⟨e, _⟩ := dispatch_posted h rfl
  have haccrued : e.accrued = d.accrued.setTotal d.total' .supply := by
    have haccrues := e.accrues
    rw [← Option.some.inj (d.stored_after.symm.trans e.stored)] at haccrues
    exact Option.some.inj (haccrues.symm.trans d.accrues_after)
  obtain ⟨touched, _, hbook, _, _, hcollateral⟩ := e.checks rfl
  have hvalue := e.value_eq
  rw [haccrued] at hbook hvalue hcollateral
  have hself : touched = d.result.lending.book .supply := by
    rw [index_setTotal, accrue_self (d.record_after rfl) hI] at hbook
    exact (Option.some.inj hbook).symm
  have hamount : e.amount = x := by
    rw [e.amount_eq, ← Option.some.inj ((d.value_back rfl hI).symm.trans hvalue), ← d.amount_back rfl]
  rw [hself, hamount] at hcollateral
  exact hcollateral

end Supply

/-! ## Both round trips -/

theorem index_pos (hs : Orderly s) (d : Posting cfg .checked s u side true a x) :
    (d.accrued.index side).toNat ≠ 0 := by
  have hacc : AccruesTo s a d.pool d.accrued := ⟨d.stored, release_accrues Profile.checked_le_release d.accrues⟩
  have hone := hs.paced.one_le hacc (noWrap_of_checked d.accrues) side
  have hpos := accuracy_pos
  omega

theorem Standard.tame (h : Standard q) (hle : q.debt ≤ q.supply) : Tame q := by
  refine ⟨?_, BitVec.le_def.mp hle⟩
  rw [h.utilizationFactor, h.initialInterestRate]
  decide

/-- **When round trips within a block are neutral.** In a state that is reached without overflow, a supply by a user
above the threshold to a pool with no more debt than supply can be withdrawn again, if and only if there is room for the
rounding; a loan can be repaid. Both leave the balances, all views and all lists as they were, and the pool as it
accrues. -/
theorem round_trips_iff (h : Reached cfg (CheckedStep cfg) s) (hpool : s.lending.pools a = some pool)
    (hq : accrueInterest .release s.blockNumber pool = some q) :
    (∀ s₁, dispatch cfg .checked s (.signed u) (.supply a x) = some (.ok (), s₁) → Healthy s u → q.debt ≤ q.supply →
      (getUserInfo .strict s₁ u).isSome →
      ((∃ s₂, dispatch cfg .release s₁ (.signed u) (.withdraw a x) = some (.ok (), s₂) ∧ Neutral s s₂ a q) ↔
        RoomToReturn s u a x)) ∧
    ∀ s₁, dispatch cfg .checked s (.signed u) (.borrow a x) = some (.ok (), s₁) →
      ∃ s₂, dispatch cfg .release s₁ (.signed u) (.repay a x) = some (.ok (), s₂) ∧ Neutral s s₂ a q := by
  have hs := reached_orderly h
  have hlisted : AllListed s := fun side => ⟨(hs.books side).nodup, fun u a => ((hs.books side).listed u a).mpr⟩
  have hstandard := (reached_standard h hpool).accrued hq
  have hsame : ∀ {side} (d : Posting cfg .checked s u side true a x), d.accrued = q := by
    intro side d
    have haccrues := release_accrues Profile.checked_le_release d.accrues
    rw [Option.some.inj (d.stored.symm.trans hpool), hq] at haccrues
    exact (Option.some.inj haccrues).symm
  constructor
  · intro s₁ hd hhealthy hle hinfo
    obtain ⟨d, rfl⟩ := dispatch_posted hd rfl
    obtain ⟨info₁, hinfo₁⟩ := Option.isSome_iff_exists.mp hinfo
    cases hsame d
    have htame := hstandard.tame hle
    rw [← supply_collateral_iff d hlisted htame (reached_threshold h) hinfo₁]
    constructor
    · rintro ⟨s₂, hd₂, _⟩
      exact collateral_of_withdrawn d (index_pos hs d) hd₂
    · intro hchecks
      let e := d.back rfl (index_pos hs d) fun _ => ⟨_, sub_release, supply_cash d htame, hchecks⟩
      exact ⟨e.result, e.withdraw_eq, trip_neutral d (index_pos hs d) _ hs htame⟩
  · intro s₁ hd
    obtain ⟨d, rfl⟩ := dispatch_posted hd rfl
    cases hsame d
    have hle : d.accrued.debt ≤ d.accrued.supply := by
      -- the cash of the pool was computed without an underflow
      obtain ⟨_, cash, _, hcash, _⟩ := d.checks rfl
      have hsub := toNat_sub rfl hcash
      exact BitVec.le_def.mpr (by omega)
    have htame := hstandard.tame hle
    let e := d.back rfl (index_pos hs d) fun hflow => Bool.noConfusion hflow
    exact ⟨e.result, e.repay_eq, trip_neutral d (index_pos hs d) _ hs htame⟩

/-- User `2` has supplied asset `1` and borrowed asset `0`. A thousand blocks later it supplies and withdraws 500 of
asset `0`, or borrows and repays them. -/
theorem round_trips_mock : ∃ s s₁ s₂ t₁ t₂ q, Reached mockConfig (CheckedStep mockConfig) s ∧
    dispatch mockConfig .release s (.signed 2) (.supply 0 500) = some (.ok (), s₁) ∧
    dispatch mockConfig .release s₁ (.signed 2) (.withdraw 0 500) = some (.ok (), s₂) ∧ Neutral s s₂ 0 q ∧
    dispatch mockConfig .release s (.signed 2) (.borrow 0 500) = some (.ok (), t₁) ∧
    dispatch mockConfig .release t₁ (.signed 2) (.repay 0 500) = some (.ok (), t₂) ∧ Neutral s t₂ 0 q := by
  obtain ⟨s₀, a₁, a₂, a₃, a₄, s, s₁, t₁, pool, q, info, hs₀, h₁, hok₂, h₂, hok₃, h₃, hok₄, h₄, h₅, hsupply, hborrow,
      hpool, hq, hinfo, hhealthy, hle, hinfo₁, hnone, hfactor, hroom⟩ : ∃ (s₀ a₁ a₂ a₃ a₄ s s₁ t₁ : Chain (Fin 4))
      (pool q : Pool) (info : Balance × Balance × Balance), genesis .release mockGenesis = some s₀ ∧
      step mockConfig .release s₀ (.advance 1) = some a₁ ∧
      CheckedStep mockConfig a₁ (.call (.signed 1) (.lending (.supply 0 100000))) ∧
      step mockConfig .release a₁ (.call (.signed 1) (.lending (.supply 0 100000))) = some a₂ ∧
      CheckedStep mockConfig a₂ (.call (.signed 2) (.lending (.supply 1 100000))) ∧
      step mockConfig .release a₂ (.call (.signed 2) (.lending (.supply 1 100000))) = some a₃ ∧
      CheckedStep mockConfig a₃ (.call (.signed 2) (.lending (.borrow 0 10000))) ∧
      step mockConfig .release a₃ (.call (.signed 2) (.lending (.borrow 0 10000))) = some a₄ ∧
      step mockConfig .release a₄ (.advance 1001) = some s ∧
      dispatch mockConfig .checked s (.signed 2) (.supply 0 500) = some (.ok (), s₁) ∧
      dispatch mockConfig .checked s (.signed 2) (.borrow 0 500) = some (.ok (), t₁) ∧
      s.lending.pools 0 = some pool ∧ accrueInterest .release s.blockNumber pool = some q ∧
      getUserInfo .release s 2 = some info ∧ worth s.lending.liquidationThreshold info.2.2 ≤ info.2.1 ∧
      q.debt ≤ q.supply ∧ (getUserInfo .strict s₁ 2).isSome ∧ s.lending.supplies.records (0, 2) = none ∧
      (s.assets.getRate 0).mul pool.safeFactor = some ⟨70000000000000000000⟩ ∧
      info.2.2.toNat + (worth ⟨70000000000000000000⟩ 500).toNat + (worth ⟨70000000000000000000⟩ 0).toNat ≤
        info.2.1.toNat + (worth ⟨70000000000000000000⟩ (0 + 500)).toNat :=
    ⟨_, _, _, _, _, _, _, _, _, _, _, rfl, rfl, rfl, rfl, rfl, rfl, rfl, rfl, rfl, rfl, rfl, rfl, rfl, rfl, by decide,
      by decide, rfl, rfl, rfl, by decide⟩
  have hroom : RoomToReturn s 2 0 500 := by
    intro pool' q' supplied info' factor hpool' _ hsupplied hinfo' hfactor'
    rw [hnone] at hsupplied
    cases hsupplied
    cases hpool.symm.trans hpool'
    cases hinfo.symm.trans hinfo'
    cases hfactor.symm.trans hfactor'
    exact hroom
  have hok₁ : CheckedStep mockConfig s₀ (.advance 1) := trivial
  have hok₅ : CheckedStep mockConfig a₄ (.advance 1001) := trivial
  have hreached : Reached mockConfig (CheckedStep mockConfig) s :=
    ⟨mockGenesis, s₀, hs₀, ((((Run.refl.tail hok₁ h₁).tail hok₂ h₂).tail hok₃ h₃).tail hok₄ h₄).tail hok₅ h₅⟩
  have htrips := round_trips_iff (u := 2) (x := 500) hreached hpool hq
  obtain ⟨s₂, hs₂, hneutral⟩ := (htrips.1 s₁ hsupply ((healthy_iff hinfo).mpr hhealthy) hle hinfo₁).mpr hroom
  obtain ⟨t₂, ht₂, hneutral'⟩ := htrips.2 t₁ hborrow
  exact ⟨s, s₁, s₂, t₁, t₂, q, hreached, mono_dispatch _ _ _ _ Profile.checked_le_release hsupply, hs₂, hneutral,
    mono_dispatch _ _ _ _ Profile.checked_le_release hborrow, ht₂, hneutral'⟩

/-- At the price one the safe factor makes 700000000000000000005.6 of each of two supplies of user `2`, rounded up, and
1400000000000000000011.2 of both, rounded down. User `2` has borrowed what the first one counts for, and cannot withdraw
the second one in the block in which it made it. -/
theorem supply_not_returned : ∃ s s₁ s₂ pool q, Reached mockConfig (CheckedStep mockConfig) s ∧
    s.lending.pools 0 = some pool ∧ accrueInterest .release s.blockNumber pool = some q ∧ q.debt ≤ q.supply ∧
    Healthy s 2 ∧ dispatch mockConfig .checked s (.signed 2) (.supply 0 1000000000000000000008) = some (.ok (), s₁) ∧
    (getUserInfo .strict s₁ 2).isSome ∧
    dispatch mockConfig .release s₁ (.signed 2) (.withdraw 0 1000000000000000000008) =
      some (.error (.lending .belowLiquidationThreshold), s₂) := by
  obtain ⟨s₀, a₁, a₂, a₃, a₄, s, s₁, s₂, pool, q, info, hs₀, h₁, h₂, hok₃, h₃, hok₄, h₄, hok₅, h₅, hsupply, hwithdraw,
      hpool, hq, hle, hinfo, hhealthy, hinfo₁⟩ : ∃ (s₀ a₁ a₂ a₃ a₄ s s₁ s₂ : Chain (Fin 4)) (pool q : Pool)
      (info : Balance × Balance × Balance), genesis .release richGenesis = some s₀ ∧
      step mockConfig .release s₀ (.advance 1) = some a₁ ∧
      step mockConfig .release a₁ (.call (.signed 1) (.assets (.transferAsset 0 2 2000000000000000000016))) =
        some a₂ ∧
      CheckedStep mockConfig a₂ (.call (.signed 1) (.lending (.supply 1 1000000000000000000000))) ∧
      step mockConfig .release a₂ (.call (.signed 1) (.lending (.supply 1 1000000000000000000000))) = some a₃ ∧
      CheckedStep mockConfig a₃ (.call (.signed 2) (.lending (.supply 0 1000000000000000000008))) ∧
      step mockConfig .release a₃ (.call (.signed 2) (.lending (.supply 0 1000000000000000000008))) = some a₄ ∧
      CheckedStep mockConfig a₄ (.call (.signed 2) (.lending (.borrow 1 700000000000000000006))) ∧
      step mockConfig .release a₄ (.call (.signed 2) (.lending (.borrow 1 700000000000000000006))) = some s ∧
      dispatch mockConfig .checked s (.signed 2) (.supply 0 1000000000000000000008) = some (.ok (), s₁) ∧
      dispatch mockConfig .release s₁ (.signed 2) (.withdraw 0 1000000000000000000008) =
        some (.error (.lending .belowLiquidationThreshold), s₂) ∧
      s.lending.pools 0 = some pool ∧ accrueInterest .release s.blockNumber pool = some q ∧ q.debt ≤ q.supply ∧
      getUserInfo .release s 2 = some info ∧ worth s.lending.liquidationThreshold info.2.2 ≤ info.2.1 ∧
      (getUserInfo .strict s₁ 2).isSome :=
    ⟨_, _, _, _, _, _, _, _, _, _, _, rfl, rfl, rfl, rfl, rfl, rfl, rfl, rfl, rfl, rfl, rfl, rfl, rfl, by decide, rfl,
      by decide, rfl⟩
  have hok₁ : CheckedStep mockConfig s₀ (.advance 1) := trivial
  have hok₂ : CheckedStep mockConfig a₁
      (.call (.signed 1) (.assets (.transferAsset 0 2 2000000000000000000016))) := trivial
  have hreached : Reached mockConfig (CheckedStep mockConfig) s :=
    ⟨richGenesis, s₀, hs₀, ((((Run.refl.tail hok₁ h₁).tail hok₂ h₂).tail hok₃ h₃).tail hok₄ h₄).tail hok₅ h₅⟩
  exact ⟨s, s₁, s₂, pool, q, hreached, hpool, hq, hle, (healthy_iff hinfo).mpr hhealthy, hsupply, hinfo₁, hwithdraw⟩

end Konomi.Lending
