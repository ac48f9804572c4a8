import Mathlib.Data.BitVec
import Konomi.Lib.Loops
import Konomi.Lending.Positions
import Konomi.Lending.Pools

/-!
# `get_user_info`

The converted supply and the debt of a user are sums over its two lists of assets (`info_total`). In every reachable
state both lists are without duplicates and name all records (`reached_listed`), so a call on one's own position
changes one entry of one sum (`Posting.converted_own`, `Posting.converted_other`), and an accrual that is stored without
its pool changes nothing (`getUserInfo_of_touched`). `Replaces` is what such a call and a liquidation have in common,
and `Replaces.sum` what it does to a sum over the positions.
-/

namespace Konomi
open Machine

variable {A : Type} [DecidableEq A]

/-! ## Lists -/

/-- The lists have no duplicates and name every record. -/
structure Book.Listed (b : Book A) : Prop where
  nodup : ∀ u, (b.assets u).Nodup
  listed : ∀ u a, (b.records (a, u)).isSome → a ∈ b.assets u

namespace Book
variable {p : Profile} {b b' : Book A} {I : FixedU128} {a : AssetId} {u : A} {v : Balance}

theorem Listed.accrue (h : Listed b) (hb : b.accrue p I a u = some b') : Listed b' := by
  obtain ⟨v, _, ⟨_, rfl⟩ | ⟨hsome, rfl⟩⟩ := accrue_cases hb
  · exact h
  · refine ⟨h.nodup, fun u' a' hr => ?_⟩
    apply h.listed
    by_cases hk : (a', u') = (a, u)
    · rw [hk]
      exact hsome
    · rwa [accrue_records_of_ne hb hk] at hr

theorem Listed.put (h : Listed b) (hrec : (b.records (a, u)).isSome) : Listed (b.put I a u v) := by
  refine ⟨nodup_put h.nodup, fun u' a' hr => ?_⟩
  rw [put_records] at hr
  rw [mem_put]
  by_cases hk : (a', u') = (a, u)
  · rw [hk, Function.update_self] at hr
    obtain ⟨rfl, rfl⟩ := Prod.mk.inj hk
    exact ⟨h.listed _ _ hrec, fun hv => by simp [hv] at hr⟩
  · rw [Function.update_of_ne hk] at hr
    exact ⟨h.listed _ _ hr, fun _ => hk⟩

theorem Listed.put_enlist (h : Listed b) : Listed ((b.put I a u v).enlist a u) := by
  refine ⟨nodup_enlist (nodup_put h.nodup), fun u' a' hr => ?_⟩
  rw [enlist_records, put_records] at hr
  rw [mem_enlist, mem_put]
  by_cases hk : (a', u') = (a, u)
  · exact Or.inr hk
  · rw [Function.update_of_ne hk] at hr
    exact Or.inl ⟨h.listed _ _ hr, fun _ => hk⟩

/-- A put keeps every other asset on the list. -/
theorem put_mem {a' : AssetId} (ha : a' ≠ a) : a' ∈ (b.put I a u v).assets u ↔ a' ∈ b.assets u := by
  rw [mem_put]
  simp [ha]

omit [DecidableEq A] in
theorem Listed.value_zero (h : Listed b) (hmem : a ∉ b.assets u) (hv : valueAt p I (b.records (a, u)) = some v) :
    v = 0 := by
  have hnone : b.records (a, u) = none := by
    by_contra hsome
    exact hmem (h.listed u a (Option.isSome_iff_ne_none.mpr hsome))
  rw [hnone] at hv
  exact (Option.some.inj hv).symm

theorem Listed.put_zero (h : Listed b') (hrecords : b'.records = (b.put I a u v).records) (hmem : a ∉ b'.assets u) :
    v = 0 := by
  by_contra hne
  refine hmem (h.listed u a ?_)
  rw [hrecords, put_records, Function.update_self, if_pos hne]
  rfl

end Book

namespace Lending
variable {cfg : Config A} {s s' : Chain A} {u : A} {a b : AssetId} {side side' : Side} {positive : Bool} {x w : Balance}

/-- Both books name all their records. -/
def AllListed (s : Chain A) : Prop := ∀ side, (s.lending.book side).Listed

theorem AllListed.touched (h : AllListed s) (ht : ∀ side, Touched .release s s' side) : AllListed s' := by
  intro side
  rcases ht side with hsame | ⟨a, u, pool, q, _, _, hbook⟩
  · rw [hsame]
    exact h side
  · exact (h side).accrue hbook

theorem Posting.listed (d : Posting cfg .release s u side positive a x) (h : AllListed s) : AllListed d.result := by
  intro side'
  rw [d.result_book]
  split
  · rename_i hside
    subst hside
    cases positive with
    | false => exact (h side').put d.recorded
    | true => exact (h side').put_enlist
  · exact h side'

theorem Settlement.listed {p : Profile} {t : A} {payId getId : AssetId} (d : Settlement cfg p s u t payId getId x)
    (h : AllListed s) : AllListed d.result := by
  intro side
  cases side with
  | supply =>
    obtain ⟨user, hr⟩ := Option.isSome_iff_exists.mp d.supplied_some
    exact (h .supply).put (Book.accrue_record d.supplies_eq hr).2.2
  | debt =>
    obtain ⟨user, hr⟩ := Option.isSome_iff_exists.mp d.owed_some
    exact (h .debt).put (Book.accrue_record d.debts_eq hr).2.2

theorem step_listed {l : Action A} (h : AllListed s) (hs : step cfg .release s l = some s') : AllListed s' := by
  rcases step_cases hs with ⟨block, rfl, _, rfl⟩ | ⟨origin, c, r, rfl, hd⟩ | ⟨origin, c, r, rfl, _, _, hl, _⟩
  · exact h
  · rcases dispatch_cases hd with ⟨u, rfl, hstep⟩ | ⟨_, rfl⟩ | ⟨id, can, rfl, _, rfl⟩
    · cases hstep with
      | refused => exact h
      | touched side e entry stored accrues book => exact h.touched (touched_setBook stored accrues book)
      | posted side positive entry d => exact d.listed h
      | assessed e d => exact h.touched (d.touched rfl)
      | halfway e d => exact h.touched (d.touched rfl)
      | settled d => exact d.listed h
    · exact h
    · intro side
      rw [show (_initPool s.blockNumber s.lending id can).book side = s.lending.book side from book_commit ..]
      exact h side
  · intro side
    rw [hl]
    exact h side

/-- **In every reachable state the lists of both books name all records, once.** -/
theorem reached_listed (h : Reached cfg (fun _ _ => True) s) : AllListed s := by
  refine h.invariant (fun g s hs => ?_) (fun s l s' hs _ hstep => step_listed hs hstep)
  obtain ⟨_, hsupplies, hdebts, _⟩ := genesis_lending hs
  have hempty : (Book.empty : Book A).Listed := ⟨fun _ => List.nodup_nil, fun _ _ hr => by cases hr⟩
  intro side
  cases side with
  | supply =>
    show s.lending.supplies.Listed
    rw [hsupplies]
    exact hempty
  | debt =>
    show s.lending.debts.Listed
    rw [hdebts]
    exact hempty

/-! ## Sums -/

/-- `r.saturating_mul_int(n)`, which returns in the release build. -/
def worth (r : FixedU128) (n : Balance) : Balance := (r.saturatingMulInt .release n).getD 0

theorem mulInt_release (r : FixedU128) (n : Balance) : r.saturatingMulInt .release n = some (worth r n) := by
  have hsome : (r.saturatingMulInt .release n).isSome := by
    rw [Fixed.saturatingMulInt, Profile.saturate, if_pos (Or.inr (by rfl : Profile.release.saturates = true))]
    rfl
  obtain ⟨m, hm⟩ := Option.isSome_iff_exists.mp hsome
  rw [worth, hm, Option.getD_some]

theorem mulInt_eq_worth {p : Profile} (hp : p ≤ .release) {r : FixedU128} {n m : Balance}
    (h : r.saturatingMulInt p n = some m) : m = worth r n := by
  have hm : r.saturatingMulInt .release n = some m := Fixed.mono_mulInt r n hp h
  rw [mulInt_release] at hm
  exact (Option.some.inj hm).symm

theorem toNat_worth (r : FixedU128) (n : Balance) :
    (worth r n).toNat = min (rounded 128 (r.toNat * n.toNat) accuracy) (2 ^ 128 - 1) :=
  Fixed.toNat_mulInt (mulInt_release r n)

theorem worth_mono (r : FixedU128) {m n : Balance} (h : m.toNat ≤ n.toNat) : (worth r m).toNat ≤ (worth r n).toNat := by
  rw [toNat_worth, toNat_worth]
  exact min_le_min_right _ (rounded_mono accuracy_pos (Nat.mul_le_mul_left _ h))

theorem worth_one (n : Balance) : worth Fixed.one n = n := by
  have h := Fixed.one_mulInt (p := .release) accuracy_lt n
  rw [mulInt_release] at h
  exact Option.some.inj h

theorem worth_zero (r : FixedU128) : worth r 0 = 0 := by
  apply BitVec.eq_of_toNat_eq
  rw [toNat_worth]
  simp

/-- What a unit of an asset counts for on a side: its price, weighted by the safe factor of the pool for a supply. -/
def weight (s : Chain A) (a : AssetId) : Side → Option FixedU128
  | .supply => s.lending.pools a >>= fun pool => (s.assets.getRate a).mul pool.safeFactor
  | .debt => some (s.assets.getRate a)

/-- What an asset of a user counts for on a side. -/
def counted (s : Chain A) (u : A) (side : Side) (a : AssetId) : Balance :=
  match view .release s a u side, weight s a side with
  | some n, some r => worth r n
  | _, _ => 0

/-- The two totals of `get_user_info` that the collateral checks compare. -/
def converted (info : Balance × Balance × Balance) : Side → Balance
  | .supply => info.2.1
  | .debt => info.2.2

omit [DecidableEq A] in
theorem counted_eq {n : Balance} {r : FixedU128} (hn : view .release s a u side = some n)
    (hr : weight s a side = some r) : counted s u side a = worth r n := by
  rw [counted, hn, hr]

/-- The body of the loop over the supplies. -/
def addSupply (s : Chain A) (u : A) (total : Balance × Balance) (asset : AssetId) : Option (Balance × Balance) := do
  let amount ← getUserSupplyWithInterest .release s asset u
  let value ← (s.assets.getRate asset).saturatingMulInt .release amount
  let supplyBalance ← Profile.release.add total.1 value
  let pool ← s.lending.pools asset
  let factor ← (s.assets.getRate asset).mul pool.safeFactor
  let converted ← factor.saturatingMulInt .release amount
  let supplyConverted ← Profile.release.add total.2 converted
  some (supplyBalance, supplyConverted)

/-- The body of the loop over the debts. -/
def addDebt (s : Chain A) (u : A) (total : Balance) (asset : AssetId) : Option Balance := do
  let amount ← getUserDebtWithInterest .release s asset u
  let value ← (s.assets.getRate asset).saturatingMulInt .release amount
  Profile.release.add total value

omit [DecidableEq A] in
theorem getUserInfo_iff {info : Balance × Balance × Balance} : getUserInfo .release s u = some info ↔
    (s.lending.supplies.assets u).foldlM (addSupply s u) (0, 0) = some (info.1, info.2.1) ∧
      (s.lending.debts.assets u).foldlM (addDebt s u) 0 = some info.2.2 := by
  constructor
  · intro h
    obtain ⟨total, hsupply, h⟩ := Option.bind_eq_some_iff.mp h
    obtain ⟨owed, hdebt, h⟩ := Option.bind_eq_some_iff.mp h
    cases h
    exact ⟨hsupply, hdebt⟩
  · rintro ⟨hsupply, hdebt⟩
    exact Option.bind_eq_some_iff.mpr ⟨_, hsupply, Option.bind_eq_some_iff.mpr ⟨_, hdebt, rfl⟩⟩

omit [DecidableEq A] in
theorem addSupply_iff {t t' : Balance × Balance} : addSupply s u t a = some t' ↔
    ∃ n r, view .release s a u .supply = some n ∧ weight s a .supply = some r ∧
      t' = (t.1 + worth (s.assets.getRate a) n, t.2 + worth r n) := by
  unfold addSupply
  simp only [mulInt_release, add_release, Option.bind_eq_bind, Option.bind_some]
  constructor
  · intro h
    obtain ⟨n, hn, h⟩ := Option.bind_eq_some_iff.mp h
    obtain ⟨pool, hpool, h⟩ := Option.bind_eq_some_iff.mp h
    obtain ⟨r, hr, h⟩ := Option.bind_eq_some_iff.mp h
    exact ⟨n, r, hn, Option.bind_eq_some_iff.mpr ⟨pool, hpool, hr⟩, (Option.some.inj h).symm⟩
  · rintro ⟨n, r, hn, hr, rfl⟩
    obtain ⟨pool, hpool, hr⟩ := Option.bind_eq_some_iff.mp hr
    refine Option.bind_eq_some_iff.mpr ⟨n, hn, Option.bind_eq_some_iff.mpr ⟨pool, hpool, ?_⟩⟩
    rw [hr]
    rfl

omit [DecidableEq A] in
theorem addDebt_iff {t t' : Balance} : addDebt s u t a = some t' ↔
    ∃ n, view .release s a u .debt = some n ∧ t' = t + worth (s.assets.getRate a) n := by
  unfold addDebt
  simp only [mulInt_release, add_release, Option.bind_eq_bind, Option.bind_some]
  constructor
  · intro h
    obtain ⟨n, hn, h⟩ := Option.bind_eq_some_iff.mp h
    exact ⟨n, hn, (Option.some.inj h).symm⟩
  · rintro ⟨n, hn, rfl⟩
    exact Option.bind_eq_some_iff.mpr ⟨n, hn, rfl⟩

omit [DecidableEq A] in
/-- **The totals of `get_user_info` are sums over the lists of the user.** -/
theorem info_total {info : Balance × Balance × Balance} (h : getUserInfo .release s u = some info) (side : Side) :
    (∀ a ∈ (s.lending.book side).assets u, ∃ n r, view .release s a u side = some n ∧ weight s a side = some r) ∧
      converted info side = (((s.lending.book side).assets u).map (counted s u side)).sum := by
  obtain ⟨hsupply, hdebt⟩ := getUserInfo_iff.mp h
  cases side with
  | supply =>
    refine ⟨foldlM_forall (fun t a t' ht => ?_) hsupply, ?_⟩
    · obtain ⟨n, r, hn, hr, _⟩ := addSupply_iff.mp ht
      exact ⟨n, r, hn, hr⟩
    · have hbody : ∀ (t : Balance × Balance) a t', addSupply s u t a = some t' →
          t'.2 = t.2 + counted s u .supply a := by
        intro t a t' ht
        obtain ⟨n, r, hn, hr, rfl⟩ := addSupply_iff.mp ht
        rw [counted_eq hn hr]
      exact (foldlM_sum (m := Prod.snd) hbody hsupply).trans (zero_add _)
  | debt =>
    refine ⟨foldlM_forall (fun t a t' ht => ?_) hdebt, ?_⟩
    · obtain ⟨n, hn, _⟩ := addDebt_iff.mp ht
      exact ⟨n, _, hn, rfl⟩
    · have hbody : ∀ (t : Balance) a t', addDebt s u t a = some t' → t' = t + counted s u .debt a := by
        intro t a t' ht
        obtain ⟨n, hn, rfl⟩ := addDebt_iff.mp ht
        rw [counted_eq hn rfl]
      exact (foldlM_sum (m := id) hbody hdebt).trans (zero_add _)

omit [DecidableEq A] in
theorem getUserInfo_returns (h : ∀ side, ∀ a ∈ (s.lending.book side).assets u,
    ∃ n r, view .release s a u side = some n ∧ weight s a side = some r) :
    ∃ info, getUserInfo .release s u = some info := by
  have hsupply : ((s.lending.supplies.assets u).foldlM (addSupply s u) (0, 0)).isSome := by
    refine foldlM_isSome fun t a ha => ?_
    obtain ⟨n, r, hn, hr⟩ := h .supply a ha
    exact Option.isSome_iff_exists.mpr ⟨_, addSupply_iff.mpr ⟨n, r, hn, hr, rfl⟩⟩
  have hdebt : ((s.lending.debts.assets u).foldlM (addDebt s u) 0).isSome := by
    refine foldlM_isSome fun t a ha => ?_
    obtain ⟨n, _, hn, _⟩ := h .debt a ha
    exact Option.isSome_iff_exists.mpr ⟨_, addDebt_iff.mpr ⟨n, hn, rfl⟩⟩
  obtain ⟨total, htotal⟩ := Option.isSome_iff_exists.mp hsupply
  obtain ⟨owed, howed⟩ := Option.isSome_iff_exists.mp hdebt
  exact ⟨(total.1, total.2, owed), getUserInfo_iff.mpr ⟨htotal, howed⟩⟩

omit [DecidableEq A] in
theorem toNat_converted {p : Profile} {info : Balance × Balance × Balance} (hp : p ≤ .release)
    (hwraps : p.wraps = false) (h : getUserInfo p s u = some info) (side : Side) :
    (converted info side).toNat = (((s.lending.book side).assets u).map fun b => (counted s u side b).toNat).sum := by
  obtain ⟨total, hsupply, h⟩ := Option.bind_eq_some_iff.mp h
  obtain ⟨owed, hdebt, h⟩ := Option.bind_eq_some_iff.mp h
  cases h
  cases side with
  | supply =>
    refine (foldlM_sum (m := fun t : Balance × Balance => t.2.toNat) (fun t b t' ht => ?_) hsupply).trans
      (Nat.zero_add _)
    obtain ⟨n, hn, ht⟩ := Option.bind_eq_some_iff.mp ht
    obtain ⟨value, _, ht⟩ := Option.bind_eq_some_iff.mp ht
    obtain ⟨balance, _, ht⟩ := Option.bind_eq_some_iff.mp ht
    obtain ⟨pool, hpool, ht⟩ := Option.bind_eq_some_iff.mp ht
    obtain ⟨factor, hfactor, ht⟩ := Option.bind_eq_some_iff.mp ht
    obtain ⟨value, hvalue, ht⟩ := Option.bind_eq_some_iff.mp ht
    obtain ⟨sum, hsum, ht⟩ := Option.bind_eq_some_iff.mp ht
    cases ht
    have hview : view .release s b u .supply = some n := mono_getUserSupplyWithInterest s b u hp hn
    have hweight : weight s b .supply = some factor := Option.bind_eq_some_iff.mpr ⟨pool, hpool, hfactor⟩
    dsimp only
    rw [toNat_add hwraps hsum, counted_eq hview hweight, mulInt_eq_worth hp hvalue]
  | debt =>
    refine (foldlM_sum (m := fun t : Balance => t.toNat) (fun t b t' ht => ?_) hdebt).trans (Nat.zero_add _)
    obtain ⟨n, hn, ht⟩ := Option.bind_eq_some_iff.mp ht
    obtain ⟨value, hvalue, hsum⟩ := Option.bind_eq_some_iff.mp ht
    have hview : view .release s b u .debt = some n := mono_getUserDebtWithInterest s b u hp hn
    rw [toNat_add hwraps hsum, counted_eq hview rfl, mulInt_eq_worth hp hvalue]

omit [DecidableEq A] in
theorem toNat_converted_of_lt {info : Balance × Balance × Balance} (h : getUserInfo .release s u = some info)
    (hfits : (((s.lending.book side).assets u).map fun b => (counted s u side b).toNat).sum < 2 ^ 128) :
    (converted info side).toNat = (((s.lending.book side).assets u).map fun b => (counted s u side b).toNat).sum := by
  rw [(info_total h side).2, toNat_sum, List.map_map]
  exact Nat.mod_eq_of_lt hfits

omit [DecidableEq A] in
theorem worth_fits {p : Profile} {info : Balance × Balance × Balance} (hp : p ≤ .release) (hsat : p.saturates = false)
    (h : getUserInfo p s u = some info) (hmem : a ∈ (s.lending.book side).assets u) {n : Balance} {r : FixedU128}
    (hn : view .release s a u side = some n) (hr : weight s a side = some r) :
    rounded 128 (r.toNat * n.toNat) accuracy < 2 ^ 128 := by
  obtain ⟨total, hsupply, h⟩ := Option.bind_eq_some_iff.mp h
  obtain ⟨owed, hdebt, h⟩ := Option.bind_eq_some_iff.mp h
  cases side with
  | supply =>
    refine foldlM_forall (P := fun a => ∀ n r, view .release s a u .supply = some n → weight s a .supply = some r →
      rounded 128 (r.toNat * n.toNat) accuracy < 2 ^ 128) (fun t b t' ht n r hn hr => ?_) hsupply a hmem n r hn hr
    obtain ⟨n', hn', ht⟩ := Option.bind_eq_some_iff.mp ht
    obtain ⟨_, _, ht⟩ := Option.bind_eq_some_iff.mp ht
    obtain ⟨_, _, ht⟩ := Option.bind_eq_some_iff.mp ht
    obtain ⟨pool, hpool, ht⟩ := Option.bind_eq_some_iff.mp ht
    obtain ⟨factor, hfactor, ht⟩ := Option.bind_eq_some_iff.mp ht
    obtain ⟨value, hvalue, _⟩ := Option.bind_eq_some_iff.mp ht
    have hview : view .release s b u .supply = some n' := mono_getUserSupplyWithInterest s b u hp hn'
    have hweight : weight s b .supply = some factor := Option.bind_eq_some_iff.mpr ⟨pool, hpool, hfactor⟩
    cases hn.symm.trans hview
    cases hr.symm.trans hweight
    exact Fixed.mulInt_fits hsat hvalue
  | debt =>
    refine foldlM_forall (P := fun a => ∀ n r, view .release s a u .debt = some n → weight s a .debt = some r →
      rounded 128 (r.toNat * n.toNat) accuracy < 2 ^ 128) (fun t b t' ht n r hn hr => ?_) hdebt a hmem n r hn hr
    obtain ⟨n', hn', ht⟩ := Option.bind_eq_some_iff.mp ht
    obtain ⟨value, hvalue, _⟩ := Option.bind_eq_some_iff.mp ht
    have hview : view .release s b u .debt = some n' := mono_getUserDebtWithInterest s b u hp hn'
    cases hn.symm.trans hview
    cases hr
    exact Fixed.mulInt_fits hsat hvalue

omit [DecidableEq A] in
theorem counted_le {p : Profile} {info : Balance × Balance × Balance} (hp : p ≤ .release) (hwraps : p.wraps = false)
    (h : getUserInfo p s u = some info) (hmem : a ∈ (s.lending.book side).assets u) :
    (counted s u side a).toNat ≤ (converted info side).toNat := by
  rw [toNat_converted hp hwraps h side]
  exact List.single_le_sum (fun _ _ => Nat.zero_le _) _ (List.mem_map.mpr ⟨a, hmem, rfl⟩)

theorem assets_of_touched (ht : Touched .release s s' side) (u : A) :
    (s'.lending.book side).assets u = (s.lending.book side).assets u := by
  rcases ht with hsame | ⟨a, v, pool, q, _, _, hbook⟩
  · rw [hsame]
  · obtain ⟨_, _, ⟨_, hsame⟩ | ⟨_, hsame⟩⟩ := Book.accrue_cases hbook <;> rw [hsame]

theorem view_of_touched {n : Balance} (s s' : Chain A) (hblock : s'.blockNumber = s.blockNumber)
    (hpools : s'.lending.pools = s.lending.pools) (ht : Touched .release s s' side)
    (hn : view .release s' a u side = some n) : view .release s a u side = some n := by
  rcases ht with hsame | ⟨b, v, pool, q, hpool, hq, hbook⟩
  · rw [← view_congr s s' hblock (congrFun hpools a) (congrArg (fun bk => bk.records (a, u)) hsame)]
    exact hn
  · exact view_of_accrue s s' ⟨id, id⟩ hblock hpools hpool hq hbook hn

omit [DecidableEq A] in
theorem weight_congr (s s' : Chain A) (hassets : s'.assets = s.assets) (hpools : s'.lending.pools = s.lending.pools)
    (a : AssetId) (side : Side) : weight s' a side = weight s a side := by
  cases side with
  | supply => rw [weight, weight, hpools, hassets]
  | debt => rw [weight, weight, hassets]

/-- Accrued records that are stored without their pools leave `get_user_info` as it was. -/
theorem getUserInfo_of_touched {info : Balance × Balance × Balance} (s s' : Chain A) (hassets : s'.assets = s.assets)
    (hblock : s'.blockNumber = s.blockNumber) (hpools : s'.lending.pools = s.lending.pools)
    (ht : ∀ side, Touched .release s s' side) (h : getUserInfo .release s' u = some info) :
    getUserInfo .release s u = some info := by
  obtain ⟨hsupply, hdebt⟩ := getUserInfo_iff.mp h
  rw [show s'.lending.supplies.assets u = _ from assets_of_touched (ht .supply) u] at hsupply
  rw [show s'.lending.debts.assets u = _ from assets_of_touched (ht .debt) u] at hdebt
  refine getUserInfo_iff.mpr ⟨foldlM_imp (fun t a _ t' hadd => ?_) hsupply, foldlM_imp (fun t a _ t' hadd => ?_) hdebt⟩
  · obtain ⟨n, r, hn, hr, rfl⟩ := addSupply_iff.mp hadd
    rw [weight_congr s s' hassets hpools] at hr
    exact addSupply_iff.mpr ⟨n, r, view_of_touched s s' hblock hpools (ht .supply) hn, hr, by rw [hassets]⟩
  · obtain ⟨n, hn, rfl⟩ := addDebt_iff.mp hadd
    exact addDebt_iff.mpr ⟨n, view_of_touched s s' hblock hpools (ht .debt) hn, by rw [hassets]⟩

/-! ## One position replaced -/

omit [DecidableEq A] in
theorem Follows.weight_eq {P : AssetId → Prop} (h : Follows P s s') (hprice : s'.assets.price = s.assets.price)
    (b : AssetId) (side : Side) : weight s' b side = weight s b side := by
  have hrate : s'.assets.getRate b = s.assets.getRate b := congrFun hprice b
  cases side with
  | debt => rw [weight, weight, hrate]
  | supply =>
    rw [weight, weight, hrate]
    rcases h.pools b with hsame | ⟨_, pool, q, q', hacc, hq', htotal⟩
    · rw [hsame]
    · have hfactor : q'.safeFactor = pool.safeFactor := by
        rw [htotal]
        exact (accrueInterest_frame hacc.accrues).2.2.2.2
      rw [hq', hacc.stored, Option.bind_eq_bind, Option.bind_some, Option.bind_some, hfactor]

theorem price_of_transfer {p : Profile} {st st' : Assets A} {v w : A} {id : AssetId} {m : Balance}
    (h : st.transfer p v id w m = some (.ok st')) : st'.price = st.price := by
  obtain ⟨_, _, _, rfl⟩ := Assets.transfer_ok h
  rfl

/-- Of the positions of `u` on a side, that of the asset `a` was worth `v` and is worth `v'`; the others are as they
were. -/
structure Replaces (s s' : Chain A) (u : A) (side : Side) (a : AssetId) (v v' : Balance) : Prop where
  nodup : ((s.lending.book side).assets u).Nodup
  nodup' : ((s'.lending.book side).assets u).Nodup
  weight_eq : ∀ b, weight s' b side = weight s b side
  mem : ∀ b, b ≠ a → (b ∈ (s'.lending.book side).assets u ↔ b ∈ (s.lending.book side).assets u)
  other : ∀ b w w', b ≠ a → view .release s b u side = some w → view .release s' b u side = some w' → w' = w
  before : ∀ w, view .release s a u side = some w → w = v
  before_unlisted : a ∉ (s.lending.book side).assets u → v = 0
  after : ∀ w, view .release s' a u side = some w → w = v'
  after_unlisted : a ∉ (s'.lending.book side).assets u → v' = 0

omit [DecidableEq A] in
/-- **A sum over the positions counts the new value in place of the old one.** -/
theorem Replaces.sum {M : Type} [AddCommMonoid M] {info info' : Balance × Balance × Balance} {r : FixedU128}
    {v v' : Balance} (h : Replaces s s' u side a v v') (hinfo : getUserInfo .release s u = some info)
    (hinfo' : getUserInfo .release s' u = some info') (hr : weight s a side = some r) (f : Balance → M) (hf : f 0 = 0) :
    (((s'.lending.book side).assets u).map fun b => f (counted s' u side b)).sum + f (worth r v) =
      (((s.lending.book side).assets u).map fun b => f (counted s u side b)).sum + f (worth r v') := by
  have hr' : weight s' a side = some r := by rw [h.weight_eq, hr]
  have hbefore : (if a ∈ (s.lending.book side).assets u then f (counted s u side a) else 0) = f (worth r v) := by
    split
    · rename_i hmem
      obtain ⟨n, _, hn, _⟩ := (info_total hinfo side).1 a hmem
      rw [counted_eq hn hr, h.before n hn]
    · rename_i hmem
      rw [h.before_unlisted hmem, worth_zero, hf]
  have hafter : (if a ∈ (s'.lending.book side).assets u then f (counted s' u side a) else 0) = f (worth r v') := by
    split
    · rename_i hmem
      obtain ⟨n, _, hn, _⟩ := (info_total hinfo' side).1 a hmem
      rw [counted_eq hn hr', h.after n hn]
    · rename_i hmem
      rw [h.after_unlisted hmem, worth_zero, hf]
  have hother : ∀ b ∈ (s.lending.book side).assets u, b ≠ a →
      f (counted s' u side b) = f (counted s u side b) := by
    intro b hb hne
    obtain ⟨n, r, hn, hr⟩ := (info_total hinfo side).1 b hb
    obtain ⟨n', _, hn', _⟩ := (info_total hinfo' side).1 b ((h.mem b hne).mpr hb)
    rw [counted_eq hn hr, counted_eq hn' (by rw [h.weight_eq, hr]), h.other b n n' hne hn hn']
  have hsum := sum_replace h.nodup h.nodup' h.mem hother
  rw [hbefore, hafter] at hsum
  exact hsum

omit [DecidableEq A] in
theorem Replaces.converted {info info' : Balance × Balance × Balance} {r : FixedU128} {v v' : Balance}
    (h : Replaces s s' u side a v v') (hinfo : getUserInfo .release s u = some info)
    (hinfo' : getUserInfo .release s' u = some info') (hr : weight s a side = some r) :
    converted info' side + worth r v = converted info side + worth r v' := by
  rw [(info_total hinfo side).2, (info_total hinfo' side).2]
  exact h.sum hinfo hinfo' hr id rfl

omit [DecidableEq A] in
theorem Replaces.converted_exact {info info' : Balance × Balance × Balance} {r : FixedU128} {v v' : Balance}
    (h : Replaces s s' u side a v v') (hle : v'.toNat ≤ v.toNat) (hinfo : getUserInfo .strict s u = some info)
    (hinfo' : getUserInfo .release s' u = some info') (hr : weight s a side = some r) :
    (Lending.converted info' side).toNat + (worth r v).toNat =
      (Lending.converted info side).toNat + (worth r v').toNat := by
  have hrelease : getUserInfo .release s u = some info := mono_getUserInfo s u Profile.strict_le_release hinfo
  have hmono := worth_mono r hle
  have hsum := h.sum hrelease hinfo' hr BitVec.toNat rfl
  rw [← toNat_converted Profile.strict_le_release rfl hinfo side] at hsum
  rw [toNat_converted_of_lt hinfo' (by have := (Lending.converted info side).isLt; omega)]
  exact hsum

omit [DecidableEq A] in
theorem Replaces.worth_exact {info : Balance × Balance × Balance} {r : FixedU128} {v v' : Balance}
    (h : Replaces s s' u side a v v') (hinfo : getUserInfo .strict s u = some info) (hr : weight s a side = some r) :
    (worth r v).toNat = rounded 128 (r.toNat * v.toNat) accuracy := by
  have hrelease : getUserInfo .release s u = some info := mono_getUserInfo s u Profile.strict_le_release hinfo
  have hfits : rounded 128 (r.toNat * v.toNat) accuracy < 2 ^ 128 := by
    by_cases hmem : a ∈ (s.lending.book side).assets u
    · obtain ⟨n, _, hn, _⟩ := (info_total hrelease side).1 a hmem
      rw [← h.before n hn]
      exact worth_fits Profile.strict_le_release rfl hinfo hmem hn hr
    · rw [h.before_unlisted hmem]
      simp
  rw [toNat_worth]
  exact min_eq_left (Nat.le_sub_one_of_lt hfits)

omit [DecidableEq A] in
/-- Without overflow, and with a value that did not grow, the total changes by the rounded worths. -/
theorem Replaces.converted_rounded {info info' : Balance × Balance × Balance} {r : FixedU128} {v v' : Balance}
    (h : Replaces s s' u side a v v') (hle : v'.toNat ≤ v.toNat) (hinfo : getUserInfo .strict s u = some info)
    (hinfo' : getUserInfo .release s' u = some info') (hr : weight s a side = some r) :
    (Lending.converted info' side).toNat + rounded 128 (r.toNat * v.toNat) accuracy =
      (Lending.converted info side).toNat + rounded 128 (r.toNat * v'.toNat) accuracy := by
  have hexact := h.converted_exact hle hinfo hinfo' hr
  have hworth := h.worth_exact hinfo hr
  have hmono : rounded 128 (r.toNat * v'.toNat) accuracy ≤ rounded 128 (r.toNat * v.toNat) accuracy :=
    rounded_mono accuracy_pos (Nat.mul_le_mul_left _ hle)
  have hfits := (worth r v).isLt
  rw [hworth, toNat_worth r v', min_eq_left (by omega)] at hexact
  exact hexact

omit [DecidableEq A] in
theorem Replaces.symm {v v' : Balance} (h : Replaces s s' u side a v v') : Replaces s' s u side a v' v where
  nodup := h.nodup'
  nodup' := h.nodup
  weight_eq := fun b => (h.weight_eq b).symm
  mem := fun b hb => (h.mem b hb).symm
  other := fun b w w' hb hw hw' => (h.other b w' w hb hw' hw).symm
  before := h.after
  before_unlisted := h.after_unlisted
  after := h.before
  after_unlisted := h.before_unlisted

/-- The storage before may have its records accrued. -/
theorem Replaces.of_touched {s₁ : Chain A} {v v' : Balance} (h : Replaces s s' u side a v v')
    (ht : Touched .release s s₁ side) (hassets : s₁.assets = s.assets) (hblock : s₁.blockNumber = s.blockNumber)
    (hpools : s₁.lending.pools = s.lending.pools) : Replaces s₁ s' u side a v v' := by
  have hlist := assets_of_touched ht u
  refine ⟨?_, h.nodup', ?_, ?_, ?_, ?_, ?_, h.after, h.after_unlisted⟩
  · rw [hlist]
    exact h.nodup
  · intro b
    rw [h.weight_eq, weight_congr s s₁ hassets hpools]
  · intro b hb
    rw [hlist]
    exact h.mem b hb
  · exact fun b w w' hb hw hw' => h.other b w w' hb (view_of_touched s s₁ hblock hpools ht hw) hw'
  · exact fun w hw => h.before w (view_of_touched s s₁ hblock hpools ht hw)
  · rw [hlist]
    exact h.before_unlisted

omit [DecidableEq A] in
theorem converted_congr {info info' : Balance × Balance × Balance} (hinfo : getUserInfo .release s u = some info)
    (hinfo' : getUserInfo .release s' u = some info')
    (hlist : (s'.lending.book side).assets u = (s.lending.book side).assets u)
    (hweight : ∀ b, weight s' b side = weight s b side)
    (hviews : ∀ b w w', view .release s b u side = some w → view .release s' b u side = some w' → w' = w) :
    converted info' side = converted info side := by
  rw [(info_total hinfo side).2, (info_total hinfo' side).2, hlist]
  refine congrArg List.sum (List.map_congr_left fun b hb => ?_)
  obtain ⟨n, r, hn, hr⟩ := (info_total hinfo side).1 b hb
  obtain ⟨n', _, hn', _⟩ := (info_total hinfo' side).1 b (by rw [hlist]; exact hb)
  rw [counted_eq hn hr, counted_eq hn' (by rw [hweight, hr]), hviews b n n' hn hn']

/-! ## A call on one's own position -/

namespace Posting
variable {info info' : Balance × Balance × Balance} {r : FixedU128}

theorem weight_result (d : Posting cfg .release s u side positive a x) (b : AssetId) (side' : Side) :
    weight d.result b side' = weight s b side' :=
  (d.follows (P := fun _ => True) trivial).weight_eq (price_of_transfer d.pays) b side'

theorem replaces (d : Posting cfg .release s u side positive a x) (hs : AllListed s) :
    Replaces s d.result u side a d.value d.value' where
  nodup := (hs side).nodup u
  nodup' := (d.listed hs side).nodup u
  weight_eq := fun b => d.weight_result b side
  mem := by
    intro b hb
    rw [d.result_book, if_pos rfl, book']
    split
    · rw [Book.mem_enlist, Book.put_mem hb]
      simp [hb]
    · exact Book.put_mem hb
  other := fun b w w' hb => d.view_other ⟨id, id⟩ (fun h => hb h.1)
  before := by
    intro w hw
    exact Option.some.inj ((view_value d.stored d.accrues hw).symm.trans d.value_eq)
  before_unlisted := fun hmem => (hs side).value_zero hmem d.value_eq
  after := fun w => d.view_own
  after_unlisted := by
    intro hmem
    have hrecords : (d.result.lending.book side).records =
        ((s.lending.book side).put (d.accrued.index side) a u d.value').records := by
      rw [d.result_book, if_pos rfl]
      exact d.book'_records
    exact (d.listed hs side).put_zero hrecords hmem

theorem converted_other (d : Posting cfg .release s u side positive a x) (hinfo : getUserInfo .release s u = some info)
    (hinfo' : getUserInfo .release d.result u = some info') (hside : side' ≠ side) :
    converted info' side' = converted info side' := by
  refine converted_congr hinfo hinfo' (by rw [d.result_book, if_neg hside]) (fun b => d.weight_result b side') ?_
  exact fun b w w' => d.view_other ⟨id, id⟩ (fun h => hside h.2.2)

/-- **The side of the call counts the new value of the position in place of the old one.** -/
theorem converted_own (d : Posting cfg .release s u side positive a x) (hs : AllListed s)
    (hinfo : getUserInfo .release s u = some info) (hinfo' : getUserInfo .release d.result u = some info')
    (hr : weight s a side = some r) :
    converted info' side + worth r d.value = converted info side + worth r d.value' :=
  (d.replaces hs).converted hinfo hinfo' hr

end Posting

end Lending
end Konomi
