import Konomi.Lending.Books
import Konomi.Swap.Liquidity

/-!
# What a lending call does

`dispatch_cases` inverts a call of the pallet, once for every outcome. A call of a user on its own position that
returns `Ok` is a `Posting`: supply, withdraw, borrow and repay differ in the side of the book, in the sign, and in
who pays. A liquidation fixes its `Terms`; one that returns `Ok` is a `Settlement`. An `Err` writes nothing, or the
accrued records of the positions the call looked at (`Step.touched`, `Step.assessed`), or those and the payment of a
liquidator whose seizure failed (`Step.halfway`).
-/

namespace Konomi.Lending
open Machine Assets

variable {A : Type} [DecidableEq A]

/-! ## Calls on one's own position -/

/-- The side a call posts to, whether it adds, the asset and the amount asked for. -/
def Call.entry : Call A → Option (Side × Bool × AssetId × Balance)
  | .supply assetId amount => some (.supply, true, assetId, amount)
  | .withdraw assetId amount => some (.supply, false, assetId, amount)
  | .borrow assetId amount => some (.debt, true, assetId, amount)
  | .repay assetId amount => some (.debt, false, assetId, amount)
  | _ => none

/-- Supplying and repaying pay in, withdrawing and borrowing pay out. -/
def inflow : Side → Bool → Bool
  | .supply, positive => positive
  | .debt, positive => !positive

def payer (cfg : Config A) (u : A) (side : Side) (positive : Bool) : A :=
  if inflow side positive then u else cfg.accountId

def payee (cfg : Config A) (u : A) (side : Side) (positive : Bool) : A :=
  if inflow side positive then cfg.accountId else u

omit [DecidableEq A] in
theorem payer_not (cfg : Config A) (u : A) (side : Side) (positive : Bool) :
    payer cfg u side (!positive) = payee cfg u side positive ∧
      payee cfg u side (!positive) = payer cfg u side positive := by
  cases side <;> cases positive <;> exact ⟨rfl, rfl⟩

/-- What a call transfers. Withdrawals and repayments are clamped to the value of the position. -/
def transferred (positive : Bool) (value x : Balance) : Balance :=
  if positive then x else if value < x then value else x

/-- The collateral checks of `withdraw` and `borrow`, on the storage `s` with the caller's record accrued. -/
def Collateral (p : Profile) (s : Chain A) (pool : Pool) (a : AssetId) (u : A) (m : Balance) : Side → Bool → Prop
  | .supply, false => ∃ info factor value left required, getUserInfo p s u = some info ∧
      (s.assets.getRate a).mul pool.safeFactor = some factor ∧ factor.saturatingMulInt p m = some value ∧
      p.sub info.2.1 value = some left ∧
      s.lending.liquidationThreshold.saturatingMulInt p info.2.2 = some required ∧ ¬ left < required
  | .debt, true => ∃ info value owed required, getUserInfo p s u = some info ∧
      (s.assets.getRate a).saturatingMulInt p m = some value ∧ p.add info.2.2 value = some owed ∧
      s.lending.liquidationThreshold.saturatingMulInt p owed = some required ∧ ¬ info.2.1 < required
  | _, _ => True

/-- A call of `u` on its own position that returned `Ok`. -/
structure Posting (cfg : Config A) (p : Profile) (s : Chain A) (u : A) (side : Side) (positive : Bool) (a : AssetId)
    (x : Balance) where
  pool : Pool
  accrued : Pool
  value : Balance
  amount : Balance
  value' : Balance
  total' : Balance
  assets : Assets A
  stored : s.lending.pools a = some pool
  accrues : accrueInterest p s.blockNumber pool = some accrued
  value_eq : valueAt p (accrued.index side) ((s.lending.book side).records (a, u)) = some value
  amount_eq : amount = transferred positive value x
  pays : s.assets.transfer p (payer cfg u side positive) a (payee cfg u side positive) amount = some (.ok assets)
  value'_eq : adjust p positive value amount = some value'
  total'_eq : adjust p positive (accrued.total side) amount = some total'
  checks : inflow side positive = false → ∃ touched cash,
    (s.lending.book side).accrue p (accrued.index side) a u = some touched ∧
    p.sub accrued.supply accrued.debt = some cash ∧ ¬ cash < amount ∧
    Collateral p { s with lending := s.lending.setBook touched side } accrued a u amount side positive

namespace Posting
variable {cfg : Config A} {p : Profile} {s : Chain A} {u : A} {side : Side} {positive : Bool} {a : AssetId}
  {x : Balance}

/-- The book of the side after the call. -/
def book' (d : Posting cfg p s u side positive a x) : Book A :=
  let b := (s.lending.book side).put (d.accrued.index side) a u d.value'
  if positive then b.enlist a u else b

def result (d : Posting cfg p s u side positive a x) : Chain A :=
  { s with
    assets := d.assets
    lending := (s.lending.setBook d.book' side).commit (d.accrued.setTotal d.total' side) a }

theorem result_pools (d : Posting cfg p s u side positive a x) :
    d.result.lending.pools = Function.update s.lending.pools a (some (d.accrued.setTotal d.total' side)) := by
  cases side <;> rfl

theorem result_book (d : Posting cfg p s u side positive a x) (side' : Side) :
    d.result.lending.book side' = if side' = side then d.book' else s.lending.book side' := by
  cases side <;> cases side' <;> rfl

theorem covered (d : Posting cfg p s u side positive a x) :
    s.assets.Covered (payer cfg u side positive) a d.amount := (transfer_ok d.pays).1

theorem amount_le_value (d : Posting cfg p s u side false a x) : d.amount ≤ d.value := by
  rw [d.amount_eq]
  simp only [transferred, Bool.false_eq_true, if_false]
  split
  · exact BitVec.le_refl _
  · exact BitVec.not_lt.mp ‹_›

@[simp] theorem book'_records (d : Posting cfg p s u side positive a x) :
    d.book'.records = ((s.lending.book side).put (d.accrued.index side) a u d.value').records := by
  unfold book'
  dsimp only
  split
  · exact Book.enlist_records _ _ _
  · rfl

theorem records_other (d : Posting cfg p s u side positive a x) {b : AssetId} {v : A} {side' : Side}
    (hne : ¬ (b = a ∧ v = u ∧ side' = side)) :
    (d.result.lending.book side').records (b, v) = (s.lending.book side').records (b, v) := by
  rw [d.result_book]
  split
  · rename_i hside
    subst hside
    rw [d.book'_records, Book.put_records_of_ne _ _ _ (fun e => hne ⟨(Prod.mk.inj e).1, (Prod.mk.inj e).2, rfl⟩)]
  · rfl

end Posting

/-- What a call of `u` on its own position finds in the storage before it writes, when its payer covers the
transfer. -/
structure Ready (cfg : Config A) (s : Chain A) (u : A) (call : Call A) where
  side : Side
  positive : Bool
  a : AssetId
  x : Balance
  pool : Pool
  accrued : Pool
  value : Balance
  entry : call.entry = some (side, positive, a, x)
  stored : s.lending.pools a = some pool
  accrues : accrueInterest .release s.blockNumber pool = some accrued
  value_eq : valueAt .release (accrued.index side) ((s.lending.book side).records (a, u)) = some value
  covered : s.assets.Covered (payer cfg u side positive) a (transferred positive value x)

def Posting.ready {cfg : Config A} {s : Chain A} {u : A} {side : Side} {positive : Bool} {a : AssetId} {x : Balance}
    {call : Call A} (d : Posting cfg .release s u side positive a x)
    (entry : call.entry = some (side, positive, a, x)) : Ready cfg s u call where
  side := side
  positive := positive
  a := a
  x := x
  pool := d.pool
  accrued := d.accrued
  value := d.value
  entry := entry
  stored := d.stored
  accrues := d.accrues
  value_eq := d.value_eq
  covered := by
    rw [← d.amount_eq]
    exact d.covered

/-! ## Liquidations -/

/-- Both positions of the target accrued, in memory and in storage. -/
structure Assessment (p : Profile) (s : Chain A) (t : A) (payId getId : AssetId) where
  payPool : Pool
  getPool : Pool
  payAccrued : Pool
  getAccrued : Pool
  supplies : Book A
  debts : Book A
  pay_stored : s.lending.pools payId = some payPool
  get_stored : s.lending.pools getId = some getPool
  collateral : getPool.canBeCollateral = true
  pay_accrues : accrueInterest p s.blockNumber payPool = some payAccrued
  get_accrues : accrueInterest p s.blockNumber getPool = some getAccrued
  supplies_eq : s.lending.supplies.accrue p getAccrued.totalSupplyIndex getId t = some supplies
  debts_eq : s.lending.debts.accrue p payAccrued.totalDebtIndex payId t = some debts

def Assessment.lending {p : Profile} {s : Chain A} {t : A} {payId getId : AssetId}
    (d : Assessment p s t payId getId) : Lending A :=
  { s.lending with supplies := d.supplies, debts := d.debts }

/-- The terms of a liquidation that passed its checks. -/
structure Terms (p : Profile) (s : Chain A) (t : A) (payId getId : AssetId) (x : Balance) extends
    Assessment p s t payId getId where
  supplied : Balance
  owed : Balance
  limit : Balance
  paid : Balance
  seized : Balance
  below : ∃ info required, getUserInfo p { s with lending := toAssessment.lending } t = some info ∧
    s.lending.liquidationThreshold.saturatingMulInt p info.2.2 = some required ∧ ¬ required ≤ info.2.1
  supplied_eq : valueAt p getAccrued.totalSupplyIndex (s.lending.supplies.records (getId, t)) = some supplied
  owed_eq : valueAt p payAccrued.totalDebtIndex (s.lending.debts.records (payId, t)) = some owed
  supplied_some : (supplies.records (getId, t)).isSome
  owed_some : (debts.records (payId, t)).isSome
  limit_eq : payLimit p getAccrued (s.assets.getRate getId) (s.assets.getRate payId) supplied = some limit
  amounts_eq : paidAndSeized p getAccrued (s.assets.getRate getId) (s.assets.getRate payId) limit owed x =
    some (paid, seized)

def Terms.seizure {p : Profile} {s : Chain A} {t : A} {payId getId : AssetId} {x : Balance}
    (d : Terms p s t payId getId x) : Seizure A :=
  ⟨d.payAccrued, d.getAccrued, d.lending, d.paid, d.seized⟩

/-- A liquidation by `u` that returned `Ok`. -/
structure Settlement (cfg : Config A) (p : Profile) (s : Chain A) (u t : A) (payId getId : AssetId) (x : Balance)
    extends Terms p s t payId getId x where
  paidAssets : Assets A
  assets : Assets A
  supplied' : Balance
  owed' : Balance
  pays : s.assets.transfer p u payId cfg.accountId paid = some (.ok paidAssets)
  seizes : paidAssets.transfer p cfg.accountId getId u seized = some (.ok assets)
  supplied'_eq : adjust p false supplied seized = some supplied'
  owed'_eq : adjust p false owed paid = some owed'

/-- The two accrued pools are stored as they are: their totals are not adjusted. -/
def Settlement.result {cfg : Config A} {p : Profile} {s : Chain A} {u t : A} {payId getId : AssetId} {x : Balance}
    (d : Settlement cfg p s u t payId getId x) : Chain A :=
  { s with
    assets := d.assets
    lending :=
      (({ s.lending with
          supplies := s.lending.supplies.put d.getAccrued.totalSupplyIndex getId t d.supplied'
          debts := s.lending.debts.put d.payAccrued.totalDebtIndex payId t d.owed' } : Lending A).commit
        d.getAccrued getId).commit d.payAccrued payId }

/-! ## Inversion -/

/-- What a signed call can do. -/
inductive Step (cfg : Config A) (p : Profile) (s : Chain A) (u : A) :
    Call A → Except DispatchError Unit → Chain A → Prop
  | refused {call : Call A} (e : DispatchError) : Step cfg p s u call (.error e) s
  | touched {call : Call A} (side : Side) {positive : Bool} {a : AssetId} {x : Balance} {pool accrued : Pool}
      {b : Book A} (e : DispatchError) (entry : call.entry = some (side, positive, a, x))
      (stored : s.lending.pools a = some pool) (accrues : accrueInterest p s.blockNumber pool = some accrued)
      (book : (s.lending.book side).accrue p (accrued.index side) a u = some b) :
      Step cfg p s u call (.error e) { s with lending := s.lending.setBook b side }
  | posted {call : Call A} (side : Side) (positive : Bool) {a : AssetId} {x : Balance}
      (entry : call.entry = some (side, positive, a, x)) (d : Posting cfg p s u side positive a x) :
      Step cfg p s u call (.ok ()) d.result
  | assessed {t : A} {payId getId : AssetId} {x : Balance} (e : DispatchError) (d : Assessment p s t payId getId) :
      Step cfg p s u (.liquidate t payId getId x) (.error e) { s with lending := d.lending }
  | halfway {t : A} {payId getId : AssetId} {x : Balance} {assets : Assets A} {m : String} (e : DispatchError)
      (d : Terms p s t payId getId x) (pays : s.assets.transfer p u payId cfg.accountId d.paid = some (.ok assets))
      (refuses : assets.transfer p cfg.accountId getId u d.seized = some (.error m)) :
      Step cfg p s u (.liquidate t payId getId x) (.error e) { s with lending := d.lending, assets := assets }
  | settled {t : A} {payId getId : AssetId} {x : Balance} (d : Settlement cfg p s u t payId getId x) :
      Step cfg p s u (.liquidate t payId getId x) (.ok ()) d.result

section Inversion
variable {cfg : Config A} {p : Profile} {s s' : Chain A} {u t : A} {a payId getId : AssetId} {x : Balance}
  {r : Except DispatchError Unit}

theorem supply_cases (h : supply cfg p s u a x = some (r, s')) : Step cfg p s u (.supply a x) r s' := by
  unfold supply at h
  cases hpool : s.lending.pools a with
  | none =>
    rw [hpool] at h
    cases h
    exact Step.refused _
  | some pool =>
    rw [hpool] at h
    obtain ⟨q, hq, h⟩ := Option.bind_eq_some_iff.mp h
    obtain ⟨t, ht, h⟩ := Option.bind_eq_some_iff.mp h
    cases t with
    | error e =>
      cases h
      exact Step.refused _
    | ok assets =>
      obtain ⟨l, hl, h⟩ := Option.bind_eq_some_iff.mp h
      obtain ⟨b, hb, hl⟩ := Option.bind_eq_some_iff.mp hl
      cases hl
      obtain ⟨q', hq', h⟩ := Option.bind_eq_some_iff.mp h
      obtain ⟨total, htotal, hq'⟩ := Option.bind_eq_some_iff.mp hq'
      cases hq'
      cases h
      obtain ⟨v, v', hv, hv', rfl⟩ := Book.update_eq_put hb (transfer_ok ht).1.1 (Or.inl rfl)
      exact Step.posted .supply true rfl
        ⟨pool, q, v, x, v', total, assets, hpool, hq, hv, rfl, ht, hv', htotal, fun h => by cases h⟩

theorem withdraw_cases (h : withdraw cfg p s u a x = some (r, s')) : Step cfg p s u (.withdraw a x) r s' := by
  unfold withdraw at h
  cases hpool : s.lending.pools a with
  | none =>
    rw [hpool] at h
    cases h
    exact Step.refused _
  | some pool =>
    rw [hpool] at h
    obtain ⟨q, hq, h⟩ := Option.bind_eq_some_iff.mp h
    obtain ⟨l, hl, h⟩ := Option.bind_eq_some_iff.mp h
    obtain ⟨b, hb, hl⟩ := Option.bind_eq_some_iff.mp hl
    cases hl
    have herr : ∀ e, Step cfg p s u (.withdraw a x) (.error e) { s with lending := { s.lending with supplies := b } } :=
      fun e => Step.touched .supply e rfl hpool hq hb
    dsimp only at h
    cases hr : b.records (a, u) with
    | none =>
      rw [hr] at h
      cases h
      exact herr _
    | some user =>
      rw [hr] at h
      dsimp only at h
      obtain ⟨hval, _, _⟩ := Book.accrue_record hb hr
      generalize hm : (if user.amount < x then user.amount else x) = m at h
      obtain ⟨info, hinfo, h⟩ := Option.bind_eq_some_iff.mp h
      obtain ⟨factor, hfactor, h⟩ := Option.bind_eq_some_iff.mp h
      obtain ⟨value, hvalue, h⟩ := Option.bind_eq_some_iff.mp h
      obtain ⟨left, hleft, h⟩ := Option.bind_eq_some_iff.mp h
      obtain ⟨required, hrequired, h⟩ := Option.bind_eq_some_iff.mp h
      split at h
      · cases h
        exact herr _
      · obtain ⟨cash, hcash, h⟩ := Option.bind_eq_some_iff.mp h
        split at h
        · cases h
          exact herr _
        · obtain ⟨t, ht, h⟩ := Option.bind_eq_some_iff.mp h
          cases t with
          | error e =>
            cases h
            exact herr _
          | ok assets =>
            obtain ⟨l, hl, h⟩ := Option.bind_eq_some_iff.mp h
            obtain ⟨b', hb', hl⟩ := Option.bind_eq_some_iff.mp hl
            cases hl
            obtain ⟨q', hq', h⟩ := Option.bind_eq_some_iff.mp h
            obtain ⟨total, htotal, hq'⟩ := Option.bind_eq_some_iff.mp hq'
            cases hq'
            cases h
            obtain ⟨v, v', hv, hv', rfl⟩ := Book.accrue_update_eq_put hb hb' (transfer_ok ht).1.1
              (Or.inr (by rw [hr]; rfl))
            rw [hv] at hval
            cases hval
            exact Step.posted .supply false rfl
              ⟨pool, q, _, m, v', total, assets, hpool, hq, hv, hm.symm, ht, hv', htotal,
                fun _ => ⟨b, cash, hb, hcash, ‹_›, info, factor, value, left, required, hinfo, hfactor, hvalue,
                  hleft, hrequired, ‹_›⟩⟩

theorem borrow_cases (h : borrow cfg p s u a x = some (r, s')) : Step cfg p s u (.borrow a x) r s' := by
  unfold borrow at h
  cases hpool : s.lending.pools a with
  | none =>
    rw [hpool] at h
    cases h
    exact Step.refused _
  | some pool =>
    rw [hpool] at h
    obtain ⟨q, hq, h⟩ := Option.bind_eq_some_iff.mp h
    obtain ⟨cash, hcash, h⟩ := Option.bind_eq_some_iff.mp h
    split at h
    · cases h
      exact Step.refused _
    · obtain ⟨l, hl, h⟩ := Option.bind_eq_some_iff.mp h
      obtain ⟨b, hb, hl⟩ := Option.bind_eq_some_iff.mp hl
      cases hl
      have herr : ∀ e, Step cfg p s u (.borrow a x) (.error e) { s with lending := { s.lending with debts := b } } :=
        fun e => Step.touched .debt e rfl hpool hq hb
      obtain ⟨info, hinfo, h⟩ := Option.bind_eq_some_iff.mp h
      obtain ⟨value, hvalue, h⟩ := Option.bind_eq_some_iff.mp h
      obtain ⟨owed, howed, h⟩ := Option.bind_eq_some_iff.mp h
      obtain ⟨required, hrequired, h⟩ := Option.bind_eq_some_iff.mp h
      split at h
      · cases h
        exact herr _
      · obtain ⟨t, ht, h⟩ := Option.bind_eq_some_iff.mp h
        cases t with
        | error e =>
          cases h
          exact herr _
        | ok assets =>
          obtain ⟨l, hl, h⟩ := Option.bind_eq_some_iff.mp h
          obtain ⟨b', hb', hl⟩ := Option.bind_eq_some_iff.mp hl
          cases hl
          obtain ⟨q', hq', h⟩ := Option.bind_eq_some_iff.mp h
          obtain ⟨total, htotal, hq'⟩ := Option.bind_eq_some_iff.mp hq'
          cases hq'
          cases h
          obtain ⟨v, v', hv, hv', rfl⟩ := Book.accrue_update_eq_put hb hb' (transfer_ok ht).1.1 (Or.inl rfl)
          exact Step.posted .debt true rfl
            ⟨pool, q, v, x, v', total, assets, hpool, hq, hv, rfl, ht, hv', htotal,
              fun _ => ⟨b, cash, hb, hcash, ‹_›, info, value, owed, required, hinfo, hvalue, howed, hrequired, ‹_›⟩⟩

theorem repay_cases (h : repay cfg p s u a x = some (r, s')) : Step cfg p s u (.repay a x) r s' := by
  unfold repay at h
  cases hpool : s.lending.pools a with
  | none =>
    rw [hpool] at h
    cases h
    exact Step.refused _
  | some pool =>
    rw [hpool] at h
    obtain ⟨q, hq, h⟩ := Option.bind_eq_some_iff.mp h
    obtain ⟨l, hl, h⟩ := Option.bind_eq_some_iff.mp h
    obtain ⟨b, hb, hl⟩ := Option.bind_eq_some_iff.mp hl
    cases hl
    have herr : ∀ e, Step cfg p s u (.repay a x) (.error e) { s with lending := { s.lending with debts := b } } :=
      fun e => Step.touched .debt e rfl hpool hq hb
    dsimp only at h
    cases hr : b.records (a, u) with
    | none =>
      rw [hr] at h
      cases h
      exact herr _
    | some user =>
      rw [hr] at h
      dsimp only at h
      obtain ⟨hval, _, _⟩ := Book.accrue_record hb hr
      obtain ⟨t, ht, h⟩ := Option.bind_eq_some_iff.mp h
      cases t with
      | error e =>
        cases h
        exact herr _
      | ok assets =>
        obtain ⟨l, hl, h⟩ := Option.bind_eq_some_iff.mp h
        obtain ⟨b', hb', hl⟩ := Option.bind_eq_some_iff.mp hl
        cases hl
        obtain ⟨q', hq', h⟩ := Option.bind_eq_some_iff.mp h
        obtain ⟨total, htotal, hq'⟩ := Option.bind_eq_some_iff.mp hq'
        cases hq'
        cases h
        obtain ⟨v, v', hv, hv', rfl⟩ := Book.accrue_update_eq_put hb hb' (transfer_ok ht).1.1
          (Or.inr (by rw [hr]; rfl))
        rw [hv] at hval
        cases hval
        exact Step.posted .debt false rfl
          ⟨pool, q, _, _, v', total, assets, hpool, hq, hv, rfl, ht, hv', htotal, fun h => by cases h⟩

/-- A seizure is refused before it reads a position, after the test of the target's totals, or has its terms. -/
theorem seizure_cases {o : Except (LendingError × Lending A) (Seizure A)}
    (h : seizure p s t payId getId x = some o) :
    (∃ e, o = .error (e, s.lending) ∧ e ≠ .aboveLiquidationThreshold) ∨
    (∃ e, ∃ d : Assessment p s t payId getId, o = .error (e, d.lending) ∧
      (e = .aboveLiquidationThreshold → ∃ info required,
        getUserInfo p { s with lending := d.lending } t = some info ∧
        s.lending.liquidationThreshold.saturatingMulInt p info.2.2 = some required ∧ required ≤ info.2.1)) ∨
    (∃ d : Terms p s t payId getId x, o = .ok d.seizure) := by
  unfold seizure at h
  cases hget : s.lending.pools getId with
  | none =>
    rw [hget] at h
    cases h
    exact Or.inl ⟨_, rfl, nofun⟩
  | some getPool =>
    rw [hget] at h
    dsimp only at h
    split at h
    · cases h
      exact Or.inl ⟨_, rfl, nofun⟩
    · rename_i hcollateral
      cases hpay : s.lending.pools payId with
      | none =>
        rw [hpay] at h
        cases h
        exact Or.inl ⟨_, rfl, nofun⟩
      | some payPool =>
        rw [hpay] at h
        obtain ⟨qp, hqp, h⟩ := Option.bind_eq_some_iff.mp h
        obtain ⟨qg, hqg, h⟩ := Option.bind_eq_some_iff.mp h
        obtain ⟨l, hl, h⟩ := Option.bind_eq_some_iff.mp h
        obtain ⟨b, hb, hl⟩ := Option.bind_eq_some_iff.mp hl
        cases hl
        obtain ⟨l, hl, h⟩ := Option.bind_eq_some_iff.mp h
        obtain ⟨b', hb', hl⟩ := Option.bind_eq_some_iff.mp hl
        cases hl
        let d : Assessment p s t payId getId :=
          ⟨payPool, getPool, qp, qg, b, b', hpay, hget, by simpa using hcollateral, hqp, hqg, hb, hb'⟩
        obtain ⟨info, hinfo, h⟩ := Option.bind_eq_some_iff.mp h
        obtain ⟨required, hrequired, h⟩ := Option.bind_eq_some_iff.mp h
        split at h
        · cases h
          exact Or.inr (Or.inl ⟨_, d, rfl, fun _ => ⟨info, required, hinfo, hrequired, ‹_›⟩⟩)
        · cases hr : b.records (getId, t) with
          | none =>
            simp only [hr] at h
            cases h
            exact Or.inr (Or.inl ⟨_, d, rfl, nofun⟩)
          | some userSupply =>
            simp only [hr] at h
            obtain ⟨limit, hlimit, h⟩ := Option.bind_eq_some_iff.mp h
            cases hr' : b'.records (payId, t) with
            | none =>
              simp only [hr'] at h
              cases h
              exact Or.inr (Or.inl ⟨_, d, rfl, nofun⟩)
            | some userDebt =>
              simp only [hr'] at h
              obtain ⟨⟨paid, seized⟩, hamounts, h⟩ := Option.bind_eq_some_iff.mp h
              cases h
              exact Or.inr (Or.inr ⟨⟨d, userSupply.amount, userDebt.amount, limit, paid, seized,
                ⟨info, required, hinfo, hrequired, ‹_›⟩, (Book.accrue_record hb hr).1,
                (Book.accrue_record hb' hr').1, by rw [hr]; rfl, by rw [hr']; rfl, hlimit, hamounts⟩, rfl⟩)

theorem liquidate_cases (h : liquidate cfg p s u t payId getId x = some (r, s')) :
    Step cfg p s u (.liquidate t payId getId x) r s' := by
  obtain ⟨o, ho, h⟩ := Option.bind_eq_some_iff.mp h
  rcases seizure_cases ho with ⟨e, rfl, _⟩ | ⟨e, d, rfl, _⟩ | ⟨d, rfl⟩
  · cases h
    exact Step.refused _
  · cases h
    exact Step.assessed _ d
  · obtain ⟨o, hpays, h⟩ := Option.bind_eq_some_iff.mp h
    cases o with
    | error m =>
      cases h
      exact Step.assessed _ d.toAssessment
    | ok st₁ =>
      obtain ⟨o, hseizes, h⟩ := Option.bind_eq_some_iff.mp h
      cases o with
      | error m =>
        cases h
        exact Step.halfway _ d hpays hseizes
      | ok st₂ =>
        obtain ⟨l, hl, h⟩ := Option.bind_eq_some_iff.mp h
        obtain ⟨b, hb, hl⟩ := Option.bind_eq_some_iff.mp hl
        cases hl
        obtain ⟨l, hl, h⟩ := Option.bind_eq_some_iff.mp h
        obtain ⟨b', hb', hl⟩ := Option.bind_eq_some_iff.mp hl
        cases hl
        cases h
        obtain ⟨v, v', hv, hv', rfl⟩ := Book.accrue_update_eq_put d.supplies_eq hb (transfer_ok hseizes).1.1
          (Or.inr d.supplied_some)
        obtain ⟨w, w', hw, hw', rfl⟩ := Book.accrue_update_eq_put d.debts_eq hb' (transfer_ok hpays).1.1
          (Or.inr d.owed_some)
        rw [d.supplied_eq] at hv
        cases hv
        rw [d.owed_eq] at hw
        cases hw
        exact Step.settled ⟨d, st₁, st₂, v', w', hpays, hseizes, hv', hw'⟩

/-- **Every outcome of a lending call.** -/
theorem dispatch_cases {origin : Origin A} {call : Call A} (h : dispatch cfg p s origin call = some (r, s')) :
    (∃ u, origin = .signed u ∧ Step cfg p s u call r s') ∨ ((∃ e, r = .error e) ∧ s' = s) ∨
    (∃ id c, call = .initPool id c ∧ r = .ok () ∧
      s' = { s with lending := _initPool s.blockNumber s.lending id c }) := by
  have hsigned : ∀ {f : A → Option (Outcome A)}, ensureSigned s origin f = some (r, s') →
      (∀ u, f u = some (r, s') → Step cfg p s u call r s') →
      (∃ u, origin = .signed u ∧ Step cfg p s u call r s') ∨ ((∃ e, r = .error e) ∧ s' = s) := by
    intro f hf hstep
    rcases ensureSigned_cases hf with ⟨u, hu, hf⟩ | ⟨_, hr, hs⟩
    · exact Or.inl ⟨u, hu, hstep u hf⟩
    · exact Or.inr ⟨⟨_, hr⟩, hs⟩
  rw [← or_assoc]
  cases call with
  | initPool id c =>
    cases h
    exact Or.inr ⟨id, c, rfl, rfl, rfl⟩
  | supply a x => exact Or.inl (hsigned h fun u => supply_cases)
  | withdraw a x => exact Or.inl (hsigned h fun u => withdraw_cases)
  | borrow a x => exact Or.inl (hsigned h fun u => borrow_cases)
  | repay a x => exact Or.inl (hsigned h fun u => repay_cases)
  | liquidate t payId getId x => exact Or.inl (hsigned h fun u => liquidate_cases)

theorem dispatch_posted {call : Call A} {side : Side} {positive : Bool}
    (h : dispatch cfg p s (.signed u) call = some (.ok (), s')) (entry : call.entry = some (side, positive, a, x)) :
    ∃ d : Posting cfg p s u side positive a x, s' = d.result := by
  rcases dispatch_cases h with ⟨v, hv, hstep⟩ | ⟨⟨_, ⟨⟩⟩, _⟩ | ⟨id, c, rfl, _⟩
  · cases hv
    cases hstep with
    | posted side' positive' entry' d =>
      cases entry.symm.trans entry'
      exact ⟨d, rfl⟩
    | settled d => cases entry
  · cases entry

end Inversion

/-! ## Balances -/

section Balances
variable {cfg : Config A} {p : Profile} {s s' : Chain A} {r : Except DispatchError Unit}

/-- Who pays in a lending call: its signer, or the pallet. -/
def Payer (cfg : Config A) (origin : Origin A) (y : A) : Prop := origin = .signed y ∨ y = cfg.accountId

omit [DecidableEq A] in
theorem payer_mem (cfg : Config A) (u : A) (side : Side) (positive : Bool) :
    Payer cfg (.signed u) (payer cfg u side positive) := by
  unfold payer
  split
  · exact Or.inl rfl
  · exact Or.inr rfl

/-- **A lending call moves balances by transfers of its signer and of the pallet, and leaves the rest of the chain
alone.** -/
theorem lending_moves {origin : Origin A} {call : Call A} (h : dispatch cfg p s origin call = some (r, s')) :
    Moves p (Payer cfg origin) s.assets s'.assets ∧ s'.swap = s.swap ∧ s'.blockNumber = s.blockNumber := by
  rcases dispatch_cases h with ⟨u, rfl, hstep⟩ | ⟨_, rfl⟩ | ⟨id, c, rfl, rfl, rfl⟩
  · cases hstep with
    | refused => exact ⟨Moves.refl, rfl, rfl⟩
    | touched => exact ⟨Moves.refl, rfl, rfl⟩
    | posted side positive _ d => exact ⟨Moves.one (payer_mem cfg u _ _) d.pays, rfl, rfl⟩
    | assessed => exact ⟨Moves.refl, rfl, rfl⟩
    | halfway _ d hpays => exact ⟨Moves.one (Or.inl rfl) hpays, rfl, rfl⟩
    | settled d =>
      have hpaid : Moves p (Payer cfg (.signed u)) s.assets d.paidAssets := Moves.one (Or.inl rfl) d.pays
      exact ⟨hpaid.tail (Or.inr rfl) d.seizes, rfl, rfl⟩
  · exact ⟨Moves.refl, rfl, rfl⟩
  · exact ⟨Moves.refl, rfl, rfl⟩

end Balances

end Konomi.Lending

namespace Konomi
open Machine

variable {A : Type} [DecidableEq A] {cfg : Config A} {p : Profile} {s s' : Chain A} {l : Action A}

/-- **Every action, from the point of view of the lending pallet**: a later block, one of its calls, or a call of
another pallet that leaves its storage alone. -/
theorem step_cases (h : step cfg p s l = some s') :
    (∃ block, l = .advance block ∧ s.blockNumber < block ∧ s' = { s with blockNumber := block }) ∨
    (∃ origin c r, l = .call origin (.lending c) ∧ Lending.dispatch cfg p s origin c = some (r, s')) ∨
    (∃ origin c r, l = .call origin c ∧ (∀ c', c ≠ .lending c') ∧ dispatch cfg p s origin c = some (r, s') ∧
      s'.lending = s.lending ∧ s'.blockNumber = s.blockNumber) := by
  cases l with
  | advance block => exact Or.inl ⟨block, rfl, step_advance h⟩
  | call origin call =>
    obtain ⟨⟨r, t⟩, hd, rfl⟩ := Option.map_eq_some_iff.mp h
    cases call with
    | lending c => exact Or.inr (Or.inl ⟨origin, c, r, rfl, hd⟩)
    | assets c =>
      obtain ⟨st', _, rfl⟩ := Assets.dispatch_cases hd
      exact Or.inr (Or.inr ⟨origin, .assets c, r, rfl, (by rintro _ ⟨⟩), hd, rfl, rfl⟩)
    | swap c =>
      obtain ⟨_, hlending, hblock⟩ := Swap.swap_moves hd
      exact Or.inr (Or.inr ⟨origin, .swap c, r, rfl, (by rintro _ ⟨⟩), hd, hlending, hblock⟩)

end Konomi
