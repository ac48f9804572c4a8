import Konomi.Assets.Code

/-!
# The lending pallet

`pallets/lending/src/lib.rs`, with the assets pallet as its `Oracle` and `MultiAsset`, as in the runtime. Events and
`debug::info!` are left out.

The source keeps supplies and debts in two copies of the same code (`update_user_supply` and `update_user_debt`,
`accrue_supply_with_interest` and `accrue_debt_with_interest`, `get_user_supply_with_interest` and
`get_user_debt_with_interest`). Here each pair is one function of a `Book` and an index, and the two members are that
function at their own book and index.
-/

namespace Konomi
open Machine

variable {A : Type} [DecidableEq A]

/-! ## Books -/

/-- `(index / user.index).saturating_mul_int(user.amount)` -/
def Position.accrued (p : Profile) (index : FixedU128) (user : Position) : Option Balance := do
  let ratio ← index.div user.index
  ratio.saturatingMulInt p user.amount

/-- `if positive { total += amount } else { total -= amount }` -/
def adjust (p : Profile) (positive : Bool) (total amount : Balance) : Option Balance :=
  if positive then p.add total amount else p.sub total amount

/-- `update_user_supply` and `update_user_debt`. -/
def Book.update (p : Profile) (b : Book A) (index : FixedU128) (assetId : AssetId) (account : A) (amount : Balance)
    (positive : Bool) : Option (Book A) :=
  match b.records (assetId, account) with
  | some user => do
    let accrued ← user.accrued p index
    let total ← adjust p positive accrued amount
    if total ≠ 0 then
      some { b with records := Function.update b.records (assetId, account) (some ⟨total, index⟩) }
    else
      some { records := Function.update b.records (assetId, account) none
             assets := Function.update b.assets account ((b.assets account).filter (· ≠ assetId)) }
  | none =>
    if amount ≠ 0 then
      some { b with records := Function.update b.records (assetId, account) (some ⟨amount, index⟩) }
    else some b

/-- `accrue_supply_with_interest` and `accrue_debt_with_interest`: the record is rewritten at the new index. -/
def Book.accrue (p : Profile) (b : Book A) (index : FixedU128) (assetId : AssetId) (account : A) : Option (Book A) :=
  match b.records (assetId, account) with
  | some user => do
    let accrued ← user.accrued p index
    some { b with records := Function.update b.records (assetId, account) (some ⟨accrued, index⟩) }
  | none => some b

/-- Add the asset to the account's list unless it is there. -/
def Book.enlist (b : Book A) (assetId : AssetId) (account : A) : Book A :=
  if assetId ∈ b.assets account then b
  else { b with assets := Function.update b.assets account (b.assets account ++ [assetId]) }

/-- The amount of a position at an index, zero for no position. -/
def valueAt (p : Profile) (index : FixedU128) : Option Position → Option Balance
  | some user => user.accrued p index
  | none => some 0

namespace Lending

/-! ## Interest -/

def debtRateInternal (p : Profile) (pool : Pool) : Option FixedU128 :=
  if pool.supply = 0 then some pool.initialInterestRate
  else do
    let utilizationRatio ← Fixed.saturatingFromRational p pool.debt pool.supply
    let slope ← pool.utilizationFactor.mul utilizationRatio
    pool.initialInterestRate.add p slope

def supplyRateInternal (p : Profile) (pool : Pool) : Option FixedU128 :=
  if pool.supply = 0 then some ⟨0⟩
  else do
    let utilizationRatio ← Fixed.saturatingFromRational p pool.debt pool.supply
    let debtRate ← debtRateInternal p pool
    debtRate.mul utilizationRatio

/-- `FixedU128::one() + rate * FixedU128::saturating_from_integer(elapsed_time_u32)`, with the elapsed time from
`last_updated`. -/
def multiplier (p : Profile) (now lastUpdated : BlockNumber) (rate : FixedU128) : Option FixedU128 := do
  let elapsed ← p.sub now lastUpdated
  let time ← Fixed.saturatingFromInteger p elapsed
  let interest ← rate.mul time
  Fixed.one.add p interest

def accrueInterest (p : Profile) (now : BlockNumber) (pool : Pool) : Option Pool :=
  if pool.lastUpdated = now then some pool
  else do
    let supplyRate ← supplyRateInternal p pool
    let supplyMultiplier ← multiplier p now pool.lastUpdated supplyRate
    let debtRate ← debtRateInternal p pool
    let debtMultiplier ← multiplier p now pool.lastUpdated debtRate
    let supply ← supplyMultiplier.saturatingMulInt p pool.supply
    let totalSupplyIndex ← pool.totalSupplyIndex.mul supplyMultiplier
    let debt ← debtMultiplier.saturatingMulInt p pool.debt
    let totalDebtIndex ← pool.totalDebtIndex.mul debtMultiplier
    some { pool with supply, totalSupplyIndex, debt, totalDebtIndex, lastUpdated := now }

/-! ## Positions -/

section Positions
variable (p : Profile) (l : Lending A) (pool : Pool) (assetId : AssetId) (account : A)

def updateUserSupply (amount : Balance) (positive : Bool) : Option (Lending A) := do
  let supplies ← l.supplies.update p pool.totalSupplyIndex assetId account amount positive
  some { l with supplies := supplies }

def updateUserDebt (amount : Balance) (positive : Bool) : Option (Lending A) := do
  let debts ← l.debts.update p pool.totalDebtIndex assetId account amount positive
  some { l with debts := debts }

def accrueSupplyWithInterest : Option (Lending A) := do
  let supplies ← l.supplies.accrue p pool.totalSupplyIndex assetId account
  some { l with supplies := supplies }

def accrueDebtWithInterest : Option (Lending A) := do
  let debts ← l.debts.accrue p pool.totalDebtIndex assetId account
  some { l with debts := debts }

def updatePoolSupply (amount : Balance) (positive : Bool) : Option Pool := do
  let supply ← adjust p positive pool.supply amount
  some { pool with supply := supply }

def updatePoolDebt (amount : Balance) (positive : Bool) : Option Pool := do
  let debt ← adjust p positive pool.debt amount
  some { pool with debt := debt }

/-- `Pools::<T>::insert(asset_id, pool)` -/
def commit : Lending A := { l with pools := Function.update l.pools assetId (some pool) }

end Positions

/-- The pool that `_init_pool` stores. -/
def newPool (now : BlockNumber) (id : AssetId) (canBeCollateral : Bool) : Pool where
  enabled := true
  canBeCollateral := canBeCollateral
  asset := id
  supply := 0
  debt := 0
  safeFactor := Fixed.ofRational 7 10
  closeFactor := Fixed.one
  discountFactor := Fixed.ofRational 95 100
  totalSupplyIndex := Fixed.one
  totalDebtIndex := Fixed.one
  lastUpdated := now
  utilizationFactor := Fixed.ofRational 385 10000000000
  initialInterestRate := Fixed.ofRational 385 100000000000

def _initPool (now : BlockNumber) (l : Lending A) (id : AssetId) (canBeCollateral : Bool) : Lending A :=
  l.commit (newPool now id canBeCollateral) id

/-! ## Views -/

section Views
variable (p : Profile) (s : Chain A)

/-- The index the views use: recomputed from the stored pool, without the shortcut of `accrue_interest`. -/
def supplyIndexNow (now : BlockNumber) (pool : Pool) : Option FixedU128 := do
  let rate ← supplyRateInternal p pool
  let supplyMultiplier ← multiplier p now pool.lastUpdated rate
  pool.totalSupplyIndex.mul supplyMultiplier

def debtIndexNow (now : BlockNumber) (pool : Pool) : Option FixedU128 := do
  let rate ← debtRateInternal p pool
  let debtMultiplier ← multiplier p now pool.lastUpdated rate
  pool.totalDebtIndex.mul debtMultiplier

def getUserSupplyWithInterest (assetId : AssetId) (user : A) : Option Balance :=
  match s.lending.pools assetId with
  | some pool => do
    let index ← supplyIndexNow p s.blockNumber pool
    valueAt p index (s.lending.supplies.records (assetId, user))
  | none => some 0

def getUserDebtWithInterest (assetId : AssetId) (user : A) : Option Balance :=
  match s.lending.pools assetId with
  | some pool => do
    let index ← debtIndexNow p s.blockNumber pool
    valueAt p index (s.lending.debts.records (assetId, user))
  | none => some 0

/-- Total supply, total supply weighted by the safe factors, and total debt of a user, in units of account. The
pool of a supplied asset is unwrapped. -/
def getUserInfo (user : A) : Option (Balance × Balance × Balance) := do
  let (supplyBalance, supplyConverted) ← (s.lending.supplies.assets user).foldlM
    (fun (total : Balance × Balance) asset => do
      let amount ← getUserSupplyWithInterest p s asset user
      let price := s.assets.getRate asset
      let value ← price.saturatingMulInt p amount
      let supplyBalance ← p.add total.1 value
      let pool ← s.lending.pools asset
      let factor ← price.mul pool.safeFactor
      let converted ← factor.saturatingMulInt p amount
      let supplyConverted ← p.add total.2 converted
      some (supplyBalance, supplyConverted)) (0, 0)
  let debtBalance ← (s.lending.debts.assets user).foldlM
    (fun (total : Balance) asset => do
      let amount ← getUserDebtWithInterest p s asset user
      let value ← (s.assets.getRate asset).saturatingMulInt p amount
      p.add total value) 0
  some (supplyBalance, supplyConverted, debtBalance)

def supplyRate (id : AssetId) : Option FixedU128 :=
  match s.lending.pools id with
  | some pool => supplyRateInternal p pool
  | none => some ⟨0⟩

def debtRate (id : AssetId) : Option FixedU128 :=
  match s.lending.pools id with
  | some pool => debtRateInternal p pool
  | none => some ⟨0⟩

end Views

/-! ## Dispatchables -/

/-- An `Err` of the pallet that leaves the storage `s`. -/
def fail (e : LendingError) (s : Chain A) : Option (Outcome A) := some (.error (.lending e), s)

section Calls
variable (cfg : Config A) (p : Profile) (s : Chain A)

def supply (account : A) (assetId : AssetId) (amount : Balance) : Option (Outcome A) :=
  match s.lending.pools assetId with
  | none => fail .poolNotExist s
  | some pool => do
    let pool ← accrueInterest p s.blockNumber pool
    match ← s.assets.transfer p account assetId cfg.accountId amount with
    | .error _ => fail .transferFailed s
    | .ok assets =>
      let l ← updateUserSupply p s.lending pool assetId account amount true
      let pool ← updatePoolSupply p pool amount true
      let l := { l with supplies := l.supplies.enlist assetId account }
      some (.ok (), { s with assets := assets, lending := l.commit pool assetId })

def withdraw (account : A) (assetId : AssetId) (amount : Balance) : Option (Outcome A) :=
  match s.lending.pools assetId with
  | none => fail .poolNotExist s
  | some pool => do
    let pool ← accrueInterest p s.blockNumber pool
    -- the user's record is stored here, before the checks
    let l ← accrueSupplyWithInterest p s.lending pool assetId account
    let s := { s with lending := l }
    match l.supplies.records (assetId, account) with
    | none => fail .userNoSupply s
    | some userSupply =>
      let amount := if userSupply.amount < amount then userSupply.amount else amount
      let (_, convertedSupply, convertedBorrow) ← getUserInfo p s account
      let price := s.assets.getRate assetId
      let factor ← price.mul pool.safeFactor
      let value ← factor.saturatingMulInt p amount
      let convertedSupply ← p.sub convertedSupply value
      let required ← l.liquidationThreshold.saturatingMulInt p convertedBorrow
      if convertedSupply < required then fail .belowLiquidationThreshold s
      else
        let cash ← p.sub pool.supply pool.debt
        if cash < amount then fail .notEnoughLiquidity s
        else
          match ← s.assets.transfer p cfg.accountId assetId account amount with
          | .error _ => fail .transferFailed s
          | .ok assets =>
            let l ← updateUserSupply p l pool assetId account amount false
            let pool ← updatePoolSupply p pool amount false
            some (.ok (), { s with assets := assets, lending := l.commit pool assetId })

def borrow (account : A) (assetId : AssetId) (amount : Balance) : Option (Outcome A) :=
  match s.lending.pools assetId with
  | none => fail .poolNotExist s
  | some pool => do
    let pool ← accrueInterest p s.blockNumber pool
    let cash ← p.sub pool.supply pool.debt
    if cash < amount then fail .notEnoughLiquidity s
    else
      let l ← accrueDebtWithInterest p s.lending pool assetId account
      let s := { s with lending := l }
      let (_, convertedSupply, convertedBorrow) ← getUserInfo p s account
      let price := s.assets.getRate assetId
      let value ← price.saturatingMulInt p amount
      let convertedBorrow ← p.add convertedBorrow value
      let required ← l.liquidationThreshold.saturatingMulInt p convertedBorrow
      if convertedSupply < required then fail .belowLiquidationThreshold s
      else
        match ← s.assets.transfer p cfg.accountId assetId account amount with
        | .error _ => fail .transferFailed s
        | .ok assets =>
          let l ← updateUserDebt p l pool assetId account amount true
          let pool ← updatePoolDebt p pool amount true
          let l := { l with debts := l.debts.enlist assetId account }
          some (.ok (), { s with assets := assets, lending := l.commit pool assetId })

def repay (account : A) (assetId : AssetId) (amount : Balance) : Option (Outcome A) :=
  match s.lending.pools assetId with
  | none => fail .poolNotExist s
  | some pool => do
    let pool ← accrueInterest p s.blockNumber pool
    let l ← accrueDebtWithInterest p s.lending pool assetId account
    let s := { s with lending := l }
    match l.debts.records (assetId, account) with
    | none => fail .userNoDebt s
    | some userDebt =>
      let amount := if userDebt.amount < amount then userDebt.amount else amount
      match ← s.assets.transfer p account assetId cfg.accountId amount with
      | .error _ => fail .transferFailed s
      | .ok assets =>
        let l ← updateUserDebt p l pool assetId account amount false
        let pool ← updatePoolDebt p pool amount false
        some (.ok (), { s with assets := assets, lending := l.commit pool assetId })

/-- `pay_limit` of `liquidate`: the most the liquidator may pay for the target's supply. -/
def payLimit (getPool : Pool) (getPrice payPrice : FixedU128) (targetUserSupply : Balance) : Option Balance := do
  let getLimit ← getPool.closeFactor.saturatingMulInt p targetUserSupply
  let ratio ← getPrice.div payPrice
  let factor ← ratio.mul getPool.discountFactor
  factor.saturatingMulInt p getLimit

/-- The clamped payment of `liquidate` and `get_asset_amount`, what is seized for it. -/
def paidAndSeized (getPool : Pool) (getPrice payPrice : FixedU128) (limit targetUserDebt payAssetAmount : Balance) :
    Option (Balance × Balance) := do
  let paid := if limit < payAssetAmount then limit else payAssetAmount
  let paid := if targetUserDebt < paid then targetUserDebt else paid
  let ratio ← payPrice.div getPrice
  let factor ← ratio.div getPool.discountFactor
  let seized ← factor.saturatingMulInt p paid
  some (paid, seized)

/-- What `liquidate` has fixed once its checks have passed. -/
structure Seizure (A : Type) where
  payPool : Pool
  getPool : Pool
  lending : Lending A
  paid : Balance
  seized : Balance

/-- `liquidate` up to its first transfer: an `Err` with the storage it leaves, or the terms of the seizure. -/
def seizure (targetUser : A) (payAssetId getAssetId : AssetId) (payAssetAmount : Balance) :
    Option (Except (LendingError × Lending A) (Seizure A)) :=
  match s.lending.pools getAssetId with
  | none => some (.error (.poolNotExist, s.lending))
  | some getPool =>
    if getPool.canBeCollateral = false then some (.error (.assetNotCollateral, s.lending))
    else
      match s.lending.pools payAssetId with
      | none => some (.error (.poolNotExist, s.lending))
      | some payPool => do
        let payPool ← accrueInterest p s.blockNumber payPool
        let getPool ← accrueInterest p s.blockNumber getPool
        let l ← accrueSupplyWithInterest p s.lending getPool getAssetId targetUser
        let l ← accrueDebtWithInterest p l payPool payAssetId targetUser
        let (_, convertedSupply, convertedBorrow) ← getUserInfo p { s with lending := l } targetUser
        let required ← l.liquidationThreshold.saturatingMulInt p convertedBorrow
        if required ≤ convertedSupply then some (.error (.aboveLiquidationThreshold, l))
        else
          match l.supplies.records (getAssetId, targetUser) with
          | none => some (.error (.userNoSupply, l))
          | some targetUserSupply => do
            let getPrice := s.assets.getRate getAssetId
            let payPrice := s.assets.getRate payAssetId
            let limit ← payLimit p getPool getPrice payPrice targetUserSupply.amount
            match l.debts.records (payAssetId, targetUser) with
            -- a missing debt is reported as `UserNoSupply`, as in the source
            | none => some (.error (.userNoSupply, l))
            | some targetUserDebt => do
              let (paid, seized) ← paidAndSeized p getPool getPrice payPrice limit targetUserDebt.amount
                payAssetAmount
              some (.ok ⟨payPool, getPool, l, paid, seized⟩)

def liquidate (account targetUser : A) (payAssetId getAssetId : AssetId) (payAssetAmount : Balance) :
    Option (Outcome A) := do
  match ← seizure p s targetUser payAssetId getAssetId payAssetAmount with
  | .error (e, l) => fail e { s with lending := l }
  | .ok z =>
    let s := { s with lending := z.lending }
    match ← s.assets.transfer p account payAssetId cfg.accountId z.paid with
    | .error _ => fail .transferFailed s
    | .ok assets =>
      let s := { s with assets := assets }
      match ← s.assets.transfer p cfg.accountId getAssetId account z.seized with
      | .error _ => fail .transferFailed s
      | .ok assets =>
        let l ← updateUserSupply p s.lending z.getPool getAssetId targetUser z.seized false
        let l ← updateUserDebt p l z.payPool payAssetId targetUser z.paid false
        some (.ok (), { s with
          assets := assets
          lending := (l.commit z.getPool getAssetId).commit z.payPool payAssetId })

/-- No origin check, as in the source. -/
def initPool (id : AssetId) (canBeCollateral : Bool) : Option (Outcome A) :=
  some (.ok (), { s with lending := _initPool s.blockNumber s.lending id canBeCollateral })

end Calls

inductive Call (A : Type) where
  | supply (assetId : AssetId) (amount : Balance)
  | withdraw (assetId : AssetId) (amount : Balance)
  | borrow (assetId : AssetId) (amount : Balance)
  | repay (assetId : AssetId) (amount : Balance)
  | liquidate (targetUser : A) (payAssetId getAssetId : AssetId) (payAssetAmount : Balance)
  | initPool (id : AssetId) (canBeCollateral : Bool)

def dispatch (cfg : Config A) (p : Profile) (s : Chain A) (origin : Origin A) : Call A → Option (Outcome A)
  | .supply assetId amount => ensureSigned s origin fun account => supply cfg p s account assetId amount
  | .withdraw assetId amount => ensureSigned s origin fun account => withdraw cfg p s account assetId amount
  | .borrow assetId amount => ensureSigned s origin fun account => borrow cfg p s account assetId amount
  | .repay assetId amount => ensureSigned s origin fun account => repay cfg p s account assetId amount
  | .liquidate targetUser payAssetId getAssetId payAssetAmount => ensureSigned s origin fun account =>
      liquidate cfg p s account targetUser payAssetId getAssetId payAssetAmount
  | .initPool id canBeCollateral => initPool s id canBeCollateral

end Lending
end Konomi
