import Konomi.Lib.Fixed

/-!
# The storage of the runtime

The types of `runtime/src/lib.rs` and the `decl_storage!` items of the assets, swap and lending pallets.
`Balance` is `u128`, `AssetId` is `u64`, `BlockNumber` is `u32`; account ids are an arbitrary type, a finite one where a
sum over all accounts is taken (they are 32 bytes). A storage map is a function, with the default value where nothing is
stored.

The two sides of the lending pallet, supplies and debts, are stored in the same shape (a double map of positions
and a list of assets for each account): a `Book`.
-/

namespace Konomi
open Machine

abbrev Balance := BitVec 128

abbrev AssetId := BitVec 64

abbrev BlockNumber := BitVec 32

/-- Units of a `FixedU128` in the whole number one. -/
abbrev accuracy : Nat := 1000000000000000000

instance : NeZero accuracy := ⟨by decide⟩

abbrev FixedU128 := Fixed 128 accuracy

/-- What the pallets take from their configuration traits: the account of the lending pallet
(`PALLET_ID.into_account()`) and the address of a swap pool (`T::ExchangeAddress`). -/
structure Config (A : Type) where
  accountId : A
  makeExchangeAddress : AssetId → AssetId → A

inductive Origin (A : Type) where
  | root
  | signed (account : A)
  | none
  deriving DecidableEq

/-- `decl_error!` of the lending pallet. -/
inductive LendingError where
  | transferFailed
  | notEnoughLiquidity
  | poolNotExist
  | assetNotCollateral
  | aboveLiquidationThreshold
  | belowLiquidationThreshold
  | userNoSupply
  | userNoDebt
  deriving DecidableEq

inductive DispatchError where
  | badOrigin
  | other (message : String)
  | lending (error : LendingError)
  deriving DecidableEq

/-! ## Assets -/

structure Assets (A : Type) where
  nextAssetId : AssetId
  totalSupply : AssetId → Balance
  balances : AssetId × A → Balance
  inherentAsset : AssetId
  price : AssetId → FixedU128
  owner : A

/-! ## Swap -/

/-- `exchangeAccounts` is written by `_add_liquidity` and read by nothing in the runtime. -/
structure Swap (A : Type) where
  feeRateGlobal : BitVec 64
  totalLiquidities : AssetId → Balance
  accountLiquidities : AssetId × A → Balance
  exchangeAccounts : AssetId → Option A

/-! ## Lending -/

structure Pool where
  enabled : Bool
  canBeCollateral : Bool
  asset : AssetId
  supply : Balance
  debt : Balance
  safeFactor : FixedU128
  closeFactor : FixedU128
  discountFactor : FixedU128
  totalSupplyIndex : FixedU128
  totalDebtIndex : FixedU128
  lastUpdated : BlockNumber
  utilizationFactor : FixedU128
  initialInterestRate : FixedU128
  deriving DecidableEq

/-- `UserSupply` and `UserDebt`: an amount at an index. -/
structure Position where
  amount : Balance
  index : FixedU128
  deriving DecidableEq

/-- The positions of one side (`UserSupplies` or `UserDebts`) with the list of assets of each account
(`UserSupplySet` or `UserDebtSet`). -/
structure Book (A : Type) where
  records : AssetId × A → Option Position
  assets : A → List AssetId

structure Lending (A : Type) where
  supplies : Book A
  debts : Book A
  pools : AssetId → Option Pool
  liquidationThreshold : FixedU128

/-- The storage of the chain, with the block number of the system pallet. -/
structure Chain (A : Type) where
  blockNumber : BlockNumber
  assets : Assets A
  swap : Swap A
  lending : Lending A

/-- How a dispatchable ends, with the storage it leaves: an `Err` keeps what has been written before it. A
dispatchable that panics has no outcome (`none`), and nothing of its extrinsic is kept. -/
abbrev Outcome (A : Type) := Except DispatchError Unit × Chain A

variable {A : Type}

/-- `ensure_signed(origin)?` -/
def ensureSigned (s : Chain A) (origin : Origin A) (call : A → Option (Outcome A)) :
    Option (Outcome A) :=
  match origin with
  | .signed account => call account
  | _ => some (.error .badOrigin, s)

/-- `ensure_root(origin)?` -/
def ensureRoot (s : Chain A) (origin : Origin A) (call : Option (Outcome A)) : Option (Outcome A) :=
  match origin with
  | .root => call
  | _ => some (.error .badOrigin, s)

theorem ensureSigned_cases {s s' : Chain A} {origin : Origin A} {call : A → Option (Outcome A)}
    {r : Except DispatchError Unit} (h : ensureSigned s origin call = some (r, s')) :
    (∃ account, origin = .signed account ∧ call account = some (r, s')) ∨
    ((∀ account, origin ≠ .signed account) ∧ r = .error .badOrigin ∧ s' = s) := by
  cases origin with
  | signed account => exact Or.inl ⟨account, rfl, h⟩
  | root =>
    cases h
    exact Or.inr ⟨(fun _ e => by cases e), rfl, rfl⟩
  | none =>
    cases h
    exact Or.inr ⟨(fun _ e => by cases e), rfl, rfl⟩

theorem stored_cases {K V : Type} [DecidableEq K] {f : K → Option V} {k k' : K} {r : Option V} {v : V}
    (h : Function.update f k r k' = some v) : (k' = k ∧ r = some v) ∨ (k' ≠ k ∧ f k' = some v) := by
  by_cases hk : k' = k
  · rw [hk, Function.update_self] at h
    exact Or.inl ⟨hk, h⟩
  · rw [Function.update_of_ne hk] at h
    exact Or.inr ⟨hk, h⟩

end Konomi
