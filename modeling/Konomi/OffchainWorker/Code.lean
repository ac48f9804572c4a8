import Konomi.Lib.Iterator
import Konomi.Runtime

/-!
# The offchain worker pallet

`pallets/offchain-worker/src/lib.rs`. A worker fetches a price outside the chain and sends it as an unsigned
transaction; the chain stores it and with it the block from which the next one is accepted. Events and logs are left
out, except for the block that an update is executed in (`updates`).

`lite_json::parse_json` is a parameter, with the data types it returns.
-/

namespace Konomi.OffchainWorker
open Machine Iterator

/-! ## lite-json -/

/-- `lite_json::json::NumberValue`: the integer part (`i64`), the digits of the fraction read as an integer (`u64`) and
their count (`u32`), and the exponent (`i32`). -/
structure NumberValue where
  integer : BitVec 64
  fraction : BitVec 64
  fractionLength : BitVec 32
  exponent : BitVec 32
  deriving DecidableEq

/-- `lite_json::json::JsonValue`. The members of an object are in textual order. -/
inductive JsonValue where
  | object (members : List (List Char × JsonValue))
  | array (values : List JsonValue)
  | string (chars : List Char)
  | number (number : NumberValue)
  | boolean (value : Bool)
  | null

/-! ## The price -/

/-- `"USD".chars()` -/
def usd : List Char := ['U', 'S', 'D']

/-- The member that `parse_price` finds: one iterator over `"USD"` serves the comparison with every key. -/
def findMember (obj : List (List Char × JsonValue)) : Option (List Char × JsonValue) := findNext Prod.fst obj usd

def findNumber : JsonValue → Option NumberValue
  | .object obj =>
    match findMember obj with
    | some (_, .number number) => some number
    | _ => none
  | _ => none

/-- `price.integer as u32 * 100 + (price.fraction / 10_u64.pow(exp)) as u32` -/
def cents (p : Profile) (price : NumberValue) : Option (BitVec 32) := do
  -- `price.fraction_length.checked_sub(2).unwrap_or(0)`
  let exp := price.fractionLength.toNat - 2
  let integer ← p.mul (price.integer.setWidth 32) 100
  let scale ← p.pow 10 exp
  let fraction ← div price.fraction scale
  p.add integer (fraction.setWidth 32)

section Worker
variable (parseJson : String → Option JsonValue) (p : Profile)

/-- Parse the price from the given JSON string. `none` is a panic. -/
def parsePrice (priceStr : String) : Option (Option (BitVec 32)) :=
  match (parseJson priceStr).bind findNumber with
  | none => some none
  | some price => (cents p price).map some

inductive HttpError where
  | deadlineReached
  | ioError
  | unknown
  deriving DecidableEq

structure Response where
  code : BitVec 16
  body : ByteArray

/-- Fetch current price and return the result in cents, from the outcome of the request. -/
def fetchPrice : Except HttpError Response → Option (Except HttpError (BitVec 32))
  | .error e => some (.error e)
  | .ok response =>
    if response.code ≠ 200 then some (.error .unknown)
    else
      match String.fromUTF8? response.body with
      | none => some (.error .unknown)
      | some bodyStr => do
        match ← parsePrice parseJson p bodyStr with
        | some price => some (.ok price)
        | none => some (.error .unknown)

/-- The one call of the pallet. -/
inductive Call where
  | submitPriceUnsigned (blockNumber : BlockNumber) (price : BitVec 32)
  deriving DecidableEq

/-- What a worker hands to `submit_unsigned_transaction`. -/
def fetchPriceAndSendRawUnsigned (nextUnsignedAt blockNumber : BlockNumber) (request : Except HttpError Response) :
    Option (Except String Call) :=
  if blockNumber < nextUnsignedAt then some (.error "Too early to send unsigned transaction")
  else do
    match ← fetchPrice parseJson p request with
    | .error _ => some (.error "Failed to fetch price")
    | .ok price => some (.ok (.submitPriceUnsigned blockNumber price))

end Worker

/-! ## The pallet -/

/-- The parameters of the pallet. -/
structure Parameters where
  unsignedInterval : BlockNumber
  unsignedPriority : BitVec 64

/-- `UnsignedInterval` and `UnsignedPriority` of `runtime/src/lib.rs`. -/
def runtimeParameters : Parameters := ⟨4, 5⟩

/-- The storage of the chain with that of this pallet. -/
structure Storage (A : Type) where
  chain : Chain A
  nextUnsignedAt : BlockNumber

inductive InvalidTransaction where
  | stale
  | future
  deriving DecidableEq

/-- `ValidTransaction`. The tag it provides is a prefix and a block number. -/
structure ValidTransaction where
  priority : BitVec 64
  provides : String × BlockNumber
  longevity : Nat
  propagate : Bool
  deriving DecidableEq

section Pallet
variable {A : Type} (params : Parameters) (p : Profile) (s : Storage A)

def validateTransactionParameters (blockNumber : BlockNumber) : Except InvalidTransaction ValidTransaction :=
  if blockNumber < s.nextUnsignedAt then .error .stale
  else if s.chain.blockNumber < blockNumber then .error .future
  else .ok ⟨params.unsignedPriority, ("OffchainWorker", s.nextUnsignedAt), 5, true⟩

def validateUnsigned : Call → Except InvalidTransaction ValidTransaction
  | .submitPriceUnsigned blockNumber _ => validateTransactionParameters params s blockNumber

/-- The block number of the caller is not read. -/
def submitPriceUnsigned (origin : Origin A) (_blockNumber : BlockNumber) (price : BitVec 32) :
    Option (Except DispatchError Unit × Storage A) :=
  match origin with
  | .none => do
    let price ← Fixed.saturatingFromRational p (price.setWidth 128) 100
    let next ← p.add s.chain.blockNumber params.unsignedInterval
    some (.ok (),
      { chain := { s.chain with assets := s.chain.assets.setPrice 4 price }, nextUnsignedAt := next })
  | _ => some (.error .badOrigin, s)

/-! ## Blocks -/

/-- What happens next: a block, an extrinsic with the call of this pallet, or one with another call. -/
inductive Action (A : Type) where
  | advance (block : BlockNumber)
  | submit (origin : Origin A) (blockNumber : BlockNumber) (price : BitVec 32)
  | call (origin : Origin A) (call : Konomi.Call A)

/-- An unsigned extrinsic is executed if `validate_unsigned` accepts it on the state it finds, and is no part of a block
otherwise. -/
def admitted (origin : Origin A) (blockNumber : BlockNumber) (price : BitVec 32) : Bool :=
  match origin with
  | .none =>
    match validateUnsigned params s (.submitPriceUnsigned blockNumber price) with
    | .ok _ => true
    | .error _ => false
  | _ => true

def step [DecidableEq A] (cfg : Config A) : Action A → Option (Storage A)
  | .advance block => if s.chain.blockNumber ≤ block then some { s with chain := { s.chain with blockNumber := block } }
      else none
  | .submit origin blockNumber price =>
    if admitted params s origin blockNumber price then
      (submitPriceUnsigned params p s origin blockNumber price).map Prod.snd
    else some s
  | .call origin call => (Konomi.dispatch cfg p s.chain origin call).map fun o => { s with chain := o.2 }

/-- The block of an update that an action executes. -/
def updates : Action A → List BlockNumber
  | .submit .none blockNumber price =>
    if admitted params s .none blockNumber price then [s.chain.blockNumber] else []
  | _ => []

/-- A run, with the blocks of the updates it executes in order. -/
def history [DecidableEq A] (cfg : Config A) : Storage A → List (Action A) → Option (Storage A × List BlockNumber)
  | s, [] => some (s, [])
  | s, action :: actions => do
    let t ← step params p s cfg action
    let (u, blocks) ← history cfg t actions
    some (u, updates params s action ++ blocks)

end Pallet

end Konomi.OffchainWorker
