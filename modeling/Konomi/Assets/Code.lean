import Konomi.Storage

/-!
# The assets pallet

`pallets/assets/src/lib.rs`. Events and `sp_runtime::print` are left out. The functions work on the storage of the
pallet; `dispatch` runs one call on the chain.
-/

namespace Konomi.Assets
open Machine

variable {A : Type} [DecidableEq A]

/-- Move some assets from one holder to another. Both checks come before the first write, so an `Err` carries no
storage. -/
def transfer (p : Profile) (st : Assets A) (fromAccount : A) (id : AssetId) (toAccount : A) (amount : Balance) :
    Option (Except String (Assets A)) :=
  let originBalance := st.balances (id, fromAccount)
  if amount = 0 then some (.error "transfer amount should be non-zero")
  else if originBalance < amount then
    some (.error "origin account balance must be greater than or equal to the transfer amount")
  else do
    let balances := Function.update st.balances (id, fromAccount) (originBalance - amount)
    -- `*balance += amount`, read after the debit, so a transfer to oneself changes nothing
    let balance ← p.add (balances (id, toAccount)) amount
    some (.ok { st with balances := Function.update balances (id, toAccount) balance })

/-- A transfer whose result is dropped. -/
def transferDropped (p : Profile) (st : Assets A) (fromAccount : A) (id : AssetId) (toAccount : A)
    (amount : Balance) : Option (Assets A) := do
  match ← st.transfer p fromAccount id toAccount amount with
  | .error _ => some st
  | .ok st' => some st'

def balance (st : Assets A) (id : AssetId) (who : A) : Balance := st.balances (id, who)

def getRate (st : Assets A) (id : AssetId) : FixedU128 := st.price id

/-- Issue a new class of fungible assets, all of which belong to `account`. -/
def issue (p : Profile) (st : Assets A) (account : A) (total : Balance) : Option (Assets A) := do
  let id := st.nextAssetId
  let next ← p.add id 1
  some { st with
    nextAssetId := next
    balances := Function.update st.balances (id, account) total
    totalSupply := Function.update st.totalSupply id total }

/-- Destroy any assets of `id` owned by `account`. -/
def destroy (p : Profile) (st : Assets A) (account : A) (id : AssetId) :
    Option (Except DispatchError Unit × Assets A) :=
  let balance := st.balances (id, account)
  let st := { st with balances := Function.update st.balances (id, account) 0 }
  if balance = 0 then some (.error (.other "origin balance should be non-zero"), st)
  else do
    let total ← p.sub (st.totalSupply id) balance
    some (.ok (), { st with totalSupply := Function.update st.totalSupply id total })

def setInherentAsset (st : Assets A) (asset : AssetId) : Assets A := { st with inherentAsset := asset }

def setPrice (st : Assets A) (id : AssetId) (price : FixedU128) : Assets A :=
  { st with price := Function.update st.price id price }

inductive Call (A : Type) where
  | issue (total : Balance)
  | destroy (id : AssetId)
  | setInherentAsset (asset : AssetId)
  | transferAsset (id : AssetId) (toAccount : A) (amount : Balance)
  | setPrice (id : AssetId) (price : FixedU128)

def dispatch (p : Profile) (s : Chain A) (origin : Origin A) : Call A → Option (Outcome A)
  | .issue total => ensureSigned s origin fun account => do
      let st ← s.assets.issue p account total
      some (.ok (), { s with assets := st })
  | .destroy id => ensureSigned s origin fun account => do
      let (result, st) ← s.assets.destroy p account id
      some (result, { s with assets := st })
  -- `//ensure_root(origin)?;`: any origin sets the inherent asset
  | .setInherentAsset asset => some (.ok (), { s with assets := s.assets.setInherentAsset asset })
  | .transferAsset id toAccount amount => ensureSigned s origin fun account => do
      let st ← s.assets.transferDropped p account id toAccount amount
      some (.ok (), { s with assets := st })
  | .setPrice id price => ensureRoot s origin (some (.ok (), { s with assets := s.assets.setPrice id price }))

/-! ## Genesis -/

/-- The `assets` entries of the genesis configuration, in order. The result of `transfer` is dropped. -/
def genesisAssets (p : Profile) (st : Assets A) : List (A × Balance × BitVec 64) → Option (Assets A)
  | [] => some st
  | (account, amount, price) :: rest => do
      let st ← st.issue p account amount
      let assetId ← p.sub st.nextAssetId 1
      let st ← st.transferDropped p account assetId st.owner 500000
      let price ← Fixed.saturatingFromInteger p price
      genesisAssets p (st.setPrice assetId price) rest

/-- The storage before the genesis entries are built. -/
def empty (owner : A) : Assets A where
  nextAssetId := 0
  totalSupply := fun _ => 0
  balances := fun _ => 0
  inherentAsset := 0
  price := fun _ => ⟨0⟩
  owner := owner

end Konomi.Assets
