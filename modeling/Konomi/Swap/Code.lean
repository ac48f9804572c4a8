import Konomi.Assets.Code

/-!
# The swap pallet

`pallets/swap/src/lib.rs`. Every swap route first prices the swap and then makes its transfers one after the
other, dropping their results: a `Route` is the list of transfers with the amount the route returns, and `pay` makes
the transfers. `fee_rate` is passed down as in the source, where no formula uses it (`TODO: calculate with fee
rate`); the same holds of the limits `min_output`, `max_input`, `min_liquidity` and the two minima of
`remove_liquidity`, which are checked only in comments.
-/

namespace Konomi.Swap
open Machine

variable {A : Type} [DecidableEq A]

/-- One call of `<assets::Module<T>>::transfer`. -/
structure Payment (A : Type) where
  payer : A
  id : AssetId
  payee : A
  amount : Balance

/-- The transfers of a route, in order, and the amount it returns. -/
structure Route (A : Type) where
  payments : List (Payment A)
  amount : Balance

def Payment.make (p : Profile) (st : Assets A) (t : Payment A) : Option (Except String (Assets A)) :=
  st.transfer p t.payer t.id t.payee t.amount

/-- Make the payments in order. A payment that fails is skipped; the list says which ones succeeded. -/
def pay (p : Profile) : Assets A → List (Payment A) → Option (List Bool × Assets A)
  | st, [] => some ([], st)
  | st, t :: ts => do
    match ← t.make p st with
    | .error _ =>
      let (done, st') ← pay p st ts
      some (false :: done, st')
    | .ok st₁ =>
      let (done, st') ← pay p st₁ ts
      some (true :: done, st')

def getExchangeAddress (cfg : Config A) (inherentAssetId assetId : AssetId) : A :=
  cfg.makeExchangeAddress inherentAssetId assetId

/-! ## Prices -/

/-- Given the exact known input, calculate the output. -/
def calcOutputAtKnownInput (p : Profile) (inputAmount inputPartBalance outputPartBalance : Balance)
    (_feeRate : BitVec 64) : Option (Except String Balance) :=
  if inputPartBalance = 0 ∨ outputPartBalance = 0 then some (.error "Empty Pool.")
  else do
    let denominator ← p.add inputAmount inputPartBalance
    let product ← p.mul outputPartBalance inputAmount
    let outputVolumn ← Machine.div product denominator
    some (.ok outputVolumn)

/-- Given the exact known output, calculate the input. The quotient is computed and then dropped: the value returned
is `output_volumn`, as in the source. -/
def calcInputAtKnownOutput (p : Profile) (outputAmount inputPartBalance outputPartBalance : Balance)
    (_feeRate : BitVec 64) : Option (Except String Balance) :=
  if inputPartBalance = 0 ∨ outputPartBalance = 0 then some (.error "Empty Pool.")
  else if outputPartBalance ≤ outputAmount then some (.ok (BitVec.allOnes 128))
  else do
    let denominator ← p.sub outputPartBalance outputAmount
    let product ← p.mul inputPartBalance outputAmount
    let _inputVolumn ← Machine.div product denominator
    some (.ok outputAmount)

section Prices
variable (cfg : Config A) (p : Profile) (st : Assets A)

/-- How much of the inherent asset should be input for an output of `amount` of the paired asset. -/
def calcInherentAssetInputAmount (assetId : AssetId) (amount : Balance) (feeRate : BitVec 64) :
    Option (Except String Balance) :=
  let exchange := getExchangeAddress cfg st.inherentAsset assetId
  calcInputAtKnownOutput p amount (st.balance st.inherentAsset exchange) (st.balance assetId exchange) feeRate

/-- How much of the inherent asset should be output for an input of `amount` of the paired asset. -/
def calcInherentAssetOutputAmount (assetId : AssetId) (amount : Balance) (feeRate : BitVec 64) :
    Option (Except String Balance) :=
  let exchange := getExchangeAddress cfg st.inherentAsset assetId
  calcOutputAtKnownInput p amount (st.balance assetId exchange) (st.balance st.inherentAsset exchange) feeRate

/-- How much of the paired asset should be input for an output of `amount` of the inherent asset. -/
def calcPairedAssetInputAmount (assetId : AssetId) (amount : Balance) (feeRate : BitVec 64) :
    Option (Except String Balance) :=
  let exchange := getExchangeAddress cfg st.inherentAsset assetId
  calcInputAtKnownOutput p amount (st.balance assetId exchange) (st.balance st.inherentAsset exchange) feeRate

/-- How much of the paired asset should be output for an input of `amount` of the inherent asset. -/
def calcPairedAssetOutputAmount (assetId : AssetId) (amount : Balance) (feeRate : BitVec 64) :
    Option (Except String Balance) :=
  let exchange := getExchangeAddress cfg st.inherentAsset assetId
  calcOutputAtKnownInput p amount (st.balance st.inherentAsset exchange) (st.balance assetId exchange) feeRate

end Prices

/-! ## Routes -/

section Routes
variable (cfg : Config A) (p : Profile) (st : Assets A) (inputAccount outputAccount : A)

def inherentAssetToPairedAssetWithExactInput (pairedAssetId : AssetId) (inputAmount _minOutputAmount : Balance)
    (feeRate : BitVec 64) : Option (Except String (Route A)) := do
  match ← calcPairedAssetOutputAmount cfg p st pairedAssetId inputAmount feeRate with
  | .error e => some (.error e)
  | .ok output =>
    let exchange := getExchangeAddress cfg st.inherentAsset pairedAssetId
    some (.ok ⟨[⟨inputAccount, st.inherentAsset, exchange, inputAmount⟩,
      ⟨exchange, pairedAssetId, outputAccount, output⟩], output⟩)

def inherentAssetToPairedAssetWithExactOutput (pairedAssetId : AssetId) (outputAmount _maxInputAmount : Balance)
    (feeRate : BitVec 64) : Option (Except String (Route A)) := do
  match ← calcInherentAssetInputAmount cfg p st pairedAssetId outputAmount feeRate with
  | .error e => some (.error e)
  | .ok input =>
    let exchange := getExchangeAddress cfg st.inherentAsset pairedAssetId
    some (.ok ⟨[⟨inputAccount, st.inherentAsset, exchange, input⟩,
      ⟨exchange, pairedAssetId, outputAccount, outputAmount⟩], input⟩)

def pairedAssetToInherentAssetWithExactInput (pairedAssetId : AssetId) (inputAmount _minOutputAmount : Balance)
    (feeRate : BitVec 64) : Option (Except String (Route A)) := do
  match ← calcInherentAssetOutputAmount cfg p st pairedAssetId inputAmount feeRate with
  | .error e => some (.error e)
  | .ok output =>
    let exchange := getExchangeAddress cfg st.inherentAsset pairedAssetId
    some (.ok ⟨[⟨inputAccount, pairedAssetId, exchange, inputAmount⟩,
      ⟨exchange, st.inherentAsset, outputAccount, output⟩], output⟩)

def pairedAssetToInherentAssetWithExactOutput (pairedAssetId : AssetId) (outputAmount _maxInputAmount : Balance)
    (feeRate : BitVec 64) : Option (Except String (Route A)) := do
  match ← calcPairedAssetInputAmount cfg p st pairedAssetId outputAmount feeRate with
  | .error e => some (.error e)
  | .ok input =>
    let exchange := getExchangeAddress cfg st.inherentAsset pairedAssetId
    some (.ok ⟨[⟨inputAccount, pairedAssetId, exchange, input⟩,
      ⟨exchange, st.inherentAsset, outputAccount, outputAmount⟩], input⟩)

/-- The transfers of both routes from asset `a` to asset `b`: in, across and out. -/
def acrossInherent (assetA assetB : AssetId) (input across output : Balance) : List (Payment A) :=
  let exchangeA := getExchangeAddress cfg st.inherentAsset assetA
  let exchangeB := getExchangeAddress cfg st.inherentAsset assetB
  [⟨inputAccount, assetA, exchangeA, input⟩, ⟨exchangeA, st.inherentAsset, exchangeB, across⟩,
    ⟨exchangeB, assetB, outputAccount, output⟩]

def assetAToAssetBWithExactInput (assetA assetB : AssetId) (inputAmount _minOutputAmount : Balance)
    (feeRate : BitVec 64) : Option (Except String (Route A)) := do
  match ← calcInherentAssetOutputAmount cfg p st assetA inputAmount feeRate with
  | .error e => some (.error e)
  | .ok inherentOutput =>
    match ← calcPairedAssetOutputAmount cfg p st assetB inherentOutput feeRate with
    | .error e => some (.error e)
    | .ok output => some (.ok
        ⟨acrossInherent cfg st inputAccount outputAccount assetA assetB inputAmount inherentOutput output, output⟩)

def assetAToAssetBWithExactOutput (assetA assetB : AssetId) (outputAmount _maxInputAmount : Balance)
    (feeRate : BitVec 64) : Option (Except String (Route A)) := do
  match ← calcInherentAssetInputAmount cfg p st assetB outputAmount feeRate with
  | .error e => some (.error e)
  | .ok inherentInput =>
    match ← calcPairedAssetInputAmount cfg p st assetA inherentInput feeRate with
    | .error e => some (.error e)
    | .ok input => some (.ok
        ⟨acrossInherent cfg st inputAccount outputAccount assetA assetB input inherentInput outputAmount, input⟩)

/-- The case split of `swap_assets_with_exact_input`. -/
def routeWithExactInput (assetInput assetOutput : AssetId) (inputAmount minOutput : Balance)
    (feeRate : BitVec 64) : Option (Except String (Route A)) :=
  if assetInput = st.inherentAsset then
    inherentAssetToPairedAssetWithExactInput cfg p st inputAccount outputAccount assetOutput inputAmount minOutput
      feeRate
  else if assetOutput = st.inherentAsset then
    pairedAssetToInherentAssetWithExactInput cfg p st inputAccount outputAccount assetInput inputAmount minOutput
      feeRate
  else
    assetAToAssetBWithExactInput cfg p st inputAccount outputAccount assetInput assetOutput inputAmount minOutput
      feeRate

/-- The case split of `swap_assets_with_exact_output`. -/
def routeWithExactOutput (assetInput assetOutput : AssetId) (outputAmount maxInput : Balance)
    (feeRate : BitVec 64) : Option (Except String (Route A)) :=
  if assetInput = st.inherentAsset then
    inherentAssetToPairedAssetWithExactOutput cfg p st inputAccount outputAccount assetOutput outputAmount maxInput
      feeRate
  else if assetOutput = st.inherentAsset then
    pairedAssetToInherentAssetWithExactOutput cfg p st inputAccount outputAccount assetInput outputAmount maxInput
      feeRate
  else
    assetAToAssetBWithExactOutput cfg p st inputAccount outputAccount assetInput assetOutput outputAmount maxInput
      feeRate

end Routes

/-- The RPC quote. It unwraps, and it prices every pair whose input is not the inherent asset in the pool of
`out_id`. -/
def calculateOutput (cfg : Config A) (p : Profile) (s : Chain A) (inId outId : AssetId) (amountIn : Balance) :
    Option Balance := do
  let quote := if inId = s.assets.inherentAsset then
      calcPairedAssetOutputAmount cfg p s.assets outId amountIn s.swap.feeRateGlobal
    else
      calcInherentAssetOutputAmount cfg p s.assets outId amountIn s.swap.feeRateGlobal
  match ← quote with
  | .error _ => none
  | .ok out => some out

/-! ## Liquidity -/

def getLiquidity (sw : Swap A) (assetId : AssetId) (account : A) : Balance := sw.accountLiquidities (assetId, account)

def getTotalLiquidity (sw : Swap A) (assetId : AssetId) : Balance := sw.totalLiquidities assetId

def setLiquidity (sw : Swap A) (assetId : AssetId) (account : A) (liquidity : Balance) : Swap A :=
  { sw with accountLiquidities := Function.update sw.accountLiquidities (assetId, account) liquidity }

def increaseTotalLiquidity (p : Profile) (sw : Swap A) (assetId : AssetId) (liquidity : Balance) :
    Option (Swap A) := do
  let total ← p.add (sw.totalLiquidities assetId) liquidity
  some { sw with totalLiquidities := Function.update sw.totalLiquidities assetId total }

def decreaseTotalLiquidity (p : Profile) (sw : Swap A) (assetId : AssetId) (liquidity : Balance) :
    Option (Swap A) := do
  let total ← p.sub (sw.totalLiquidities assetId) liquidity
  some { sw with totalLiquidities := Function.update sw.totalLiquidities assetId total }

/-- The two branches of `_add_liquidity`: the initializing injection overwrites the share of the account, a later
one adds to it. -/
def inject (cfg : Config A) (p : Profile) (s : Chain A) (account : A) (assetId : AssetId)
    (inherentAssetAmount assetAmount : Balance) : Option (Assets A × Swap A) :=
  let inherentAssetId := s.assets.inherentAsset
  let exchange := getExchangeAddress cfg inherentAssetId assetId
  let totalLiquidity := getTotalLiquidity s.swap assetId
  let deposits : List (Payment A) :=
    [⟨account, inherentAssetId, exchange, inherentAssetAmount⟩, ⟨account, assetId, exchange, assetAmount⟩]
  if totalLiquidity = 0 then do
    let (_, assets) ← pay p s.assets deposits
    let sw := setLiquidity s.swap assetId account inherentAssetAmount
    let sw ← increaseTotalLiquidity p sw assetId inherentAssetAmount
    some (assets, sw)
  else do
    let inherentAssetInPool := s.assets.balance inherentAssetId exchange
    let (_, assets) ← pay p s.assets deposits
    let product ← p.mul totalLiquidity inherentAssetAmount
    let mintedLiquidity ← Machine.div product inherentAssetInPool
    let liquidity ← p.add (getLiquidity s.swap assetId account) mintedLiquidity
    let sw := setLiquidity s.swap assetId account liquidity
    let sw ← increaseTotalLiquidity p sw assetId mintedLiquidity
    some (assets, sw)

def _addLiquidity (cfg : Config A) (p : Profile) (s : Chain A) (account : A) (assetId : AssetId)
    (inherentAssetAmount assetAmount _minLiquidity : Balance) : Option (Chain A) := do
  let exchange := getExchangeAddress cfg s.assets.inherentAsset assetId
  let (assets, sw) ← inject cfg p s account assetId inherentAssetAmount assetAmount
  some { s with
    assets := assets
    swap := { sw with exchangeAccounts := Function.update sw.exchangeAccounts assetId (some exchange) } }

def _removeLiquidity (cfg : Config A) (p : Profile) (s : Chain A) (account : A) (assetId : AssetId)
    (liquidity _minInherentAssetAmount _minAssetAmount : Balance) : Option (Chain A) := do
  let inherentAssetId := s.assets.inherentAsset
  let exchange := getExchangeAddress cfg inherentAssetId assetId
  let accountLiquidity := getLiquidity s.swap assetId account
  let totalLiquidity := getTotalLiquidity s.swap assetId
  let inherentProduct ← p.mul (s.assets.balance inherentAssetId exchange) liquidity
  let inherentAssetAmount ← Machine.div inherentProduct totalLiquidity
  let product ← p.mul (s.assets.balance assetId exchange) liquidity
  let assetAmount ← Machine.div product totalLiquidity
  let (_, assets) ← pay p s.assets
    [⟨exchange, inherentAssetId, account, inherentAssetAmount⟩, ⟨exchange, assetId, account, assetAmount⟩]
  let left ← p.sub accountLiquidity liquidity
  let sw := setLiquidity s.swap assetId account left
  let sw ← decreaseTotalLiquidity p sw assetId liquidity
  some { s with assets := assets, swap := sw }

/-! ## Dispatch -/

/-- Price a route, then make its transfers. -/
def runRoute (p : Profile) (s : Chain A) (route : Option (Except String (Route A))) : Option (Outcome A) := do
  match ← route with
  | .error e => some (.error (.other e), s)
  | .ok r =>
    let (_, assets) ← pay p s.assets r.payments
    some (.ok (), { s with assets := assets })

inductive Call (A : Type) where
  | setFeeRate (feeRate : BitVec 64)
  | swapAssetsWithExactInput (outputAccount : A) (assetInput assetOutput : AssetId) (inputAmount minOutput : Balance)
  | swapAssetsWithExactOutput (outputAccount : A) (assetInput assetOutput : AssetId) (outputAmount maxInput : Balance)
  | addLiquidity (assetId : AssetId) (inherentAssetAmount assetAmount minLiquidity : Balance)
  | removeLiquidity (assetId : AssetId) (liquidity minInherentAssetAmount minAssetAmount : Balance)

def dispatch (cfg : Config A) (p : Profile) (s : Chain A) (origin : Origin A) : Call A → Option (Outcome A)
  -- `//ensure_root(origin)?;`: any origin sets the fee rate
  | .setFeeRate feeRate => some (.ok (), { s with swap := { s.swap with feeRateGlobal := feeRate } })
  | .swapAssetsWithExactInput outputAccount assetInput assetOutput inputAmount minOutput =>
      ensureSigned s origin fun account => runRoute p s
        (routeWithExactInput cfg p s.assets account outputAccount assetInput assetOutput inputAmount minOutput
          s.swap.feeRateGlobal)
  | .swapAssetsWithExactOutput outputAccount assetInput assetOutput outputAmount maxInput =>
      ensureSigned s origin fun account => runRoute p s
        (routeWithExactOutput cfg p s.assets account outputAccount assetInput assetOutput outputAmount maxInput
          s.swap.feeRateGlobal)
  | .addLiquidity assetId inherentAssetAmount assetAmount minLiquidity => ensureSigned s origin fun account => do
      let s' ← _addLiquidity cfg p s account assetId inherentAssetAmount assetAmount minLiquidity
      some (.ok (), s')
  | .removeLiquidity assetId liquidity minInherentAssetAmount minAssetAmount =>
      ensureSigned s origin fun account => do
        let s' ← _removeLiquidity cfg p s account assetId liquidity minInherentAssetAmount minAssetAmount
        some (.ok (), s')

end Konomi.Swap
