import Konomi.Lib.Footprint
import Konomi.Blocks

/-!
# Trades that have nothing to do with each other

A transfer, a swap, a deposit into a pool and a withdrawal from it have *parties*: the signer, who receives the output,
and the exchange accounts of the pools that are used. Trades without a common party can be executed in any order, and
each ends for its parties as if it were executed alone (`trades_independent`).
-/

namespace Konomi.Swap
open Machine Assets

variable {A : Type} [DecidableEq A]

/-! ## Trades and their parties -/

inductive Trade (A : Type) where
  | transfer (account toAccount : A) (id : AssetId) (amount : Balance)
  | exactInput (account outputAccount : A) (assetInput assetOutput : AssetId) (inputAmount minOutput : Balance)
  | exactOutput (account outputAccount : A) (assetInput assetOutput : AssetId) (outputAmount maxInput : Balance)
  | addLiquidity (account : A) (assetId : AssetId) (inherentAssetAmount assetAmount minLiquidity : Balance)
  | removeLiquidity (account : A) (assetId : AssetId) (liquidity minInherentAssetAmount minAssetAmount : Balance)

def Trade.action : Trade A → Action A
  | .transfer u v id x => .call (.signed u) (.assets (.transferAsset id v x))
  | .exactInput u v a b x lo => .call (.signed u) (.swap (.swapAssetsWithExactInput v a b x lo))
  | .exactOutput u v a b y hi => .call (.signed u) (.swap (.swapAssetsWithExactOutput v a b y hi))
  | .addLiquidity u a x y lo => .call (.signed u) (.swap (.addLiquidity a x y lo))
  | .removeLiquidity u a x lo lo' => .call (.signed u) (.swap (.removeLiquidity a x lo lo'))

/-- The pools that a swap from `a` to `b` goes through, where `i` is the inherent asset. -/
def pools (i a b : AssetId) : List AssetId := if a = i then [b] else if b = i then [a] else [a, b]

section Parties
variable (cfg : Config A) (i : AssetId)

/-- Whose balances the trade reads and writes. -/
def Trade.parties : Trade A → List A
  | .transfer u v _ _ => [u, v]
  | .exactInput u v a b _ _ => u :: v :: (pools i a b).map (getExchangeAddress cfg i)
  | .exactOutput u v a b _ _ => u :: v :: (pools i a b).map (getExchangeAddress cfg i)
  | .addLiquidity u a _ _ _ => [u, getExchangeAddress cfg i a]
  | .removeLiquidity u a _ _ _ => [u, getExchangeAddress cfg i a]

/-- Of which pools the trade changes the liquidity. -/
def Trade.pooled : Trade A → List AssetId
  | .addLiquidity _ a _ _ _ => [a]
  | .removeLiquidity _ a _ _ _ => [a]
  | _ => []

/-- No account is a party to both trades. -/
def Trade.Apart (tr tr' : Trade A) : Prop := ∀ u ∈ tr.parties cfg i, u ∉ tr'.parties cfg i

instance (tr tr' : Trade A) : Decidable (tr.Apart cfg i tr') := inferInstanceAs (Decidable (∀ _ ∈ _, _))

end Parties

omit [DecidableEq A] in
theorem pooled_party {cfg : Config A} {i a : AssetId} {tr : Trade A} (ha : a ∈ tr.pooled) :
    getExchangeAddress cfg i a ∈ tr.parties cfg i := by
  cases tr with
  | transfer | exactInput | exactOutput => cases ha
  | addLiquidity u a' x y lo =>
    cases List.mem_singleton.mp ha
    exact List.mem_cons_of_mem _ List.mem_cons_self
  | removeLiquidity u a' x lo lo' =>
    cases List.mem_singleton.mp ha
    exact List.mem_cons_of_mem _ List.mem_cons_self

/-! ## The part of some accounts and pools -/

section Part
variable (P : List A) (D : List AssetId)

/-- `st'` with the balances of the accounts of `P` as in `st`. -/
def putAssets (st st' : Assets A) : Assets A :=
  { st' with balances := overlay P Prod.snd st.balances st'.balances }

/-- `sw'` with the shares of the accounts of `P` and the liquidity of the pools of `D` as in `sw`. -/
def putSwap (sw sw' : Swap A) : Swap A :=
  { sw' with
    totalLiquidities := overlay D id sw.totalLiquidities sw'.totalLiquidities
    accountLiquidities := overlay P Prod.snd sw.accountLiquidities sw'.accountLiquidities
    exchangeAccounts := overlay D id sw.exchangeAccounts sw'.exchangeAccounts }

def part : Region (Chain A) where
  put s t := { t with assets := putAssets P s.assets t.assets, swap := putSwap P D s.swap t.swap }
  put_self s := by
    unfold putAssets putSwap
    simp only [overlay_self]

end Part

theorem part_apart {P P' : List A} {D D' : List AssetId} (hP : ∀ u ∈ P, u ∉ P') (hD : ∀ a ∈ D, a ∉ D') :
    (part P D).Apart (part P' D') := by
  intro x y s
  unfold part putAssets putSwap
  simp only [overlay_comm hP, overlay_comm hD]

/-! ## Transfers and prices -/

section Reads
variable {cfg : Config A} {p : Profile} {P : List A} {D : List AssetId} {st st' : Assets A} {u v : A}
  {a b id : AssetId} {x : Balance} {fee : BitVec 64}

theorem balance_put (hu : u ∈ P) : (putAssets P st st').balance id u = st.balance id u :=
  overlay_of_mem (show Prod.snd (id, u) ∈ P from hu)

theorem transfer_put (hu : u ∈ P) (hv : v ∈ P) : (putAssets P st st').transfer p u id v x =
    (st.transfer p u id v x).map fun r => r.map fun st₁ => putAssets P st₁ st' := by
  have hkey : ∀ {w : A}, w ∈ P → Prod.snd (id, w) ∈ P := fun hw => hw
  unfold transfer putAssets
  dsimp only
  rw [overlay_of_mem (hkey hu), update_overlay (hkey hu), overlay_of_mem (hkey hv)]
  split
  · rfl
  · split
    · rfl
    · simp only [Option.bind_eq_bind, Option.map_bind, Function.comp_def, Option.map_some, Except.map,
        update_overlay (hkey hv)]

theorem pay_put {ts : List (Payment A)} (hts : ∀ t ∈ ts, t.payer ∈ P ∧ t.payee ∈ P) :
    ∀ {st : Assets A}, pay p (putAssets P st st') ts = (pay p st ts).map fun q => (q.1, putAssets P q.2 st') := by
  induction ts with
  | nil => exact rfl
  | cons t ts ih =>
    intro st
    have ih := @ih fun t' ht' => hts t' (List.mem_cons_of_mem t ht')
    have hmake : t.make p (putAssets P st st') = (t.make p st).map fun r => r.map fun st₁ => putAssets P st₁ st' :=
      transfer_put (hts t List.mem_cons_self).1 (hts t List.mem_cons_self).2
    unfold pay
    rw [hmake]
    cases h : t.make p st with
    | none => rfl
    | some r =>
      cases r with
      | error e =>
        simp only [Option.map_some, Except.map, Option.bind_eq_bind, Option.bind_some, ih]
        cases pay p st ts <;> rfl
      | ok st₁ =>
        simp only [Option.map_some, Except.map, Option.bind_eq_bind, Option.bind_some, ih]
        cases pay p st₁ ts <;> rfl

/-- The pools of a swap are priced by the balances of their exchange accounts. -/
theorem exactInput_put {lo : Balance} (hi : st'.inherentAsset = st.inherentAsset)
    (hP : ∀ c ∈ pools st.inherentAsset a b, getExchangeAddress cfg st.inherentAsset c ∈ P) :
    routeWithExactInput cfg p (putAssets P st st') u v a b x lo fee = routeWithExactInput cfg p st u v a b x lo fee := by
  have hinherent : (putAssets P st st').inherentAsset = st.inherentAsset := hi
  unfold pools at hP
  unfold routeWithExactInput
  rw [hinherent]
  by_cases ha : a = st.inherentAsset
  · rw [if_pos ha] at hP ⊢
    have heb := hP b List.mem_cons_self
    unfold inherentAssetToPairedAssetWithExactInput calcPairedAssetOutputAmount
    simp only [if_pos ha, hinherent, balance_put heb]
  · rw [if_neg ha] at hP ⊢
    rw [if_neg ha]
    by_cases hb : b = st.inherentAsset
    · rw [if_pos hb] at hP ⊢
      have hea := hP a List.mem_cons_self
      unfold pairedAssetToInherentAssetWithExactInput calcInherentAssetOutputAmount
      simp only [if_pos hb, hinherent, balance_put hea]
    · rw [if_neg hb] at hP ⊢
      have hea := hP a List.mem_cons_self
      have heb := hP b (List.mem_cons_of_mem _ List.mem_cons_self)
      unfold assetAToAssetBWithExactInput calcInherentAssetOutputAmount calcPairedAssetOutputAmount acrossInherent
      simp only [if_neg hb, hinherent, balance_put hea, balance_put heb]

theorem exactOutput_put {hi' : Balance} (hi : st'.inherentAsset = st.inherentAsset)
    (hP : ∀ c ∈ pools st.inherentAsset a b, getExchangeAddress cfg st.inherentAsset c ∈ P) :
    routeWithExactOutput cfg p (putAssets P st st') u v a b x hi' fee =
      routeWithExactOutput cfg p st u v a b x hi' fee := by
  have hinherent : (putAssets P st st').inherentAsset = st.inherentAsset := hi
  unfold pools at hP
  unfold routeWithExactOutput
  rw [hinherent]
  by_cases ha : a = st.inherentAsset
  · rw [if_pos ha] at hP ⊢
    have heb := hP b List.mem_cons_self
    unfold inherentAssetToPairedAssetWithExactOutput calcInherentAssetInputAmount
    simp only [if_pos ha, hinherent, balance_put heb]
  · rw [if_neg ha] at hP ⊢
    rw [if_neg ha]
    by_cases hb : b = st.inherentAsset
    · rw [if_pos hb] at hP ⊢
      have hea := hP a List.mem_cons_self
      unfold pairedAssetToInherentAssetWithExactOutput calcPairedAssetInputAmount
      simp only [if_pos hb, hinherent, balance_put hea]
    · rw [if_neg hb] at hP ⊢
      have hea := hP a List.mem_cons_self
      have heb := hP b (List.mem_cons_of_mem _ List.mem_cons_self)
      unfold assetAToAssetBWithExactOutput calcInherentAssetInputAmount calcPairedAssetInputAmount acrossInherent
      simp only [if_neg hb, hinherent, balance_put hea, balance_put heb]

omit [DecidableEq A] in
theorem exactInput_parties {lo : Balance} {r : Route A}
    (h : routeWithExactInput cfg p st u v a b x lo fee = some (.ok r)) : ∀ t ∈ r.payments,
    t.payer ∈ u :: v :: (pools st.inherentAsset a b).map (getExchangeAddress cfg st.inherentAsset) ∧
    t.payee ∈ u :: v :: (pools st.inherentAsset a b).map (getExchangeAddress cfg st.inherentAsset) := by
  unfold pools
  rcases exactInput_cases h with ⟨ha, _, _, rfl⟩ | ⟨ha, hb, _, _, rfl⟩ | ⟨ha, hb, _, _, _, _, rfl⟩
  · simp [ha]
  · simp [ha, hb]
  · simp [ha, hb, acrossInherent]

omit [DecidableEq A] in
theorem exactOutput_parties {hi : Balance} {r : Route A}
    (h : routeWithExactOutput cfg p st u v a b x hi fee = some (.ok r)) : ∀ t ∈ r.payments,
    t.payer ∈ u :: v :: (pools st.inherentAsset a b).map (getExchangeAddress cfg st.inherentAsset) ∧
    t.payee ∈ u :: v :: (pools st.inherentAsset a b).map (getExchangeAddress cfg st.inherentAsset) := by
  unfold pools
  rcases exactOutput_cases h with ⟨ha, _, _, rfl⟩ | ⟨ha, hb, _, _, rfl⟩ | ⟨ha, hb, _, _, _, _, rfl⟩
  · simp [ha]
  · simp [ha, hb]
  · simp [ha, hb, acrossInherent]

end Reads

/-! ## Liquidity -/

section Liquidity
variable {cfg : Config A} {p : Profile} {P : List A} {D : List AssetId} {sw sw' : Swap A} {s t : Chain A} {u : A}
  {a : AssetId} {x y : Balance}

theorem getLiquidity_put (hu : u ∈ P) : getLiquidity (putSwap P D sw sw') a u = getLiquidity sw a u :=
  overlay_of_mem hu

theorem getTotalLiquidity_put (ha : a ∈ D) : getTotalLiquidity (putSwap P D sw sw') a = getTotalLiquidity sw a :=
  overlay_of_mem ha

theorem setLiquidity_put (hu : u ∈ P) :
    setLiquidity (putSwap P D sw sw') a u x = putSwap P D (setLiquidity sw a u x) sw' := by
  unfold setLiquidity putSwap
  dsimp only
  rw [update_overlay (show Prod.snd (a, u) ∈ P from hu)]

theorem increaseTotalLiquidity_put (ha : a ∈ D) : increaseTotalLiquidity p (putSwap P D sw sw') a x =
    (increaseTotalLiquidity p sw a x).map fun sw₁ => putSwap P D sw₁ sw' := by
  have hkey : id a ∈ D := ha
  unfold increaseTotalLiquidity putSwap
  simp only [overlay_of_mem hkey, update_overlay hkey, Option.bind_eq_bind, Option.map_bind, Function.comp_def,
    Option.map_some]

theorem decreaseTotalLiquidity_put (ha : a ∈ D) : decreaseTotalLiquidity p (putSwap P D sw sw') a x =
    (decreaseTotalLiquidity p sw a x).map fun sw₁ => putSwap P D sw₁ sw' := by
  have hkey : id a ∈ D := ha
  unfold decreaseTotalLiquidity putSwap
  simp only [overlay_of_mem hkey, update_overlay hkey, Option.bind_eq_bind, Option.map_bind, Function.comp_def,
    Option.map_some]

theorem exchangeAccounts_put (ha : a ∈ D) (e : Option A) :
    Function.update (putSwap P D sw sw').exchangeAccounts a e =
      overlay D id (Function.update sw.exchangeAccounts a e) sw'.exchangeAccounts :=
  update_overlay (show id a ∈ D from ha) e

theorem addLiquidity_put {lo : Balance} (hi : t.assets.inherentAsset = s.assets.inherentAsset) (hu : u ∈ P)
    (he : getExchangeAddress cfg s.assets.inherentAsset a ∈ P) (ha : a ∈ D) :
    _addLiquidity cfg p ((part P D).put s t) u a x y lo =
      (_addLiquidity cfg p s u a x y lo).map fun s' => (part P D).put s' t := by
  have hinherent : ((part P D).put s t).assets.inherentAsset = s.assets.inherentAsset := hi
  have hassets : ((part P D).put s t).assets = putAssets P s.assets t.assets := rfl
  have hswap : ((part P D).put s t).swap = putSwap P D s.swap t.swap := rfl
  unfold _addLiquidity inject
  rw [hinherent, hassets, hswap]
  dsimp only
  rw [pay_put (by simp [hu, he]), getTotalLiquidity_put ha, getLiquidity_put hu, balance_put he]
  split
  · simp only [Option.bind_eq_bind, Option.map_bind, Option.bind_map, Option.bind_assoc, Function.comp_def,
      Option.map_some, Option.bind_some, setLiquidity_put hu, increaseTotalLiquidity_put ha, exchangeAccounts_put ha]
    rfl
  · simp only [Option.bind_eq_bind, Option.map_bind, Option.bind_map, Option.bind_assoc, Function.comp_def,
      Option.map_some, Option.bind_some, setLiquidity_put hu, increaseTotalLiquidity_put ha, exchangeAccounts_put ha]
    rfl

theorem removeLiquidity_put {lo lo' : Balance} (hi : t.assets.inherentAsset = s.assets.inherentAsset) (hu : u ∈ P)
    (he : getExchangeAddress cfg s.assets.inherentAsset a ∈ P) (ha : a ∈ D) :
    _removeLiquidity cfg p ((part P D).put s t) u a x lo lo' =
      (_removeLiquidity cfg p s u a x lo lo').map fun s' => (part P D).put s' t := by
  have hinherent : ((part P D).put s t).assets.inherentAsset = s.assets.inherentAsset := hi
  have hassets : ((part P D).put s t).assets = putAssets P s.assets t.assets := rfl
  have hswap : ((part P D).put s t).swap = putSwap P D s.swap t.swap := rfl
  unfold _removeLiquidity
  rw [hinherent, hassets, hswap]
  have hpay : ∀ m n : Balance, pay p (putAssets P s.assets t.assets)
      [⟨getExchangeAddress cfg s.assets.inherentAsset a, s.assets.inherentAsset, u, m⟩,
        ⟨getExchangeAddress cfg s.assets.inherentAsset a, a, u, n⟩] =
      (pay p s.assets [⟨getExchangeAddress cfg s.assets.inherentAsset a, s.assets.inherentAsset, u, m⟩,
        ⟨getExchangeAddress cfg s.assets.inherentAsset a, a, u, n⟩]).map fun q => (q.1, putAssets P q.2 t.assets) :=
    fun m n => pay_put (by simp [hu, he])
  simp only [Option.bind_eq_bind, Option.map_bind, Option.bind_map, Function.comp_def, Option.map_some, hpay,
    getTotalLiquidity_put ha, getLiquidity_put hu, balance_put he, setLiquidity_put hu, decreaseTotalLiquidity_put ha]
  rfl

end Liquidity

/-! ## One trade -/

section Trades
variable {cfg : Config A} {p : Profile} {i : AssetId} {P : List A} {D : List AssetId} {s t : Chain A}

theorem transferDropped_put {st st' : Assets A} {u v : A} {id : AssetId} {x : Balance} (hu : u ∈ P) (hv : v ∈ P) :
    (putAssets P st st').transferDropped p u id v x =
      (st.transferDropped p u id v x).map fun st₁ => putAssets P st₁ st' := by
  unfold transferDropped
  rw [transfer_put hu hv]
  cases st.transfer p u id v x with
  | none => rfl
  | some r => cases r <;> rfl

theorem runRoute_put {route : Option (Except String (Route A))}
    (hP : ∀ r, route = some (.ok r) → ∀ t ∈ r.payments, t.payer ∈ P ∧ t.payee ∈ P) :
    (runRoute p ((part P D).put s t) route).map Prod.snd =
      ((runRoute p s route).map Prod.snd).map fun s' => (part P D).put s' t := by
  have hassets : ((part P D).put s t).assets = putAssets P s.assets t.assets := rfl
  unfold runRoute
  rw [hassets]
  cases route with
  | none => rfl
  | some q =>
    cases q with
    | error e => rfl
    | ok r =>
      simp only [Option.bind_eq_bind, Option.bind_some, pay_put (hP r rfl)]
      cases pay p s.assets r.payments <;> rfl

theorem step_transfer (cfg : Config A) (p : Profile) (s : Chain A) (u v : A) (id : AssetId) (x : Balance) :
    step cfg p s (Trade.transfer u v id x).action =
      (s.assets.transferDropped p u id v x).map fun st => { s with assets := st } := by
  change Option.map Prod.snd (s.assets.transferDropped p u id v x >>= fun st => some (_, { s with assets := st })) = _
  cases s.assets.transferDropped p u id v x <;> rfl

theorem step_addLiquidity (cfg : Config A) (p : Profile) (s : Chain A) (u : A) (a : AssetId) (x y lo : Balance) :
    step cfg p s (Trade.addLiquidity u a x y lo).action = _addLiquidity cfg p s u a x y lo := by
  change Option.map Prod.snd (_addLiquidity cfg p s u a x y lo >>= fun s' => some (_, s')) = _
  cases _addLiquidity cfg p s u a x y lo <;> rfl

theorem step_removeLiquidity (cfg : Config A) (p : Profile) (s : Chain A) (u : A) (a : AssetId) (x lo lo' : Balance) :
    step cfg p s (Trade.removeLiquidity u a x lo lo').action = _removeLiquidity cfg p s u a x lo lo' := by
  change Option.map Prod.snd (_removeLiquidity cfg p s u a x lo lo' >>= fun s' => some (_, s')) = _
  cases _removeLiquidity cfg p s u a x lo lo' <;> rfl

/-- The states in which `i` is the inherent asset. -/
def Inherent (i : AssetId) (s : Chain A) : Prop := s.assets.inherentAsset = i

theorem trade_inherent {tr : Trade A} (hs : Inherent i s) (h : step cfg p s tr.action = some t) : Inherent i t := by
  have hswap : ∀ u call, (dispatch cfg p s (.signed u) call).map Prod.snd = some t → Inherent i t := by
    intro u call h
    obtain ⟨⟨r, t⟩, hd, rfl⟩ := Option.map_eq_some_iff.mp h
    obtain ⟨balances, hframe⟩ := (swap_moves hd).1.frame
    exact (congrArg Assets.inherentAsset hframe).trans hs
  cases tr with
  | transfer u v id x =>
    rw [step_transfer] at h
    obtain ⟨st, hst, rfl⟩ := Option.map_eq_some_iff.mp h
    obtain ⟨balances, rfl⟩ := (transferDropped_moves hst).frame
    exact hs
  | exactInput u v a b x lo => exact hswap u (.swapAssetsWithExactInput v a b x lo) h
  | exactOutput u v a b y hi => exact hswap u (.swapAssetsWithExactOutput v a b y hi) h
  | addLiquidity u a x y lo => exact hswap u (.addLiquidity a x y lo) h
  | removeLiquidity u a x lo lo' => exact hswap u (.removeLiquidity a x lo lo') h

/-- **A trade reads and writes nothing but what belongs to its parties.** -/
theorem trade_local (cfg : Config A) (p : Profile) (i : AssetId) (tr : Trade A) :
    Local (Inherent i) (part (tr.parties cfg i) tr.pooled) fun s => step cfg p s tr.action where
  keeps := trade_inherent
  put := by
    intro s t hs ht
    have hi : t.assets.inherentAsset = s.assets.inherentAsset := ht.trans hs.symm
    cases hs
    cases tr with
    | transfer u v id x =>
      rw [step_transfer, step_transfer]
      have hput : ((part [u, v] []).put s t).assets.transferDropped p u id v x = _ :=
        transferDropped_put List.mem_cons_self (List.mem_cons_of_mem _ List.mem_cons_self)
      change Option.map _ (((part [u, v] []).put s t).assets.transferDropped p u id v x) = _
      rw [hput]
      cases s.assets.transferDropped p u id v x <;> rfl
    | exactInput u v a b x lo =>
      have hpools : ∀ c ∈ pools s.assets.inherentAsset a b, getExchangeAddress cfg s.assets.inherentAsset c ∈
          (Trade.exactInput u v a b x lo).parties cfg s.assets.inherentAsset := fun c hc =>
        List.mem_cons_of_mem _ (List.mem_cons_of_mem _ (List.mem_map_of_mem hc))
      refine Eq.trans ?_ (runRoute_put fun r hr => exactInput_parties hr)
      exact congrArg (fun route => Option.map Prod.snd (runRoute p _ route)) (exactInput_put hi hpools)
    | exactOutput u v a b y hi' =>
      have hpools : ∀ c ∈ pools s.assets.inherentAsset a b, getExchangeAddress cfg s.assets.inherentAsset c ∈
          (Trade.exactOutput u v a b y hi').parties cfg s.assets.inherentAsset := fun c hc =>
        List.mem_cons_of_mem _ (List.mem_cons_of_mem _ (List.mem_map_of_mem hc))
      refine Eq.trans ?_ (runRoute_put fun r hr => exactOutput_parties hr)
      exact congrArg (fun route => Option.map Prod.snd (runRoute p _ route)) (exactOutput_put hi hpools)
    | addLiquidity u a x y lo =>
      rw [step_addLiquidity, step_addLiquidity]
      exact addLiquidity_put hi List.mem_cons_self (List.mem_cons_of_mem _ List.mem_cons_self) List.mem_cons_self
    | removeLiquidity u a x lo lo' =>
      rw [step_removeLiquidity, step_removeLiquidity]
      exact removeLiquidity_put hi List.mem_cons_self (List.mem_cons_of_mem _ List.mem_cons_self) List.mem_cons_self

end Trades

/-! ## Many trades -/

theorem trades_apart {cfg : Config A} {i : AssetId} {tr tr' : Trade A} (h : tr.Apart cfg i tr') :
    (part (tr.parties cfg i) tr.pooled).Apart (part (tr'.parties cfg i) tr'.pooled) :=
  part_apart h fun _ ha ha' => h _ (pooled_party ha) (pooled_party ha')

/-- **Trades without a common party do not interfere.** From every state they can be executed in any order with the same
final state, and each leaves its parties with the balances and shares that it leaves them with when it is executed
alone. -/
theorem trades_independent {cfg : Config A} {p : Profile} {s t : Chain A} {l : List (Trade A)}
    (hl : l.Pairwise (Trade.Apart cfg s.assets.inherentAsset))
    (h : exec (step cfg p) s (l.map Trade.action) = some t) :
    (∀ l', l.Perm l' → exec (step cfg p) s (l'.map Trade.action) = some t) ∧
      ∀ tr ∈ l, ∃ alone, step cfg p s tr.action = some alone ∧
        ∀ u ∈ tr.parties cfg s.assets.inherentAsset, ∀ a, t.assets.balances (a, u) = alone.assets.balances (a, u) ∧
          t.swap.accountLiquidities (a, u) = alone.swap.accountLiquidities (a, u) := by
  have hlocal := trade_local cfg p s.assets.inherentAsset
  have hapart := hl.imp fun h => trades_apart h
  rw [exec_map] at h
  refine ⟨fun l' hperm => ?_, fun tr htr => ?_⟩
  · rw [exec_map, ← exec_perm hlocal hperm hapart s rfl, h]
  · obtain ⟨alone, halone, hsame⟩ := exec_alone hlocal hapart rfl h htr
    refine ⟨alone, halone, fun u hu a => ?_⟩
    have hkey : Prod.snd (a, u) ∈ tr.parties cfg s.assets.inherentAsset := hu
    rw [← hsame]
    exact ⟨overlay_of_mem hkey, overlay_of_mem hkey⟩

/-- A swap in the pool of asset `1`, a first deposit into the pool of asset `2` and a transfer, by three accounts. -/
theorem trades_independent_pair : ∃ s t alone, play pairConfig .release pairGenesis
      [.call (.signed (.inl 1)) (.assets (.issue 1000000)),
        .call (.signed (.inl 1)) (.swap (.addLiquidity 1 1000 1000 0)),
        .call (.signed (.inl 1)) (.assets (.transferAsset 2 (.inl 0) 40))] = some s ∧
    exec (step pairConfig .release) s ([.exactInput (.inl 2) (.inl 2) 0 1 100 0, .addLiquidity (.inl 1) 2 500 500 0,
      .transfer (.inl 0) (.inr (7, 7)) 2 30].map Trade.action) = some t ∧
    exec (step pairConfig .release) s ([.transfer (.inl 0) (.inr (7, 7)) 2 30, .addLiquidity (.inl 1) 2 500 500 0,
      .exactInput (.inl 2) (.inl 2) 0 1 100 0].map Trade.action) = some t ∧
    step pairConfig .release s (Trade.exactInput (.inl 2) (.inl 2) 0 1 100 0).action = some alone ∧
    t.assets.balances (1, .inl 2) = alone.assets.balances (1, .inl 2) ∧
    t.assets.balances (1, .inl 2) = s.assets.balances (1, .inl 2) + 90 := by
  obtain ⟨s, t, hs, ht, hi, hbought⟩ : ∃ s t, play pairConfig .release pairGenesis
        [.call (.signed (.inl 1)) (.assets (.issue 1000000)),
          .call (.signed (.inl 1)) (.swap (.addLiquidity 1 1000 1000 0)),
          .call (.signed (.inl 1)) (.assets (.transferAsset 2 (.inl 0) 40))] = some s ∧
      exec (step pairConfig .release) s ([.exactInput (.inl 2) (.inl 2) 0 1 100 0, .addLiquidity (.inl 1) 2 500 500 0,
        .transfer (.inl 0) (.inr (7, 7)) 2 30].map Trade.action) = some t ∧
      s.assets.inherentAsset = 0 ∧ t.assets.balances (1, .inl 2) = s.assets.balances (1, .inl 2) + 90 :=
    ⟨_, _, rfl, rfl, rfl, rfl⟩
  obtain ⟨hperm, halone⟩ := trades_independent (by rw [hi]; decide) ht
  obtain ⟨alone, hstep, hsame⟩ := halone _ List.mem_cons_self
  exact ⟨s, t, alone, hs, ht, hperm _ (List.reverse_perm _).symm, hstep, (hsame _ List.mem_cons_self 1).1, hbought⟩

end Konomi.Swap
