import Konomi.Blocks

/-!
# What nothing depends on

The lending pallet neither reads nor writes the storage of the swap pallet (`Lending.dispatch_carry`). Within the swap
pallet the fee rate, the list of exchange accounts and the limits of the callers are passed on and stored, and no
result depends on them, over any run and also not as to where it panics (`limits_have_no_effect`).
-/

namespace Konomi
open Machine

variable {A : Type} [DecidableEq A]

/-! ## Lending and the storage of swaps -/

namespace Lending
variable (cfg : Config A) (p : Profile) (s : Chain A) (sw : Swap A)

/-- The outcome with `sw` as the storage of the swap pallet. -/
def carry (r : Outcome A) : Outcome A := (r.1, { r.2 with swap := sw })

section Rules
variable {sw : Swap A} {α : Type}

omit [DecidableEq A] in
theorem carry_bind {o : Option α} {f g : α → Option (Outcome A)} (h : ∀ a, f a = (g a).map (carry sw)) :
    (o >>= f) = (o >>= g).map (carry sw) := by
  cases o with
  | none => rfl
  | some a => exact h a

omit [DecidableEq A] in
theorem carry_ite {c : Prop} [Decidable c] {x x' y y' : Option (Outcome A)} (hx : x = x'.map (carry sw))
    (hy : y = y'.map (carry sw)) : (if c then x else y) = (if c then x' else y').map (carry sw) := by
  split
  · exact hx
  · exact hy

end Rules

theorem supply_carry (u : A) (a : AssetId) (x : Balance) :
    supply cfg p { s with swap := sw } u a x = (supply cfg p s u a x).map (carry sw) := by
  unfold supply
  dsimp only
  cases s.lending.pools a with
  | none => rfl
  | some pool =>
    refine carry_bind fun pool => carry_bind fun r => ?_
    cases r with
    | error e => rfl
    | ok assets => exact carry_bind fun l => carry_bind fun pool => rfl

theorem withdraw_carry (u : A) (a : AssetId) (x : Balance) :
    withdraw cfg p { s with swap := sw } u a x = (withdraw cfg p s u a x).map (carry sw) := by
  unfold withdraw
  dsimp only
  cases s.lending.pools a with
  | none => rfl
  | some pool =>
    refine carry_bind fun pool => carry_bind fun l => ?_
    cases l.supplies.records (a, u) with
    | none => rfl
    | some user =>
      refine carry_bind fun info => carry_bind fun factor => carry_bind fun value => carry_bind fun converted =>
        carry_bind fun required => carry_ite rfl (carry_bind fun cash => carry_ite rfl (carry_bind fun r => ?_))
      cases r with
      | error e => rfl
      | ok assets => exact carry_bind fun l => carry_bind fun pool => rfl

theorem borrow_carry (u : A) (a : AssetId) (x : Balance) :
    borrow cfg p { s with swap := sw } u a x = (borrow cfg p s u a x).map (carry sw) := by
  unfold borrow
  dsimp only
  cases s.lending.pools a with
  | none => rfl
  | some pool =>
    refine carry_bind fun pool => carry_bind fun cash => carry_ite rfl (carry_bind fun l => carry_bind fun info =>
      carry_bind fun value => carry_bind fun converted => carry_bind fun required => carry_ite rfl
        (carry_bind fun r => ?_))
    cases r with
    | error e => rfl
    | ok assets => exact carry_bind fun l => carry_bind fun pool => rfl

theorem repay_carry (u : A) (a : AssetId) (x : Balance) :
    repay cfg p { s with swap := sw } u a x = (repay cfg p s u a x).map (carry sw) := by
  unfold repay
  dsimp only
  cases s.lending.pools a with
  | none => rfl
  | some pool =>
    refine carry_bind fun pool => carry_bind fun l => ?_
    cases l.debts.records (a, u) with
    | none => rfl
    | some user =>
      refine carry_bind fun r => ?_
      cases r with
      | error e => rfl
      | ok assets => exact carry_bind fun l => carry_bind fun pool => rfl

theorem liquidate_carry (u target : A) (payId getId : AssetId) (x : Balance) :
    liquidate cfg p { s with swap := sw } u target payId getId x =
      (liquidate cfg p s u target payId getId x).map (carry sw) := by
  have hseizure : seizure p { s with swap := sw } target payId getId x = seizure p s target payId getId x := rfl
  unfold liquidate
  rw [hseizure]
  refine carry_bind fun z => ?_
  cases z with
  | error e => rfl
  | ok z =>
    refine carry_bind fun r => ?_
    cases r with
    | error e => rfl
    | ok assets =>
      refine carry_bind fun r => ?_
      cases r with
      | error e => rfl
      | ok assets => exact carry_bind fun l => carry_bind fun l => rfl

/-- **The lending pallet neither reads nor writes the storage of the swap pallet.** -/
theorem dispatch_carry (origin : Origin A) (call : Call A) :
    dispatch cfg p { s with swap := sw } origin call = (dispatch cfg p s origin call).map (carry sw) := by
  cases call with
  | initPool => rfl
  | supply a x =>
    cases origin with
    | signed u => exact supply_carry cfg p s sw u a x
    | root | none => rfl
  | withdraw a x =>
    cases origin with
    | signed u => exact withdraw_carry cfg p s sw u a x
    | root | none => rfl
  | borrow a x =>
    cases origin with
    | signed u => exact borrow_carry cfg p s sw u a x
    | root | none => rfl
  | repay a x =>
    cases origin with
    | signed u => exact repay_carry cfg p s sw u a x
    | root | none => rfl
  | liquidate target payId getId x =>
    cases origin with
    | signed u => exact liquidate_carry cfg p s sw u target payId getId x
    | root | none => rfl

end Lending

/-! ## Fee rates and limits -/

namespace Swap

/-- The call with its fee rate or its limits set to zero. -/
def Call.erase : Call A → Call A
  | .setFeeRate _ => .setFeeRate 0
  | .swapAssetsWithExactInput v a b x _ => .swapAssetsWithExactInput v a b x 0
  | .swapAssetsWithExactOutput v a b y _ => .swapAssetsWithExactOutput v a b y 0
  | .addLiquidity a x y _ => .addLiquidity a x y 0
  | .removeLiquidity a x _ _ => .removeLiquidity a x 0 0

end Swap

/-- The chain without the fee rate and the list of exchange accounts. -/
def strip (s : Chain A) : Chain A :=
  { s with swap := { s.swap with feeRateGlobal := 0, exchangeAccounts := fun _ => none } }

namespace Swap
variable (cfg : Config A) (p : Profile) (s : Chain A)

omit [DecidableEq A] in
theorem strip_bind {α β γ : Type} {o : Option α} {f g : α → Option β} {k : β → γ}
    (h : ∀ a, (f a).map k = (g a).map k) : (o >>= f).map k = (o >>= g).map k := by
  cases o with
  | none => rfl
  | some a => exact h a

theorem runRoute_strip (route : Option (Except String (Route A))) :
    (runRoute p (strip s) route).map (Prod.map id strip) = (runRoute p s route).map (Prod.map id strip) := by
  refine strip_bind fun r => ?_
  cases r with
  | error e => rfl
  | ok r => exact strip_bind fun q => rfl

theorem addLiquidity_strip (u : A) (a : AssetId) (x y lo lo' : Balance) :
    (_addLiquidity cfg p (strip s) u a x y lo).map strip =
      (_addLiquidity cfg p s u a x y lo').map strip := by
  unfold _addLiquidity inject increaseTotalLiquidity
  dsimp only
  have htotal : getTotalLiquidity (strip s).swap a = getTotalLiquidity s.swap a := rfl
  rw [htotal]
  split
  · simp only [bind_assoc]
    exact strip_bind fun q => strip_bind fun total => rfl
  · simp only [bind_assoc]
    exact strip_bind fun q => strip_bind fun product => strip_bind fun minted => strip_bind fun liquidity =>
      strip_bind fun total => rfl

theorem removeLiquidity_strip (u : A) (a : AssetId) (x lo lo' hi hi' : Balance) :
    (_removeLiquidity cfg p (strip s) u a x lo hi).map strip =
      (_removeLiquidity cfg p s u a x lo' hi').map strip := by
  unfold _removeLiquidity decreaseTotalLiquidity
  simp only [bind_assoc]
  exact strip_bind fun m => strip_bind fun m => strip_bind fun n => strip_bind fun n => strip_bind fun q =>
    strip_bind fun left => strip_bind fun total => rfl

theorem dispatch_strip (origin : Origin A) (call : Call A) :
    (dispatch cfg p (strip s) origin call.erase).map (Prod.map id strip) =
      (dispatch cfg p s origin call).map (Prod.map id strip) := by
  have hliquidity : ∀ {o o' : Option (Chain A)}, o.map strip = o'.map strip →
      (o >>= fun s' => some (Except.ok (), s')).map (Prod.map id strip) =
        (o' >>= fun s' => some ((Except.ok () : Except DispatchError Unit), s')).map (Prod.map id strip) := by
    intro o o' h
    cases o <;> cases o' <;> simp_all
  cases origin with
  | signed u =>
    cases call with
    | setFeeRate f => rfl
    | swapAssetsWithExactInput v a b x lo => exact runRoute_strip p s _
    | swapAssetsWithExactOutput v a b y hi => exact runRoute_strip p s _
    | addLiquidity a x y lo => exact hliquidity (addLiquidity_strip cfg p s u a x y 0 lo)
    | removeLiquidity a x lo hi => exact hliquidity (removeLiquidity_strip cfg p s u a x 0 lo 0 hi)
  | root | none => cases call <;> rfl

end Swap

theorem Assets.dispatch_strip (p : Profile) (s : Chain A) (origin : Origin A) (call : Assets.Call A) :
    (Assets.dispatch p (strip s) origin call).map (Prod.map id strip) =
      (Assets.dispatch p s origin call).map (Prod.map id strip) := by
  cases origin with
  | signed u =>
    cases call with
    | issue total => exact Swap.strip_bind fun st => rfl
    | destroy id => exact Swap.strip_bind fun r => rfl
    | transferAsset id v x => exact Swap.strip_bind fun st => rfl
    | setInherentAsset | setPrice => rfl
  | root | none => cases call <;> rfl

theorem Lending.dispatch_strip (cfg : Config A) (p : Profile) (s : Chain A) (origin : Origin A)
    (call : Lending.Call A) :
    (Lending.dispatch cfg p (strip s) origin call).map (Prod.map id strip) =
      (Lending.dispatch cfg p s origin call).map (Prod.map id strip) := by
  have hstripped : dispatch cfg p (strip s) origin call = (dispatch cfg p s origin call).map (carry (strip s).swap) :=
    dispatch_carry cfg p s (strip s).swap origin call
  have hsame : dispatch cfg p s origin call = (dispatch cfg p s origin call).map (carry s.swap) :=
    dispatch_carry cfg p s s.swap origin call
  rw [hstripped]
  conv_rhs => rw [hsame]
  rw [Option.map_map, Option.map_map]
  rfl

/-! ## The runtime -/

def Call.erase : Call A → Call A
  | .swap c => .swap c.erase
  | c => c

/-- The action with the fee rates and the limits of swap calls set to zero. -/
def Action.erase : Action A → Action A
  | .call origin c => .call origin c.erase
  | l => l

section Runtime
variable (cfg : Config A) (p : Profile) (s : Chain A)

theorem dispatch_strip (origin : Origin A) (call : Call A) :
    (dispatch cfg p (strip s) origin call.erase).map (Prod.map id strip) =
      (dispatch cfg p s origin call).map (Prod.map id strip) := by
  cases call with
  | assets c => exact Assets.dispatch_strip p s origin c
  | swap c => exact Swap.dispatch_strip cfg p s origin c
  | lending c => exact Lending.dispatch_strip cfg p s origin c

theorem step_strip (l : Action A) : (step cfg p (strip s) l.erase).map strip = (step cfg p s l).map strip := by
  cases l with
  | advance n =>
    change (if s.blockNumber < n then _ else none).map strip = (if s.blockNumber < n then _ else none).map strip
    split <;> rfl
  | call origin call =>
    have hcall := congrArg (Option.map Prod.snd) (dispatch_strip cfg p s origin call)
    change ((dispatch cfg p (strip s) origin call.erase).map Prod.snd).map strip =
      ((dispatch cfg p s origin call).map Prod.snd).map strip
    rw [Option.map_map, Option.map_map] at hcall ⊢
    exact hcall

end Runtime

section Runs
variable {cfg : Config A} {p : Profile} {s s' t t' : Chain A} {actions actions' : List (Action A)} {origin : Origin A}
  {call call' : Call A}

theorem result_eq (hs : strip s = strip s') (hcall : call.erase = call'.erase) :
    (dispatch cfg p s origin call).map Prod.fst = (dispatch cfg p s' origin call').map Prod.fst := by
  have hfst : ∀ o : Option (Outcome A), o.map Prod.fst = (o.map (Prod.map id strip)).map Prod.fst := by
    intro o
    rw [Option.map_map]
    rfl
  rw [hfst, hfst (dispatch cfg p s' origin call'), ← dispatch_strip, ← dispatch_strip cfg p s', hs, hcall]

/-- **Fee rates and limits have no effect.** Two lists of actions that differ only in the fee rates that are set and in
the limits of the swap calls, from two states that differ only in the fee rate and the list of exchange accounts: both
runs panic, or both reach states that differ only in these, in which calls that differ only in these have the same
result and quotes are the same. -/
theorem limits_have_no_effect (hs : strip s = strip s') (hactions : actions.map Action.erase = actions'.map Action.erase) :
    (exec (step cfg p) s actions).map strip = (exec (step cfg p) s' actions').map strip ∧
      ∀ t t', exec (step cfg p) s actions = some t → exec (step cfg p) s' actions' = some t' →
        (∀ origin call call', call.erase = call'.erase →
          (dispatch cfg p t origin call).map Prod.fst = (dispatch cfg p t' origin call').map Prod.fst) ∧
        ∀ a b x, Swap.calculateOutput cfg p t a b x = Swap.calculateOutput cfg p t' a b x := by
  have hrun : (exec (step cfg p) s actions).map strip = (exec (step cfg p) s' actions').map strip := by
    refine exec_map_eq (fun s s' l l' hs hl => ?_) hs hactions
    rw [← step_strip, ← step_strip cfg p s', hs, hl]
  refine ⟨hrun, fun t t' ht ht' => ?_⟩
  have hsame : strip t = strip t' := by
    rw [ht, ht'] at hrun
    exact Option.some.inj hrun
  refine ⟨fun origin call call' hcall => result_eq hsame hcall, fun a b x => ?_⟩
  have hquote : ∀ u : Chain A, Swap.calculateOutput cfg p u a b x = Swap.calculateOutput cfg p (strip u) a b x :=
    fun _ => rfl
  rw [hquote t, hquote t', hsame]

end Runs

/-- With a fee rate and limits that no swap could meet, user `2` gets what it gets without them. -/
theorem limits_have_no_effect_mock : ∃ s t t', play mockConfig .release mockGenesis
      [.call (.signed 1) (.swap (.addLiquidity 1 1000 1000 0))] = some s ∧
    exec (step mockConfig .release) s [.call (.signed 1) (.swap (.setFeeRate 30)),
      .call (.signed 2) (.swap (.swapAssetsWithExactInput 2 0 1 333 400))] = some t ∧
    exec (step mockConfig .release) s [.call (.signed 1) (.swap (.setFeeRate 0)),
      .call (.signed 2) (.swap (.swapAssetsWithExactInput 2 0 1 333 0))] = some t' ∧
    t.assets.balances (1, 2) = s.assets.balances (1, 2) + 249 ∧ strip t = strip t' ∧
    t.swap.feeRateGlobal ≠ t'.swap.feeRateGlobal := by
  obtain ⟨s, t, t', hs, ht, ht', hbought, hfee⟩ : ∃ s t t', play mockConfig .release mockGenesis
        [.call (.signed 1) (.swap (.addLiquidity 1 1000 1000 0))] = some s ∧
      exec (step mockConfig .release) s [.call (.signed 1) (.swap (.setFeeRate 30)),
        .call (.signed 2) (.swap (.swapAssetsWithExactInput 2 0 1 333 400))] = some t ∧
      exec (step mockConfig .release) s [.call (.signed 1) (.swap (.setFeeRate 0)),
        .call (.signed 2) (.swap (.swapAssetsWithExactInput 2 0 1 333 0))] = some t' ∧
      t.assets.balances (1, 2) = s.assets.balances (1, 2) + 249 ∧
      t.swap.feeRateGlobal ≠ t'.swap.feeRateGlobal := ⟨_, _, _, rfl, rfl, rfl, rfl, by decide⟩
  have hsame : (exec (step mockConfig .release) s [.call (.signed 1) (.swap (.setFeeRate 30)),
        .call (.signed 2) (.swap (.swapAssetsWithExactInput 2 0 1 333 400))]).map strip =
      (exec (step mockConfig .release) s [.call (.signed 1) (.swap (.setFeeRate 0)),
        .call (.signed 2) (.swap (.swapAssetsWithExactInput 2 0 1 333 0))]).map strip := by
    refine (limits_have_no_effect ?_ ?_).1
    · rfl
    · rfl
  rw [ht, ht'] at hsame
  exact ⟨s, t, t', hs, ht, ht', hbought, Option.some.inj hsame, hfee⟩

end Konomi
