import Konomi.Runtime

/-!
# A call without overflow is the release call

Every function of the runtime is monotone in the profile, so a call that returns under `Profile.checked` (no operator
wraps) or `Profile.strict` (none wraps and none clamps) returns the same under `Profile.release`.
-/

namespace Konomi
open Machine

variable {A : Type} [DecidableEq A]

/-! ## Assets -/

namespace Assets

theorem mono_transfer (st : Assets A) (a : A) (id : AssetId) (b : A) (x : Balance) :
    Mono (fun p => st.transfer p a id b x) := by
  unfold transfer
  exact Mono.ite (Mono.const _) (Mono.ite (Mono.const _) (Mono.bind (Mono.add _ _) fun _ => Mono.const _))

theorem mono_transferDropped (st : Assets A) (a : A) (id : AssetId) (b : A) (x : Balance) :
    Mono (fun p => st.transferDropped p a id b x) := by
  unfold transferDropped
  refine Mono.bind (mono_transfer st a id b x) fun r => ?_
  cases r <;> exact Mono.const _

theorem mono_dispatch (s : Chain A) (origin : Origin A) (call : Call A) :
    Mono (fun p => dispatch p s origin call) := by
  cases call with
  | issue total =>
    cases origin with
    | signed account => exact Mono.bind (Mono.bind (Mono.add _ _) fun _ => Mono.const _) fun _ => Mono.const _
    | _ => exact Mono.const _
  | destroy id =>
    cases origin with
    | signed account =>
      refine Mono.bind ?_ fun _ => Mono.const _
      exact Mono.ite (Mono.const _) (Mono.bind (Mono.sub _ _) fun _ => Mono.const _)
    | _ => exact Mono.const _
  | setInherentAsset asset => exact Mono.const _
  | transferAsset id b x =>
    cases origin with
    | signed account => exact Mono.bind (mono_transferDropped _ _ _ _ _) fun _ => Mono.const _
    | _ => exact Mono.const _
  | setPrice id price =>
    cases origin <;> exact Mono.const _

end Assets

/-! ## Swap -/

namespace Swap

theorem mono_pay (ts : List (Payment A)) : ∀ st : Assets A, Mono (fun p => pay p st ts) := by
  induction ts with
  | nil => exact fun st => Mono.const _
  | cons t ts ih =>
    intro st
    unfold pay
    refine Mono.bind (Assets.mono_transfer st t.payer t.id t.payee t.amount) fun r => ?_
    cases r with
    | error e => exact Mono.bind (ih st) fun _ => Mono.const _
    | ok st₁ => exact Mono.bind (ih st₁) fun _ => Mono.const _

theorem mono_calcOutput (a x y : Balance) (fee : BitVec 64) :
    Mono (fun p => calcOutputAtKnownInput p a x y fee) := by
  unfold calcOutputAtKnownInput
  refine Mono.ite (Mono.const _) (Mono.bind (Mono.add _ _) fun _ => Mono.bind (Mono.mul _ _) fun _ => ?_)
  exact Mono.const _

theorem mono_calcInput (a x y : Balance) (fee : BitVec 64) :
    Mono (fun p => calcInputAtKnownOutput p a x y fee) := by
  unfold calcInputAtKnownOutput
  refine Mono.ite (Mono.const _) (Mono.ite (Mono.const _) (Mono.bind (Mono.sub _ _) fun _ => ?_))
  exact Mono.bind (Mono.mul _ _) fun _ => Mono.const _

omit [DecidableEq A] in
theorem mono_routeWithExactInput (cfg : Config A) (st : Assets A) (u v : A) (a b : AssetId) (x y : Balance)
    (fee : BitVec 64) : Mono (fun p => routeWithExactInput cfg p st u v a b x y fee) := by
  refine Mono.ite ?_ (Mono.ite ?_ ?_)
  · refine Mono.bind (mono_calcOutput _ _ _ fee) fun r => ?_
    cases r <;> exact Mono.const _
  · refine Mono.bind (mono_calcOutput _ _ _ fee) fun r => ?_
    cases r <;> exact Mono.const _
  · refine Mono.bind (mono_calcOutput _ _ _ fee) fun r => ?_
    cases r with
    | error e => exact Mono.const _
    | ok m =>
      refine Mono.bind (mono_calcOutput _ _ _ fee) fun r => ?_
      cases r <;> exact Mono.const _

omit [DecidableEq A] in
theorem mono_routeWithExactOutput (cfg : Config A) (st : Assets A) (u v : A) (a b : AssetId) (x y : Balance)
    (fee : BitVec 64) : Mono (fun p => routeWithExactOutput cfg p st u v a b x y fee) := by
  refine Mono.ite ?_ (Mono.ite ?_ ?_)
  · refine Mono.bind (mono_calcInput _ _ _ fee) fun r => ?_
    cases r <;> exact Mono.const _
  · refine Mono.bind (mono_calcInput _ _ _ fee) fun r => ?_
    cases r <;> exact Mono.const _
  · refine Mono.bind (mono_calcInput _ _ _ fee) fun r => ?_
    cases r with
    | error e => exact Mono.const _
    | ok m =>
      refine Mono.bind (mono_calcInput _ _ _ fee) fun r => ?_
      cases r <;> exact Mono.const _

theorem mono_runRoute (s : Chain A) {route : Profile → Option (Except String (Route A))} (h : Mono route) :
    Mono (fun p => runRoute p s (route p)) := by
  refine Mono.bind h fun r => ?_
  cases r with
  | error e => exact Mono.const _
  | ok r => exact Mono.bind (mono_pay _ _) fun _ => Mono.const _

theorem mono_inject (cfg : Config A) (s : Chain A) (u : A) (a : AssetId) (x y : Balance) :
    Mono (fun p => inject cfg p s u a x y) := by
  refine Mono.ite ?_ ?_
  · refine Mono.bind (mono_pay _ _) fun _ => Mono.bind ?_ fun _ => Mono.const _
    exact Mono.bind (Mono.add _ _) fun _ => Mono.const _
  · refine Mono.bind (mono_pay _ _) fun _ => Mono.bind (Mono.mul _ _) fun _ => Mono.bind (Mono.const _) fun _ => ?_
    refine Mono.bind (Mono.add _ _) fun _ => Mono.bind ?_ fun _ => Mono.const _
    exact Mono.bind (Mono.add _ _) fun _ => Mono.const _

theorem mono_addLiquidity (cfg : Config A) (s : Chain A) (u : A) (a : AssetId) (x y z : Balance) :
    Mono (fun p => _addLiquidity cfg p s u a x y z) :=
  Mono.bind (mono_inject cfg s u a x y) fun _ => Mono.const _

theorem mono_removeLiquidity (cfg : Config A) (s : Chain A) (u : A) (a : AssetId) (x y z : Balance) :
    Mono (fun p => _removeLiquidity cfg p s u a x y z) := by
  refine Mono.bind (Mono.mul _ _) fun _ => Mono.bind (Mono.const _) fun _ => Mono.bind (Mono.mul _ _) fun _ =>
    Mono.bind (Mono.const _) fun _ => Mono.bind (mono_pay _ _) fun _ => Mono.bind (Mono.sub _ _) fun _ => ?_
  exact Mono.bind (Mono.bind (Mono.sub _ _) fun _ => Mono.const _) fun _ => Mono.const _

theorem mono_dispatch (cfg : Config A) (s : Chain A) (origin : Origin A) (call : Call A) :
    Mono (fun p => dispatch cfg p s origin call) := by
  cases call with
  | setFeeRate fee => exact Mono.const _
  | swapAssetsWithExactInput v a b x y =>
    cases origin with
    | signed u => exact mono_runRoute s (mono_routeWithExactInput cfg s.assets u v a b x y s.swap.feeRateGlobal)
    | _ => exact Mono.const _
  | swapAssetsWithExactOutput v a b x y =>
    cases origin with
    | signed u => exact mono_runRoute s (mono_routeWithExactOutput cfg s.assets u v a b x y s.swap.feeRateGlobal)
    | _ => exact Mono.const _
  | addLiquidity a x y z =>
    cases origin with
    | signed u => exact Mono.bind (mono_addLiquidity cfg s u a x y z) fun _ => Mono.const _
    | _ => exact Mono.const _
  | removeLiquidity a x y z =>
    cases origin with
    | signed u => exact Mono.bind (mono_removeLiquidity cfg s u a x y z) fun _ => Mono.const _
    | _ => exact Mono.const _

end Swap

/-! ## Lending -/

theorem Position.mono_accrued (index : FixedU128) (user : Position) : Mono (fun p => user.accrued p index) :=
  Mono.bind (Mono.const _) fun _ => Fixed.mono_mulInt _ _

theorem mono_valueAt (index : FixedU128) (user : Option Position) : Mono (fun p => valueAt p index user) := by
  cases user with
  | none => exact Mono.const _
  | some user => exact user.mono_accrued index

theorem mono_adjust (positive : Bool) (a b : Balance) : Mono (fun p => adjust p positive a b) :=
  Mono.ite (Mono.add a b) (Mono.sub a b)

theorem Book.mono_update (b : Book A) (index : FixedU128) (a : AssetId) (u : A) (x : Balance) (positive : Bool) :
    Mono (fun p => b.update p index a u x positive) := by
  unfold Book.update
  cases b.records (a, u) with
  | none => exact Mono.const _
  | some user =>
    exact Mono.bind (user.mono_accrued index) fun _ => Mono.bind (mono_adjust positive _ _) fun _ =>
      Mono.const _

theorem Book.mono_accrue (b : Book A) (index : FixedU128) (a : AssetId) (u : A) :
    Mono (fun p => b.accrue p index a u) := by
  unfold Book.accrue
  cases b.records (a, u) with
  | none => exact Mono.const _
  | some user => exact Mono.bind (user.mono_accrued index) fun _ => Mono.const _

namespace Lending

theorem mono_debtRateInternal (pool : Pool) : Mono (fun p => debtRateInternal p pool) := by
  unfold debtRateInternal
  refine Mono.ite (Mono.const _) (Mono.bind (Fixed.mono_fromRational _ _) fun _ => ?_)
  exact Mono.bind (Mono.const _) fun _ => Fixed.mono_add _ _

theorem mono_supplyRateInternal (pool : Pool) : Mono (fun p => supplyRateInternal p pool) := by
  unfold supplyRateInternal
  refine Mono.ite (Mono.const _) (Mono.bind (Fixed.mono_fromRational _ _) fun _ => ?_)
  exact Mono.bind (mono_debtRateInternal pool) fun _ => Mono.const _

theorem mono_multiplier (now last : BlockNumber) (rate : FixedU128) : Mono (fun p => multiplier p now last rate) :=
  Mono.bind (Mono.sub _ _) fun _ => Mono.bind (Fixed.mono_fromInteger _) fun _ => Mono.bind (Mono.const _) fun _ =>
    Fixed.mono_add _ _

theorem mono_accrueInterest (now : BlockNumber) (pool : Pool) : Mono (fun p => accrueInterest p now pool) := by
  unfold accrueInterest
  refine Mono.ite (Mono.const _) ?_
  refine Mono.bind (mono_supplyRateInternal pool) fun _ => Mono.bind (mono_multiplier _ _ _) fun _ => ?_
  refine Mono.bind (mono_debtRateInternal pool) fun _ => Mono.bind (mono_multiplier _ _ _) fun _ => ?_
  refine Mono.bind (Fixed.mono_mulInt _ _) fun _ => Mono.bind (Mono.const _) fun _ => ?_
  exact Mono.bind (Fixed.mono_mulInt _ _) fun _ => Mono.const _

theorem mono_supplyIndexNow (now : BlockNumber) (pool : Pool) : Mono (fun p => supplyIndexNow p now pool) :=
  Mono.bind (mono_supplyRateInternal pool) fun _ => Mono.bind (mono_multiplier _ _ _) fun _ => Mono.const _

theorem mono_debtIndexNow (now : BlockNumber) (pool : Pool) : Mono (fun p => debtIndexNow p now pool) :=
  Mono.bind (mono_debtRateInternal pool) fun _ => Mono.bind (mono_multiplier _ _ _) fun _ => Mono.const _

omit [DecidableEq A] in
theorem mono_getUserSupplyWithInterest (s : Chain A) (a : AssetId) (u : A) :
    Mono (fun p => getUserSupplyWithInterest p s a u) := by
  unfold getUserSupplyWithInterest
  cases s.lending.pools a with
  | none => exact Mono.const _
  | some pool => exact Mono.bind (mono_supplyIndexNow _ _) fun _ => mono_valueAt _ _

omit [DecidableEq A] in
theorem mono_getUserDebtWithInterest (s : Chain A) (a : AssetId) (u : A) :
    Mono (fun p => getUserDebtWithInterest p s a u) := by
  unfold getUserDebtWithInterest
  cases s.lending.pools a with
  | none => exact Mono.const _
  | some pool => exact Mono.bind (mono_debtIndexNow _ _) fun _ => mono_valueAt _ _

omit [DecidableEq A] in
theorem mono_getUserInfo (s : Chain A) (u : A) : Mono (fun p => getUserInfo p s u) := by
  unfold getUserInfo
  refine Mono.bind (Mono.foldlM (fun total asset => ?_) _ _) fun _ =>
    Mono.bind (Mono.foldlM (fun total asset => ?_) _ _) fun _ => Mono.const _
  · refine Mono.bind (mono_getUserSupplyWithInterest s asset u) fun _ => Mono.bind (Fixed.mono_mulInt _ _) fun _ => ?_
    refine Mono.bind (Mono.add _ _) fun _ => Mono.bind (Mono.const _) fun _ => Mono.bind (Mono.const _) fun _ => ?_
    exact Mono.bind (Fixed.mono_mulInt _ _) fun _ => Mono.bind (Mono.add _ _) fun _ => Mono.const _
  · refine Mono.bind (mono_getUserDebtWithInterest s asset u) fun _ => Mono.bind (Fixed.mono_mulInt _ _) fun _ => ?_
    exact Mono.add _ _

section Calls
variable (l : Lending A) (pool : Pool) (a : AssetId) (u : A) (x : Balance) (positive : Bool)

theorem mono_updateUserSupply : Mono (fun p => updateUserSupply p l pool a u x positive) :=
  Mono.bind (Book.mono_update _ _ _ _ _ _) fun _ => Mono.const _

theorem mono_updateUserDebt : Mono (fun p => updateUserDebt p l pool a u x positive) :=
  Mono.bind (Book.mono_update _ _ _ _ _ _) fun _ => Mono.const _

theorem mono_accrueSupplyWithInterest : Mono (fun p => accrueSupplyWithInterest p l pool a u) :=
  Mono.bind (Book.mono_accrue _ _ _ _) fun _ => Mono.const _

theorem mono_accrueDebtWithInterest : Mono (fun p => accrueDebtWithInterest p l pool a u) :=
  Mono.bind (Book.mono_accrue _ _ _ _) fun _ => Mono.const _

theorem mono_updatePoolSupply : Mono (fun p => updatePoolSupply p pool x positive) :=
  Mono.bind (mono_adjust positive _ _) fun _ => Mono.const _

theorem mono_updatePoolDebt : Mono (fun p => updatePoolDebt p pool x positive) :=
  Mono.bind (mono_adjust positive _ _) fun _ => Mono.const _

variable (cfg : Config A) (s : Chain A)

theorem mono_supply : Mono (fun p => supply cfg p s u a x) := by
  unfold supply
  cases s.lending.pools a with
  | none => exact Mono.const _
  | some pool =>
    refine Mono.bind (mono_accrueInterest _ _) fun _ => Mono.bind (Assets.mono_transfer _ _ _ _ _) fun r => ?_
    cases r with
    | error e => exact Mono.const _
    | ok assets =>
      exact Mono.bind (mono_updateUserSupply _ _ _ _ _ _) fun _ => Mono.bind (mono_updatePoolSupply _ _ _) fun _ =>
        Mono.const _

theorem mono_withdraw : Mono (fun p => withdraw cfg p s u a x) := by
  unfold withdraw
  cases s.lending.pools a with
  | none => exact Mono.const _
  | some pool =>
    refine Mono.bind (mono_accrueInterest _ _) fun _ => Mono.bind (mono_accrueSupplyWithInterest _ _ _ _) fun l => ?_
    dsimp only
    cases l.supplies.records (a, u) with
    | none => exact Mono.const _
    | some user =>
      refine Mono.bind (mono_getUserInfo _ _) fun _ => Mono.bind (Mono.const _) fun _ => ?_
      refine Mono.bind (Fixed.mono_mulInt _ _) fun _ => Mono.bind (Mono.sub _ _) fun _ => ?_
      refine Mono.bind (Fixed.mono_mulInt _ _) fun _ => Mono.ite (Mono.const _) ?_
      refine Mono.bind (Mono.sub _ _) fun _ => Mono.ite (Mono.const _) ?_
      refine Mono.bind (Assets.mono_transfer _ _ _ _ _) fun r => ?_
      cases r with
      | error e => exact Mono.const _
      | ok assets =>
        exact Mono.bind (mono_updateUserSupply _ _ _ _ _ _) fun _ =>
          Mono.bind (mono_updatePoolSupply _ _ _) fun _ => Mono.const _

theorem mono_borrow : Mono (fun p => borrow cfg p s u a x) := by
  unfold borrow
  cases s.lending.pools a with
  | none => exact Mono.const _
  | some pool =>
    refine Mono.bind (mono_accrueInterest _ _) fun _ => Mono.bind (Mono.sub _ _) fun _ => Mono.ite (Mono.const _) ?_
    refine Mono.bind (mono_accrueDebtWithInterest _ _ _ _) fun l => Mono.bind (mono_getUserInfo _ _) fun _ => ?_
    refine Mono.bind (Fixed.mono_mulInt _ _) fun _ => Mono.bind (Mono.add _ _) fun _ => ?_
    refine Mono.bind (Fixed.mono_mulInt _ _) fun _ => Mono.ite (Mono.const _) ?_
    refine Mono.bind (Assets.mono_transfer _ _ _ _ _) fun r => ?_
    cases r with
    | error e => exact Mono.const _
    | ok assets =>
      exact Mono.bind (mono_updateUserDebt _ _ _ _ _ _) fun _ => Mono.bind (mono_updatePoolDebt _ _ _) fun _ =>
        Mono.const _

theorem mono_repay : Mono (fun p => repay cfg p s u a x) := by
  unfold repay
  cases s.lending.pools a with
  | none => exact Mono.const _
  | some pool =>
    refine Mono.bind (mono_accrueInterest _ _) fun _ => Mono.bind (mono_accrueDebtWithInterest _ _ _ _) fun l => ?_
    dsimp only
    cases l.debts.records (a, u) with
    | none => exact Mono.const _
    | some user =>
      refine Mono.bind (Assets.mono_transfer _ _ _ _ _) fun r => ?_
      cases r with
      | error e => exact Mono.const _
      | ok assets =>
        exact Mono.bind (mono_updateUserDebt _ _ _ _ _ _) fun _ => Mono.bind (mono_updatePoolDebt _ _ _) fun _ =>
          Mono.const _

theorem mono_payLimit (getPrice payPrice : FixedU128) (supply : Balance) :
    Mono (fun p => payLimit p pool getPrice payPrice supply) :=
  Mono.bind (Fixed.mono_mulInt _ _) fun _ => Mono.bind (Mono.const _) fun _ => Mono.bind (Mono.const _) fun _ =>
    Fixed.mono_mulInt _ _

theorem mono_paidAndSeized (getPrice payPrice : FixedU128) (limit debt : Balance) :
    Mono (fun p => paidAndSeized p pool getPrice payPrice limit debt x) :=
  Mono.bind (Mono.const _) fun _ => Mono.bind (Mono.const _) fun _ => Mono.bind (Fixed.mono_mulInt _ _) fun _ =>
    Mono.const _

theorem mono_seizure (payId getId : AssetId) : Mono (fun p => seizure p s u payId getId x) := by
  unfold seizure
  cases s.lending.pools getId with
  | none => exact Mono.const _
  | some getPool =>
    refine Mono.ite (Mono.const _) ?_
    cases s.lending.pools payId with
    | none => exact Mono.const _
    | some payPool =>
      refine Mono.bind (mono_accrueInterest _ _) fun _ => Mono.bind (mono_accrueInterest _ _) fun _ => ?_
      refine Mono.bind (mono_accrueSupplyWithInterest _ _ _ _) fun _ => ?_
      refine Mono.bind (mono_accrueDebtWithInterest _ _ _ _) fun l => Mono.bind (mono_getUserInfo _ _) fun _ => ?_
      refine Mono.bind (Fixed.mono_mulInt _ _) fun _ => Mono.ite (Mono.const _) ?_
      cases l.supplies.records (getId, u) with
      | none => exact Mono.const _
      | some userSupply =>
        refine Mono.bind (mono_payLimit _ _ _ _) fun _ => ?_
        cases l.debts.records (payId, u) with
        | none => exact Mono.const _
        | some userDebt => exact Mono.bind (mono_paidAndSeized _ _ _ _ _ _) fun _ => Mono.const _

theorem mono_liquidate (target : A) (payId getId : AssetId) :
    Mono (fun p => liquidate cfg p s u target payId getId x) := by
  refine Mono.bind (mono_seizure target x s payId getId) fun r => ?_
  cases r with
  | error e => exact Mono.const _
  | ok z =>
    refine Mono.bind (Assets.mono_transfer _ _ _ _ _) fun r => ?_
    cases r with
    | error e => exact Mono.const _
    | ok assets =>
      refine Mono.bind (Assets.mono_transfer _ _ _ _ _) fun r => ?_
      cases r with
      | error e => exact Mono.const _
      | ok assets =>
        exact Mono.bind (mono_updateUserSupply _ _ _ _ _ _) fun _ =>
          Mono.bind (mono_updateUserDebt _ _ _ _ _ _) fun _ => Mono.const _

theorem mono_dispatch (origin : Origin A) (call : Call A) : Mono (fun p => dispatch cfg p s origin call) := by
  cases origin with
  | signed u =>
    cases call with
    | supply a x => exact mono_supply a u x cfg s
    | withdraw a x => exact mono_withdraw a u x cfg s
    | borrow a x => exact mono_borrow a u x cfg s
    | repay a x => exact mono_repay a u x cfg s
    | liquidate target payId getId x => exact mono_liquidate u x cfg s target payId getId
    | initPool id c => exact Mono.const _
  | _ => cases call <;> exact Mono.const _

end Calls
end Lending

/-! ## The runtime -/

theorem mono_dispatch (cfg : Config A) (s : Chain A) (origin : Origin A) (call : Call A) :
    Mono (fun p => dispatch cfg p s origin call) := by
  cases call with
  | assets call => exact Assets.mono_dispatch s origin call
  | swap call => exact Swap.mono_dispatch cfg s origin call
  | lending call => exact Lending.mono_dispatch cfg s origin call

/-- **A step that no operation leaves the range of its type in is the release step.** -/
theorem mono_step (cfg : Config A) (s : Chain A) (action : Action A) : Mono (fun p => step cfg p s action) := by
  cases action with
  | advance block => exact Mono.const _
  | call origin call => exact Mono.map _ (mono_dispatch cfg s origin call)

end Konomi
