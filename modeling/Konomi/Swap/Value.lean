import Konomi.Assets.Ownership
import Konomi.Swap.Backing
import Konomi.Swap.ExactOutput
import Konomi.Swap.Mint
import Konomi.Swap.Redemption

/-!
# What liquidity is worth

A unit of liquidity of the pool of `c` stands for a part of its inherent and of its paired reserve; `shareWorth` is the
product of the two parts. A swap may lower one part, at no less of the other; an injection that costs its price and a
redemption move both in proportion, and round against whoever makes them. The worth therefore never falls in runs in
which swaps are paid and priced by the product, and injections are paid at the price of both reserves
(`liquidity_keeps_worth`).
-/

namespace Konomi.Swap
open Machine Assets Reserves

variable {A : Type} [DecidableEq A]

/-- What a unit of liquidity of the pool of `c` is worth. -/
def shareWorth (cfg : Config A) (s : Chain A) (c : AssetId) : ℚ :=
  worth (reserves cfg s.assets c) (s.swap.totalLiquidities c).toNat

/-- The pool of `c` still has liquidity, and a unit of it is worth no less. -/
structure KeepsWorth (cfg : Config A) (c : AssetId) (s s' : Chain A) : Prop where
  inherent : s'.assets.inherentAsset = s.assets.inherentAsset
  liquid : s'.swap.totalLiquidities c ≠ 0
  worth_le : shareWorth cfg s c ≤ shareWorth cfg s' c

/-- A call of the swap pallet that is fair to the providers of the pool of `c`: a swap pays its input and trades at most
at the quote, an injection into the pool is made at its price, and a redemption leaves some liquidity. The other pools
are free. -/
def FairCall (cfg : Config A) (c : AssetId) (s : Chain A) (u : A) : Call A → Prop
  | .setFeeRate _ => True
  | .swapAssetsWithExactInput v a b x lim =>
      FairSwap cfg s (.call (.signed u) (.swap (.swapAssetsWithExactInput v a b x lim)))
  | .swapAssetsWithExactOutput v a b y lim =>
      ∀ r, routeOf cfg .release s u (.swapAssetsWithExactOutput v a b y lim) = some (.ok r) →
        CoveredInOrder s.assets r.payments ∧ FairOutput cfg s.assets v a b y
  | .addLiquidity a x y lo => a = c →
      (∃ s', _addLiquidity cfg .checked s u a x y lo = some s') ∧
        CoveredInOrder s.assets (deposits cfg s.assets u a x y) ∧ FairShare cfg s u a x y
  | .removeLiquidity a l lo hi => a = c →
      (∃ s', _removeLiquidity cfg .checked s u a l lo hi = some s') ∧ l ≠ s.swap.totalLiquidities a

/-- Later blocks, and calls that no exchange signs: of the assets pallet while the inherent asset stays, of the lending
pallet, and fair ones of the swap pallet. -/
def FairStep (cfg : Config A) (c : AssetId) (s : Chain A) : Action A → Prop
  | .advance _ => True
  | .call origin call => (∀ i j, origin ≠ .signed (cfg.makeExchangeAddress i j)) ∧
      match call with
      | .assets call => BackedAssets s call
      | .swap call => ∀ u, origin = .signed u → FairCall cfg c s u call
      | .lending _ => True

section Steps
variable [Fintype A] {cfg : Config A} {s s' : Chain A} {c : AssetId}

omit [DecidableEq A] [Fintype A] in
theorem keepsWorth_of_product (hL : s.swap.totalLiquidities c ≠ 0) (hswap : s'.swap = s.swap)
    (hinherent : s'.assets.inherentAsset = s.assets.inherentAsset)
    (hproduct : (reserves cfg s.assets c).1 * (reserves cfg s.assets c).2 ≤
      (reserves cfg s'.assets c).1 * (reserves cfg s'.assets c).2) : KeepsWorth cfg c s s' := by
  refine ⟨hinherent, by rwa [hswap], ?_⟩
  unfold shareWorth
  rw [hswap]
  exact worth_le_of_product _ hproduct

omit [DecidableEq A] [Fintype A] in
theorem keepsWorth_of_le (hL : s.swap.totalLiquidities c ≠ 0) (hswap : s'.swap = s.swap)
    (hinherent : s'.assets.inherentAsset = s.assets.inherentAsset)
    (hheld : ∀ id i j, s.assets.holdings id (cfg.makeExchangeAddress i j) ≤
      s'.assets.holdings id (cfg.makeExchangeAddress i j)) : KeepsWorth cfg c s s' := by
  refine keepsWorth_of_product hL hswap hinherent ?_
  unfold reserves
  rw [hinherent]
  exact Nat.mul_le_mul (hheld _ _ _) (hheld _ _ _)

omit [DecidableEq A] [Fintype A] in
theorem issue_fits {origin : Origin A} {call : Assets.Call A} (hcall : BackedAssets s call) :
    s.assets.nextAssetId.toNat + (isIssue (.call origin (.assets call))).toNat < 2 ^ 64 := by
  cases call with
  | issue total =>
    have hfits : s.assets.nextAssetId.toNat + 1 < 2 ^ 64 := hcall
    have hone := Bool.toNat_le (isIssue (.call origin (.assets (.issue total))))
    omega
  | _ => cases origin <;> exact s.assets.nextAssetId.isLt

theorem assets_keepsWorth {origin : Origin A} {call : Assets.Call A} {r : Except DispatchError Unit}
    (hs : Conserved s.assets) (hL : s.swap.totalLiquidities c ≠ 0)
    (hsigner : ∀ i j, origin ≠ .signed (cfg.makeExchangeAddress i j)) (hcall : BackedAssets s call)
    (hd : Assets.dispatch .release s origin call = some (r, s')) : KeepsWorth cfg c s s' := by
  have hheld : ∀ id i j, s.assets.holdings id (cfg.makeExchangeAddress i j) ≤
      s'.assets.holdings id (cfg.makeExchangeAddress i j) := fun id i j =>
    dispatch_holdings_le (fun hm hy => hm.kept hs hy id) hd (hsigner i j)
  obtain ⟨st', hstep, rfl⟩ := Assets.dispatch_cases hd
  refine keepsWorth_of_le hL rfl ?_ hheld
  by_cases hset : ∃ b, call = .setInherentAsset b
  · obtain ⟨b, rfl⟩ := hset
    rcases hcall with hb | hzero
    · cases hstep with
      | unsigned => rfl
      | inherent => exact hb
    · exact absurd (hzero c) hL
  · exact assets_inherent hstep fun b hb => hset ⟨b, hb⟩

theorem lending_keepsWorth {origin : Origin A} {call : Lending.Call A} {r : Except DispatchError Unit}
    (hpallet : ∀ i j, cfg.accountId ≠ cfg.makeExchangeAddress i j) (hs : Conserved s.assets)
    (hL : s.swap.totalLiquidities c ≠ 0) (hsigner : ∀ i j, origin ≠ .signed (cfg.makeExchangeAddress i j))
    (hd : Lending.dispatch cfg .release s origin call = some (r, s')) : KeepsWorth cfg c s s' := by
  obtain ⟨hmoves, hswap, _⟩ := Lending.lending_moves hd
  obtain ⟨balances, hframe⟩ := hmoves.frame
  refine keepsWorth_of_le hL hswap (by rw [hframe]) fun id i j => hmoves.kept hs ?_ id
  rintro (ho | ho)
  · exact hsigner i j ho
  · exact hpallet i j ho.symm

variable {u : A} {a : AssetId} {x y l lo hi : Balance}

omit [Fintype A] in
theorem others_keepWorth {ts : List (Payment A)} {done : List Bool} {st' : Assets A} {sw : Swap A}
    (hL : s.swap.totalLiquidities c ≠ 0) (hpay : pay .checked s.assets ts = some (done, st'))
    (hpayer : ∀ t ∈ ts, t.payer ≠ getExchangeAddress cfg s.assets.inherentAsset c)
    (htotal : sw.totalLiquidities c = s.swap.totalLiquidities c) :
    KeepsWorth cfg c s { s with assets := st', swap := sw } := by
  refine ⟨pay_inherent hpay, by rwa [← htotal] at hL, ?_⟩
  unfold shareWorth
  dsimp only
  rw [htotal]
  exact worth_le_of_product _ (others_unspent hpay hpayer).product

omit [Fintype A] in
theorem injection_keepsWorth (hu : ∀ i j, u ≠ cfg.makeExchangeAddress i j) (hc : c ≠ s.assets.inherentAsset)
    (hL : s.swap.totalLiquidities c ≠ 0) (hadd : _addLiquidity cfg .checked s u c x y lo = some s')
    (hpaid : CoveredInOrder s.assets (deposits cfg s.assets u c x y)) (hfair : FairShare cfg s u c x y) :
    KeepsWorth cfg c s s' := by
  obtain ⟨m, d⟩ := addLiquidity_injection hL hadd hpaid
  obtain ⟨_, hprice⟩ := hfair
  rw [if_neg hc, ← d.minted] at hprice
  obtain ⟨hI, hP⟩ := d.reserves_pair (hu _ _) hc
  have hpos : 0 < (s.swap.totalLiquidities c).toNat := by bv_omega
  have htotal := d.total
  refine ⟨d.inherent, fun h0 => ?_, ?_⟩
  · rw [h0] at htotal
    simp at htotal
    omega
  · apply worth_le_of_sides hpos (by omega)
    · change (inherentReserve cfg s.assets c).toNat * _ ≤ (inherentReserve cfg s'.assets c).toNat * _
      rw [hI, htotal]
      exact shares_kept_iff.mpr d.price
    · change (pairedReserve cfg s.assets c).toNat * _ ≤ (pairedReserve cfg s'.assets c).toNat * _
      rw [hP, htotal]
      exact shares_kept_iff.mpr hprice

omit [Fintype A] in
theorem redemption_keepsWorth (hu : ∀ i j, u ≠ cfg.makeExchangeAddress i j) (hc : c ≠ s.assets.inherentAsset)
    (hremove : _removeLiquidity cfg .checked s u c l lo hi = some s') (hl : l ≠ s.swap.totalLiquidities c) :
    KeepsWorth cfg c s s' := by
  obtain ⟨y, z, d⟩ := removeLiquidity_redemption hremove
  have hkept := d.fair_pair (hu _ _) hc
  obtain ⟨_, _, _, _, _, total, _, _, _, _, htotal, rfl⟩ := removeLiquidity_cases hremove
  have hsum := toNat_sub rfl htotal
  have hleft : (Function.update s.swap.totalLiquidities c total c).toNat = total.toNat := by rw [Function.update_self]
  have hne : l.toNat ≠ (s.swap.totalLiquidities c).toNat := fun he => hl (BitVec.eq_of_toNat_eq he)
  have howned := d.owned
  refine ⟨d.inherent, fun h0 => ?_, ?_⟩
  · change Function.update s.swap.totalLiquidities c total c = 0 at h0
    rw [h0] at hleft
    simp at hleft
    omega
  · have hdiff : total.toNat = (s.swap.totalLiquidities c).toNat - l.toNat := by omega
    apply worth_le_of_sides d.pos
    · change 0 < (Function.update s.swap.totalLiquidities c total c).toNat
      omega
    · change _ * (Function.update s.swap.totalLiquidities c total c).toNat ≤ _
      rw [hleft, hdiff]
      exact hkept.inherent_kept
    · change _ * (Function.update s.swap.totalLiquidities c total c).toNat ≤ _
      rw [hleft, hdiff]
      exact hkept.paired_kept

theorem swap_keepsWorth {origin : Origin A} {call : Call A} {r : Except DispatchError Unit}
    (hinj : Function.Injective2 cfg.makeExchangeAddress) (hs : Conserved s.assets) (hc : c ≠ s.assets.inherentAsset)
    (hL : s.swap.totalLiquidities c ≠ 0) (hsigner : ∀ i j, origin ≠ .signed (cfg.makeExchangeAddress i j))
    (hcall : ∀ u, origin = .signed u → FairCall cfg c s u call)
    (hd : dispatch cfg .release s origin call = some (r, s')) : KeepsWorth cfg c s s' := by
  have hu : ∀ {u}, origin = .signed u → ∀ i j, u ≠ cfg.makeExchangeAddress i j := by
    intro u ho i j he
    exact hsigner i j (by rw [ho, he])
  cases dispatch_cases hd with
  | refused => exact ⟨rfl, hL, le_rfl⟩
  | feeRate => exact ⟨rfl, hL, le_rfl⟩
  | @swapped u call route done st' hroute hpay =>
    refine keepsWorth_of_product hL rfl (pay_inherent hpay) ?_
    have hfair := hcall u rfl
    cases call with
    | swapAssetsWithExactInput v a b x lim =>
      obtain ⟨hx, hcross⟩ := hfair.2 route hroute
      exact (exactInput_unspent hinj (hu rfl) hs hroute hx hcross hpay c).product
    | swapAssetsWithExactOutput v a b y lim =>
      obtain ⟨hcovered, hout⟩ := hfair route hroute
      exact (exactOutput_product_iff hinj (hu rfl) hs hroute hpay ((pay_all_iff hpay).mpr hcovered)).mpr hout c
    | _ => cases hroute
  | @injected u a x y lo s' hadd =>
    by_cases hca : a = c
    · subst hca
      obtain ⟨⟨s₁, hchecked⟩, hpaid, hshare⟩ := hcall u rfl rfl
      cases hadd.symm.trans (mono_addLiquidity cfg s u a x y lo Profile.checked_le_release hchecked)
      exact injection_keepsWorth (hu rfl) hc hL hchecked hpaid hshare
    · obtain ⟨done, st', m, share, total, hpay, _, _, rfl⟩ := addLiquidity_cases hadd
      refine others_keepWorth hL (pay_checked hs hpay) ?_ (Function.update_of_ne (Ne.symm hca) _ _)
      simp only [deposits, List.forall_mem_cons, List.not_mem_nil, false_implies, implies_true, and_true]
      exact ⟨hu rfl _ _, hu rfl _ _⟩
  | @redeemed u a l lo hi s' hremove =>
    by_cases hca : a = c
    · subst hca
      obtain ⟨⟨s₁, hchecked⟩, hl⟩ := hcall u rfl rfl
      cases hremove.symm.trans (mono_removeLiquidity cfg s u a l lo hi Profile.checked_le_release hchecked)
      exact redemption_keepsWorth (hu rfl) hc hchecked hl
    · obtain ⟨y, z, done, st', left, total, _, _, hpay, _, _, rfl⟩ := removeLiquidity_cases hremove
      refine others_keepWorth hL (pay_checked hs hpay) ?_ (Function.update_of_ne (Ne.symm hca) _ _)
      simp only [payouts, List.forall_mem_cons, List.not_mem_nil, false_implies, implies_true, and_true]
      exact ⟨exchange_ne hinj hca, exchange_ne hinj hca⟩

theorem step_keepsWorth {act : Action A} (hinj : Function.Injective2 cfg.makeExchangeAddress)
    (hpallet : ∀ i j, cfg.accountId ≠ cfg.makeExchangeAddress i j) (hs : Conserved s.assets)
    (hc : c ≠ s.assets.inherentAsset) (hL : s.swap.totalLiquidities c ≠ 0) (hact : FairStep cfg c s act)
    (hstep : step cfg .release s act = some s') : Conserved s'.assets ∧ KeepsWorth cfg c s s' := by
  cases act with
  | advance block =>
    obtain ⟨_, rfl⟩ := step_advance hstep
    exact ⟨hs, rfl, hL, le_rfl⟩
  | call origin call =>
    obtain ⟨⟨r, t⟩, hd, rfl⟩ := Option.map_eq_some_iff.mp hstep
    obtain ⟨hsigner, hcall⟩ := hact
    cases call with
    | assets call =>
      refine ⟨(dispatch_conserved hs ?_ hd).1, assets_keepsWorth hs hL hsigner hcall hd⟩
      exact issue_fits hcall
    | swap call => exact ⟨(swap_moves hd).1.conserved hs, swap_keepsWorth hinj hs hc hL hsigner hcall hd⟩
    | lending call =>
      exact ⟨(Lending.lending_moves hd).1.conserved hs, lending_keepsWorth hpallet hs hL hsigner hd⟩

/-- **Liquidity keeps its worth.** From any reachable state, in any run of fair actions of any accounts but the
exchanges, the pool of `c` keeps liquidity, and between any two points of the run the product of what a unit of it
stands for in the one reserve and in the other does not fall. -/
theorem liquidity_keeps_worth {t₁ t₂ : Chain A} (hinj : Function.Injective2 cfg.makeExchangeAddress)
    (hpallet : ∀ i j, cfg.accountId ≠ cfg.makeExchangeAddress i j) (hs : Reachable cfg s)
    (hc : c ≠ s.assets.inherentAsset) (hL : s.swap.totalLiquidities c ≠ 0)
    (h₁ : Run (step cfg .release) (FairStep cfg c) s t₁) (h₂ : Run (step cfg .release) (FairStep cfg c) t₁ t₂) :
    t₂.swap.totalLiquidities c ≠ 0 ∧ shareWorth cfg t₁ c ≤ shareWorth cfg t₂ c := by
  have hkeeps : ∀ {s t : Chain A}, Conserved s.assets → c ≠ s.assets.inherentAsset → s.swap.totalLiquidities c ≠ 0 →
      Run (step cfg .release) (FairStep cfg c) s t → Conserved t.assets ∧ KeepsWorth cfg c s t := by
    intro s t hs hc hL hrun
    refine hrun.invariant (I := fun t => Conserved t.assets ∧ KeepsWorth cfg c s t) ⟨hs, rfl, hL, le_rfl⟩ ?_
    rintro t act t' ⟨hcons, hkept⟩ hact hstep
    obtain ⟨hcons', hkept'⟩ :=
      step_keepsWorth hinj hpallet hcons (by rwa [hkept.inherent]) hkept.liquid hact hstep
    exact ⟨hcons', hkept'.inherent.trans hkept.inherent, hkept'.liquid, hkept.worth_le.trans hkept'.worth_le⟩
  obtain ⟨hcons, hfirst⟩ := hkeeps hs.conserved hc hL h₁
  obtain ⟨_, hsecond⟩ := hkeeps hcons (by rwa [hfirst.inherent]) hfirst.liquid h₂
  exact ⟨hsecond.liquid, hsecond.worth_le⟩

end Steps

/-- To a pool of 1000 against 1000 user `2` pays 333 of the inherent asset for 249 of asset `1`; user `1` doubles the
pool and redeems a quarter. What a unit is worth grows by what the swap was rounded. -/
theorem liquidity_keeps_worth_pair : ∃ s t, Reachable pairConfig s ∧
    Run (step pairConfig .release) (FairStep pairConfig 1) s t ∧
    reserves pairConfig s.assets 1 = (1000, 1000) ∧ s.swap.totalLiquidities 1 = 1000 ∧
    reserves pairConfig t.assets 1 = (2000, 1127) ∧ t.swap.totalLiquidities 1 = 1500 ∧
    shareWorth pairConfig s 1 ≤ shareWorth pairConfig t 1 := by
  have hplay : ∃ s s₁ s₂ t, play pairConfig .release pairGenesis (List.flatMap Block.actions
        [⟨1, [(.signed (.inl 1), .swap (.addLiquidity 1 1000 1000 0))], by decide⟩]) = some s ∧
      step pairConfig .release s
        (.call (.signed (.inl 2)) (.swap (.swapAssetsWithExactInput (.inl 2) 0 1 333 0))) = some s₁ ∧
      step pairConfig .release s₁ (.call (.signed (.inl 1)) (.swap (.addLiquidity 1 1333 751 0))) = some s₂ ∧
      step pairConfig .release s₂ (.call (.signed (.inl 1)) (.swap (.removeLiquidity 1 500 0 0))) = some t ∧
      s.assets.Covered (.inl 2) 0 333 ∧
      ((_addLiquidity pairConfig .checked s₁ (.inl 1) 1 1333 751 0).isSome ∧
        CoveredInOrder s₁.assets (deposits pairConfig s₁.assets (.inl 1) 1 1333 751) ∧
        FairShare pairConfig s₁ (.inl 1) 1 1333 751) ∧
      ((_removeLiquidity pairConfig .checked s₂ (.inl 1) 1 500 0 0).isSome ∧ s₂.swap.totalLiquidities 1 = 2000) ∧
      (1 ≠ s.assets.inherentAsset ∧ s.swap.totalLiquidities 1 = 1000 ∧
        reserves pairConfig s.assets 1 = (1000, 1000)) ∧
      t.swap.totalLiquidities 1 = 1500 ∧ reserves pairConfig t.assets 1 = (2000, 1127) := by
    refine ⟨_, _, _, _, rfl, rfl, rfl, rfl, by decide, ⟨rfl, ⟨by decide, ?_⟩, ?_⟩, ⟨rfl, by decide⟩,
      ⟨by decide, by decide, by decide⟩, by decide, by decide⟩
    · rintro st₁ ⟨⟩
      exact ⟨by decide, fun _ _ => trivial⟩
    · exact ⟨Or.inl (pairConfig_user 1 0 1), by decide⟩
  obtain ⟨s, s₁, s₂, t, hs, hswap, hadd, hremove, hpaid, ⟨hchecked, hshare⟩, ⟨hredeems, hpart⟩,
    ⟨hpair, hL, hreserves⟩, hleft, hafter⟩ := hplay
  have hsigner : ∀ k i j, Origin.signed (.inl k) ≠ .signed (pairConfig.makeExchangeAddress i j) :=
    fun k i j he => pairConfig_user k i j (Origin.signed.inj he)
  have hswap_ok : FairStep pairConfig 1 s
      (.call (.signed (.inl 2)) (.swap (.swapAssetsWithExactInput (.inl 2) 0 1 333 0))) := by
    refine ⟨hsigner 2, ?_⟩
    rintro u ⟨⟩
    exact ⟨pairConfig_user 2, fun r _ => ⟨hpaid, fun h => absurd h (by decide)⟩⟩
  have hadd_ok : FairStep pairConfig 1 s₁ (.call (.signed (.inl 1)) (.swap (.addLiquidity 1 1333 751 0))) := by
    refine ⟨hsigner 1, ?_⟩
    rintro u ⟨⟩ _
    exact ⟨Option.isSome_iff_exists.mp hchecked, hshare⟩
  have hremove_ok : FairStep pairConfig 1 s₂ (.call (.signed (.inl 1)) (.swap (.removeLiquidity 1 500 0 0))) := by
    refine ⟨hsigner 1, ?_⟩
    rintro u ⟨⟩ _
    exact ⟨Option.isSome_iff_exists.mp hredeems, by rw [hpart]; decide⟩
  have hrun := ((Run.refl.tail hswap_ok hswap).tail hadd_ok hadd).tail hremove_ok hremove
  have hreach : Reachable pairConfig s := ⟨pairGenesis, _, by decide, hs⟩
  exact ⟨s, t, hreach, hrun, hreserves, hL, hafter, hleft,
    (liquidity_keeps_worth pairConfig_injective (pairConfig_user 0) hreach hpair (by rw [hL]; decide) Run.refl
      hrun).2⟩

end Konomi.Swap
