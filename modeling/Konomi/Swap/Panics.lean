import Konomi.Swap.Limits

/-!
# Which calls of the exchange panic

In the release build sums, differences and products wrap, and what panics is a division by zero. The price of an exact
input divides by the sum of the input and a reserve, which is zero if they add up to `2 ^ 128`. Every further injection
divides by the reserve of the inherent asset, and every removal by the total liquidity. Nothing else of the swap pallet
panics, and nothing of the assets pallet (`panics_iff`).
-/

namespace Konomi.Swap
open Machine

variable {A : Type} {i o x y k m : Balance} {f : BitVec 64}

/-- A pool that is not empty prices an input that wraps its reserve to zero. -/
def Overruns (i o x : Balance) : Prop := i ≠ 0 ∧ o ≠ 0 ∧ x + i = 0

/-! ## Prices -/

theorem calcOutput_none_iff (i o x : Balance) (f : BitVec 64) :
    calcOutputAtKnownInput .release x i o f = none ↔ Overruns i o x := by
  unfold calcOutputAtKnownInput
  by_cases hempty : i = 0 ∨ o = 0
  · rw [if_pos hempty]
    apply iff_of_false (by simp)
    rintro ⟨hi, ho, _⟩
    exact hempty.elim hi ho
  · obtain ⟨hi, ho⟩ := not_or.mp hempty
    rw [if_neg hempty, add_release, mul_release]
    show (Machine.div (o * x) (x + i) >>= fun out => some (Except.ok out)) = none ↔ _
    by_cases hsum : x + i = 0
    · rw [Machine.div, if_pos hsum]
      exact iff_of_true rfl ⟨hi, ho, hsum⟩
    · rw [Machine.div, if_neg hsum]
      exact iff_of_false (by simp) fun h => hsum h.2.2

/-- The price of an exact output divides by what it leaves of the reserve, which is not zero. -/
theorem calcInput_returns (x i o : Balance) (f : BitVec 64) : ∃ r, calcInputAtKnownOutput .release x i o f = some r := by
  unfold calcInputAtKnownOutput
  split
  · exact ⟨_, rfl⟩
  split
  · exact ⟨_, rfl⟩
  rename_i hle
  have hleft : o - x ≠ 0 := by
    intro hzero
    apply hle
    have hlt : x.toNat < o.toNat := by
      have h := BitVec.not_le.mp hle
      exact BitVec.lt_def.mp h
    have hvalue : (o - x).toNat = o.toNat - x.toNat := BitVec.toNat_sub_of_le (BitVec.le_def.mpr hlt.le)
    rw [hzero] at hvalue
    simp at hvalue
    omega
  rw [sub_release, mul_release]
  show ∃ r, (Machine.div (i * x) (o - x) >>= fun _ => some (Except.ok x)) = some r
  rw [Machine.div, if_neg hleft]
  exact ⟨_, rfl⟩

/-! ## Routes -/

section Routes
variable {cfg : Config A} {st : Assets A} {u v : A} {a b : AssetId}

/-- An input of `x` of `a` that overruns a pool on the way to `b`. -/
def RouteOverruns (cfg : Config A) (st : Assets A) (a b : AssetId) (x : Balance) : Prop :=
  if a = st.inherentAsset then Overruns (inherentReserve cfg st b) (pairedReserve cfg st b) x
  else Overruns (pairedReserve cfg st a) (inherentReserve cfg st a) x ∨
    b ≠ st.inherentAsset ∧ Sellable (pairedReserve cfg st a) (inherentReserve cfg st a) x ∧
      Overruns (inherentReserve cfg st b) (pairedReserve cfg st b)
        (sold (pairedReserve cfg st a) (inherentReserve cfg st a) x)

theorem exactInput_none_iff :
    routeWithExactInput cfg .release st u v a b x k f = none ↔ RouteOverruns cfg st a b x := by
  have hback : calcInherentAssetOutputAmount cfg .release st a x f = none ↔
      Overruns (pairedReserve cfg st a) (inherentReserve cfg st a) x := calcOutput_none_iff _ _ _ f
  have hpaired : ∀ z, calcPairedAssetOutputAmount cfg .release st b z f = none ↔
      Overruns (inherentReserve cfg st b) (pairedReserve cfg st b) z := fun z => calcOutput_none_iff _ _ _ f
  unfold routeWithExactInput RouteOverruns
  by_cases ha : a = st.inherentAsset
  · rw [if_pos ha, if_pos ha, ← hpaired]
    unfold inherentAssetToPairedAssetWithExactInput
    rcases calcPairedAssetOutputAmount cfg .release st b x f with - | - | out <;> simp
  · rw [if_neg ha, if_neg ha, ← hback]
    by_cases hb : b = st.inherentAsset
    · rw [if_pos hb]
      unfold pairedAssetToInherentAssetWithExactInput
      rcases calcInherentAssetOutputAmount cfg .release st a x f with - | - | out <;> simp [hb]
    · rw [if_neg hb]
      unfold assetAToAssetBWithExactInput
      cases hm : calcInherentAssetOutputAmount cfg .release st a x f with
      | none => simp
      | some r =>
        cases r with
        | error e =>
          have hnot : ¬ Sellable (pairedReserve cfg st a) (inherentReserve cfg st a) x := by
            intro hsell
            have hok := calcInherent_release_iff (f := f).mpr ⟨hsell, rfl⟩
            rw [hm] at hok
            cases hok
          simp [hnot]
        | ok m =>
          obtain ⟨hsell, rfl⟩ := calcInherent_release_iff.mp hm
          rw [← hpaired]
          simp only [Option.bind_eq_bind, Option.bind_some]
          rcases calcPairedAssetOutputAmount cfg .release st b _ f with - | - | out <;> simp [hb, hsell]

theorem exactOutput_returns (cfg : Config A) (st : Assets A) (u v : A) (a b : AssetId) (x k : Balance) (f : BitVec 64) :
    ∃ r, routeWithExactOutput cfg .release st u v a b x k f = some r := by
  have hinherent : ∀ c z, ∃ r, calcInherentAssetInputAmount cfg .release st c z f = some r :=
    fun c z => calcInput_returns z _ _ f
  have hpaired : ∀ c z, ∃ r, calcPairedAssetInputAmount cfg .release st c z f = some r :=
    fun c z => calcInput_returns z _ _ f
  unfold routeWithExactOutput
  split
  · obtain ⟨r, hr⟩ := hinherent b x
    unfold inherentAssetToPairedAssetWithExactOutput
    cases r <;> simp [hr]
  split
  · obtain ⟨r, hr⟩ := hpaired a x
    unfold pairedAssetToInherentAssetWithExactOutput
    cases r <;> simp [hr]
  · obtain ⟨r, hr⟩ := hinherent b x
    unfold assetAToAssetBWithExactOutput
    cases r with
    | error e => simp [hr]
    | ok input =>
      obtain ⟨r', hr'⟩ := hpaired a input
      cases r' <;> simp [hr, hr']

end Routes

/-! ## Calls -/

section Calls
variable [DecidableEq A] {cfg : Config A} {s : Chain A} {u : A} {a : AssetId}

theorem runRoute_none_iff {route : Option (Except String (Route A))} :
    runRoute .release s route = none ↔ route = none := by
  unfold runRoute
  cases route with
  | none => simp
  | some r =>
    cases r with
    | error e => simp
    | ok r =>
      obtain ⟨q, hq⟩ := pay_release r.payments s.assets
      simp [hq]

omit [DecidableEq A] in
theorem completed_none_iff {r : Option (Chain A)} :
    (r >>= fun s' => (some (Except.ok (), s') : Option (Outcome A))) = none ↔ r = none := by
  cases r <;> simp

theorem addLiquidity_none_iff : _addLiquidity cfg .release s u a x y k = none ↔
    getTotalLiquidity s.swap a ≠ 0 ∧ inherentReserve cfg s.assets a = 0 := by
  obtain ⟨q, hq⟩ := pay_release [⟨u, s.assets.inherentAsset, getExchangeAddress cfg s.assets.inherentAsset a, x⟩,
    ⟨u, a, getExchangeAddress cfg s.assets.inherentAsset a, y⟩] s.assets
  unfold _addLiquidity inject
  by_cases htotal : getTotalLiquidity s.swap a = 0
  · apply iff_of_false _ fun h => h.1 htotal
    simp only [if_pos htotal, hq, increaseTotalLiquidity, add_release, Option.bind_eq_bind, Option.bind_some]
    simp
  · by_cases hreserve : s.assets.balance s.assets.inherentAsset (getExchangeAddress cfg s.assets.inherentAsset a) = 0
    · apply iff_of_true _ ⟨htotal, hreserve⟩
      simp only [if_neg htotal, hq, mul_release, Machine.div, if_pos hreserve, Option.bind_eq_bind, Option.bind_some,
        Option.bind_none]
    · apply iff_of_false _ fun h => hreserve h.2
      simp only [if_neg htotal, hq, mul_release, add_release, Machine.div, if_neg hreserve, increaseTotalLiquidity,
        Option.bind_eq_bind, Option.bind_some]
      simp

theorem removeLiquidity_none_iff : _removeLiquidity cfg .release s u a x y k = none ↔ getTotalLiquidity s.swap a = 0 := by
  unfold _removeLiquidity
  by_cases htotal : getTotalLiquidity s.swap a = 0
  · apply iff_of_true _ htotal
    simp only [mul_release, Machine.div, if_pos htotal, Option.bind_eq_bind, Option.bind_some, Option.bind_none]
  · apply iff_of_false _ htotal
    obtain ⟨q, hq⟩ := pay_release [⟨getExchangeAddress cfg s.assets.inherentAsset a, s.assets.inherentAsset, u,
        s.assets.balance s.assets.inherentAsset (getExchangeAddress cfg s.assets.inherentAsset a) * x /
          getTotalLiquidity s.swap a⟩,
      ⟨getExchangeAddress cfg s.assets.inherentAsset a, a, u,
        s.assets.balance a (getExchangeAddress cfg s.assets.inherentAsset a) * x / getTotalLiquidity s.swap a⟩] s.assets
    simp only [mul_release, sub_release, Machine.div, if_neg htotal, hq, decreaseTotalLiquidity, Option.bind_eq_bind,
      Option.bind_some]
    simp

/-- When a signed call of the swap pallet panics. -/
def Panics (cfg : Config A) (s : Chain A) : Call A → Prop
  | .swapAssetsWithExactInput _ assetInput assetOutput inputAmount _ =>
      RouteOverruns cfg s.assets assetInput assetOutput inputAmount
  | .addLiquidity assetId _ _ _ => getTotalLiquidity s.swap assetId ≠ 0 ∧ inherentReserve cfg s.assets assetId = 0
  | .removeLiquidity assetId _ _ _ => getTotalLiquidity s.swap assetId = 0
  | .setFeeRate _ => False
  | .swapAssetsWithExactOutput _ _ _ _ _ => False

theorem assets_return (s : Chain A) (origin : Origin A) (call : Assets.Call A) :
    ∃ o, Assets.dispatch .release s origin call = some o := by
  cases call with
  | setInherentAsset asset => exact ⟨_, rfl⟩
  | setPrice id price => cases origin <;> exact ⟨_, rfl⟩
  | issue total =>
    cases origin with
    | signed u => simp [Assets.dispatch, ensureSigned, Assets.issue, add_release]
    | _ => exact ⟨_, rfl⟩
  | destroy id =>
    cases origin with
    | signed u =>
      unfold Assets.dispatch ensureSigned Assets.destroy
      dsimp only
      split <;> simp [sub_release]
    | _ => exact ⟨_, rfl⟩
  | transferAsset id v x =>
    cases origin with
    | signed u =>
      obtain ⟨r, hr⟩ := make_release s.assets ⟨u, id, v, x⟩
      change s.assets.transfer .release u id v x = some r at hr
      cases r <;> simp [Assets.dispatch, ensureSigned, Assets.transferDropped, hr]
    | _ => exact ⟨_, rfl⟩

/-- **Which calls of the exchange panic.** In every state, in the release build: no call of the assets pallet, and of
the swap pallet the signed calls that `Panics` names. -/
theorem panics_iff (cfg : Config A) (s : Chain A) (origin : Origin A) :
    (∀ call, ∃ o, Assets.dispatch .release s origin call = some o) ∧
    ∀ call, dispatch cfg .release s origin call = none ↔ (∃ u, origin = .signed u) ∧ Panics cfg s call := by
  refine ⟨assets_return s origin, fun call => ?_⟩
  cases call with
  | setFeeRate rate => exact iff_of_false (by simp [dispatch]) fun h => h.2
  | swapAssetsWithExactInput v a b x k =>
    cases origin with
    | signed u =>
      show runRoute .release s (routeWithExactInput cfg .release s.assets u v a b x k s.swap.feeRateGlobal) = none ↔ _
      rw [runRoute_none_iff, exactInput_none_iff]
      exact ⟨fun h => ⟨⟨u, rfl⟩, h⟩, fun h => h.2⟩
    | _ => simp [dispatch, ensureSigned]
  | swapAssetsWithExactOutput v a b x k =>
    cases origin with
    | signed u =>
      obtain ⟨r, hr⟩ := exactOutput_returns cfg s.assets u v a b x k s.swap.feeRateGlobal
      apply iff_of_false _ fun h => h.2
      show ¬ runRoute .release s (routeWithExactOutput cfg .release s.assets u v a b x k s.swap.feeRateGlobal) = none
      rw [runRoute_none_iff, hr]
      simp
    | _ => simp [dispatch, ensureSigned]
  | addLiquidity a x y k =>
    cases origin with
    | signed u =>
      show (_addLiquidity cfg .release s u a x y k >>= fun s' => some (Except.ok (), s')) = none ↔ _
      rw [completed_none_iff, addLiquidity_none_iff]
      exact ⟨fun h => ⟨⟨u, rfl⟩, h⟩, fun h => h.2⟩
    | _ => simp [dispatch, ensureSigned]
  | removeLiquidity a x y k =>
    cases origin with
    | signed u =>
      show (_removeLiquidity cfg .release s u a x y k >>= fun s' => some (Except.ok (), s')) = none ↔ _
      rw [completed_none_iff, removeLiquidity_none_iff]
      exact ⟨fun h => ⟨⟨u, rfl⟩, h⟩, fun h => h.2⟩
    | _ => simp [dispatch, ensureSigned]

end Calls
end Konomi.Swap
