import Konomi.Blocks

/-!
# The quote

`calculate_output` splits the cases of `swap_assets_with_exact_input` again, and splits them in two instead of three: it
prices every input other than the inherent asset in the pool of `out_id`, as if `out_id` were paid in. It agrees with
the swap when the inherent asset is paid in, and otherwise only where the two prices happen to be the same
(`quoted_iff`).
-/

namespace Konomi.Swap
open Machine Assets

variable {A : Type}

/-! ## Prices of the release build -/

/-- An input has a price: no reserve is empty, and the sum it is divided by has not wrapped to zero. -/
def Sellable (i o x : Balance) : Prop := i ≠ 0 ∧ o ≠ 0 ∧ x + i ≠ 0

/-- What an input of `x` is sold for, in the arithmetic of the release build. -/
def sold (i o x : Balance) : Balance := o * x / (x + i)

section Prices
variable {i o x m : Balance} {f : BitVec 64}

theorem calcOutput_release_iff :
    calcOutputAtKnownInput .release x i o f = some (.ok m) ↔ Sellable i o x ∧ m = sold i o x := by
  constructor
  · intro h
    obtain ⟨hi, ho, hsum, hm⟩ := calcOutput_eq h
    exact ⟨⟨hi, ho, hsum⟩, hm⟩
  · rintro ⟨⟨hi, ho, hsum⟩, rfl⟩
    unfold calcOutputAtKnownInput
    rw [if_neg (not_or.mpr ⟨hi, ho⟩), add_release, mul_release]
    simp only [Option.bind_eq_bind, Option.bind_some, Machine.div, if_neg hsum, sold]

end Prices

section Routes
variable {cfg : Config A} {st : Assets A} {u v : A} {a b : AssetId} {x y m lim : Balance} {fee : BitVec 64}

theorem calcPaired_release_iff {f : BitVec 64} :
    calcPairedAssetOutputAmount cfg .release st b x f = some (.ok y) ↔
    Sellable (inherentReserve cfg st b) (pairedReserve cfg st b) x ∧
      y = sold (inherentReserve cfg st b) (pairedReserve cfg st b) x :=
  calcOutput_release_iff (f := f)

theorem calcInherent_release_iff {f : BitVec 64} :
    calcInherentAssetOutputAmount cfg .release st a x f = some (.ok y) ↔
    Sellable (pairedReserve cfg st a) (inherentReserve cfg st a) x ∧
      y = sold (pairedReserve cfg st a) (inherentReserve cfg st a) x :=
  calcOutput_release_iff (f := f)

/-- `y` is the amount that an exact-input swap of `x` from `a` to `b` pays out. -/
def OutputPrice (cfg : Config A) (st : Assets A) (a b : AssetId) (x y : Balance) : Prop :=
  if a = st.inherentAsset then
    Sellable (inherentReserve cfg st b) (pairedReserve cfg st b) x ∧
      y = sold (inherentReserve cfg st b) (pairedReserve cfg st b) x
  else
    Sellable (pairedReserve cfg st a) (inherentReserve cfg st a) x ∧
      let m := sold (pairedReserve cfg st a) (inherentReserve cfg st a) x
      if b = st.inherentAsset then y = m
      else Sellable (inherentReserve cfg st b) (pairedReserve cfg st b) m ∧
        y = sold (inherentReserve cfg st b) (pairedReserve cfg st b) m

/-- **The amount of an exact-input swap.** -/
theorem exactInput_amount_iff {k : Balance} {f : BitVec 64} :
    (∃ r, routeWithExactInput cfg .release st u v a b x k f = some (.ok r) ∧ r.amount = y) ↔
      OutputPrice cfg st a b x y := by
  unfold OutputPrice
  constructor
  · rintro ⟨r, hr, rfl⟩
    rcases exactInput_cases hr with ⟨ha, y, hy, rfl⟩ | ⟨ha, hb, y, hy, rfl⟩ | ⟨ha, hb, m, y, hm, hy, rfl⟩
    · rw [if_pos ha]
      exact calcPaired_release_iff.mp hy
    · rw [if_neg ha, if_pos hb]
      exact calcInherent_release_iff.mp hy
    · obtain ⟨hsell, rfl⟩ := calcInherent_release_iff.mp hm
      rw [if_neg ha, if_neg hb]
      exact ⟨hsell, calcPaired_release_iff.mp hy⟩
  · intro h
    unfold routeWithExactInput
    split at h
    · rename_i ha
      rw [if_pos ha]
      exact ⟨_, Option.bind_eq_some_iff.mpr ⟨_, calcPaired_release_iff.mpr h, rfl⟩, rfl⟩
    · rename_i ha
      rw [if_neg ha]
      obtain ⟨hsell, h⟩ := h
      have hm := calcInherent_release_iff (f := f).mpr ⟨hsell, rfl⟩
      split at h
      · rename_i hb
        rw [if_pos hb]
        exact ⟨_, Option.bind_eq_some_iff.mpr ⟨_, hm, rfl⟩, h.symm⟩
      · rename_i hb
        rw [if_neg hb]
        have hy := calcPaired_release_iff (f := f).mpr h
        exact ⟨_, Option.bind_eq_some_iff.mpr ⟨_, hm, Option.bind_eq_some_iff.mpr ⟨_, hy, rfl⟩⟩, rfl⟩

/-- The last transfer of an exact-input swap pays its amount, in the output asset, to the output account. -/
theorem exactInput_last {p : Profile} {r : Route A}
    (h : routeWithExactInput cfg p st u v a b x lim fee = some (.ok r)) :
    ∃ e, r.payments.getLast? = some ⟨e, b, v, r.amount⟩ := by
  rcases exactInput_cases h with ⟨_, y, _, rfl⟩ | ⟨_, hb, y, _, rfl⟩ | ⟨_, _, m, y, _, _, rfl⟩
  · exact ⟨_, rfl⟩
  · subst hb
    exact ⟨_, rfl⟩
  · exact ⟨_, rfl⟩

end Routes

/-! ## Quote and swap -/

section Quote

/-- What a quote promises: where the swap is priced, the quote does not panic and is the amount that the swap computes
and that its last transfer pays to the output account. -/
def Quoted (cfg : Config A) (s : Chain A) (inId outId : AssetId) (amount : Balance) : Prop :=
  ∀ u v lim r, routeOf cfg .release s u (.swapAssetsWithExactInput v inId outId amount lim) = some (.ok r) →
    ∃ e, r.payments.getLast? = some ⟨e, outId, v, r.amount⟩ ∧
      calculateOutput cfg .release s inId outId amount = some r.amount

/-- When quote and swap agree: the inherent asset is paid in, or what the pool of `out_id` would give for an input of
`out_id` is what the swap pays out. -/
def QuoteAgrees (cfg : Config A) (st : Assets A) (inId outId : AssetId) (x : Balance) : Prop :=
  inId = st.inherentAsset ∨ ∀ y, OutputPrice cfg st inId outId x y →
    Sellable (pairedReserve cfg st outId) (inherentReserve cfg st outId) x ∧
      sold (pairedReserve cfg st outId) (inherentReserve cfg st outId) x = y

variable {cfg : Config A} {s : Chain A} {inId outId : AssetId} {x y : Balance}

theorem calculateOutput_iff : calculateOutput cfg .release s inId outId x = some y ↔
    if inId = s.assets.inherentAsset then
      Sellable (inherentReserve cfg s.assets outId) (pairedReserve cfg s.assets outId) x ∧
        y = sold (inherentReserve cfg s.assets outId) (pairedReserve cfg s.assets outId) x
    else
      Sellable (pairedReserve cfg s.assets outId) (inherentReserve cfg s.assets outId) x ∧
        y = sold (pairedReserve cfg s.assets outId) (inherentReserve cfg s.assets outId) x := by
  have hunwrap : calculateOutput cfg .release s inId outId x = some y ↔
      (if inId = s.assets.inherentAsset then
        calcPairedAssetOutputAmount cfg .release s.assets outId x s.swap.feeRateGlobal
      else calcInherentAssetOutputAmount cfg .release s.assets outId x s.swap.feeRateGlobal) = some (.ok y) := by
    unfold calculateOutput
    dsimp only
    generalize (if inId = s.assets.inherentAsset then
        calcPairedAssetOutputAmount cfg .release s.assets outId x s.swap.feeRateGlobal
      else calcInherentAssetOutputAmount cfg .release s.assets outId x s.swap.feeRateGlobal) = q
    constructor
    · intro h
      obtain ⟨r, rfl, h⟩ := Option.bind_eq_some_iff.mp h
      cases r with
      | error e => cases h
      | ok out => rw [Option.some.inj h]
    · rintro rfl
      rfl
  rw [hunwrap]
  split
  · exact calcPaired_release_iff
  · exact calcInherent_release_iff

/-- **The quote agrees with the swap exactly when the inherent asset is paid in or the two prices coincide.** -/
theorem quoted_iff (cfg : Config A) (s : Chain A) (inId outId : AssetId) (amount : Balance) :
    Quoted cfg s inId outId amount ↔ QuoteAgrees cfg s.assets inId outId amount := by
  unfold QuoteAgrees
  constructor
  · intro h
    by_cases hin : inId = s.assets.inherentAsset
    · exact Or.inl hin
    · refine Or.inr fun y hy => ?_
      obtain ⟨r, hr, rfl⟩ := (exactInput_amount_iff (u := cfg.accountId) (v := cfg.accountId) (k := 0)
        (f := s.swap.feeRateGlobal)).mpr hy
      obtain ⟨e, _, hquote⟩ := h _ _ _ r hr
      rw [calculateOutput_iff, if_neg hin] at hquote
      exact ⟨hquote.1, hquote.2.symm⟩
  · intro h u v lim r hr
    obtain ⟨e, he⟩ := exactInput_last hr
    refine ⟨e, he, calculateOutput_iff.mpr ?_⟩
    have hprice := exactInput_amount_iff.mp ⟨r, hr, rfl⟩
    split
    · rename_i hin
      rw [OutputPrice, if_pos hin] at hprice
      exact hprice
    · rename_i hin
      obtain ⟨hsell, hsold⟩ := h.resolve_left hin _ hprice
      exact ⟨hsell, hsold.symm⟩

/-- The pool of asset `1` holds 1000 of each side, and there is no pool of the inherent asset with itself. Selling 100
of asset `1` for the inherent asset pays 90 to user `2`, and the quote for it panics. -/
theorem quote_panics : ∃ s s', play pairConfig .release pairGenesis
      [.call (.signed (.inl 1)) (.swap (.addLiquidity 1 1000 1000 0))] = some s ∧
    dispatch pairConfig .release s (.signed (.inl 1)) (.swapAssetsWithExactInput (.inl 2) 1 0 100 0) =
      some (.ok (), s') ∧
    s'.assets.balances (0, .inl 2) = s.assets.balances (0, .inl 2) + 90 ∧
    calculateOutput pairConfig .release s 1 0 100 = none ∧ ¬ Quoted pairConfig s 1 0 100 := by
  refine ⟨_, _, rfl, rfl, by decide, rfl, fun h => ?_⟩
  obtain ⟨e, _, hquote⟩ := h (.inl 1) (.inl 2) 0 _ rfl
  cases hquote

end Quote

end Konomi.Swap
