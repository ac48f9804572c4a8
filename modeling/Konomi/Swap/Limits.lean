import Konomi.Swap.Quote

/-!
# The caller's limits

`min_output`, `max_input`, `min_liquidity` and the two minima of `remove_liquidity` reach the functions that should
check them, where the checks are comments. `limitsHonoured_iff` says for every state and call when the limits are kept
all the same: when the price of the call happens to be within them and the transfer they are about goes through.
-/

namespace Konomi.Swap
open Machine Assets

variable {A : Type} [DecidableEq A]

/-! ## What is paid first and last -/

/-- What the first of the payments moved. -/
def firstPaid (ts : List (Payment A)) (done : List Bool) : Balance :=
  match ts.head?, done.head? with
  | some t, some true => t.amount
  | _, _ => 0

/-- What the last of the payments moved. -/
def lastPaid (ts : List (Payment A)) (done : List Bool) : Balance :=
  match ts.getLast?, done.getLast? with
  | some t, some true => t.amount
  | _, _ => 0

section Paid
variable {p : Profile} {st st₁ st₂ st' : Assets A} {t : Payment A} {ts : List (Payment A)} {done : List Bool}
  {k : Balance}

theorem firstPaid_cons (h : pay p st (t :: ts) = some (done, st')) :
    firstPaid (t :: ts) done = if t.Covered st then t.amount else 0 := by
  rcases pay_cons h with ⟨hc, done', _, rfl⟩ | ⟨hc, _, done', _, _, rfl⟩
  · simp [firstPaid, hc]
  · simp [firstPaid, hc]

theorem lastPaid_append {l : List (Payment A)} (h : pay p st (l ++ [t]) = some (done, st')) :
    ∃ done₁ st₁, pay p st l = some (done₁, st₁) ∧
      lastPaid (l ++ [t]) done = if t.Covered st₁ then t.amount else 0 := by
  obtain ⟨done₁, st₁, done₂, hts, hlast, rfl⟩ := pay_append h
  refine ⟨done₁, st₁, hts, ?_⟩
  rcases pay_cons hlast with ⟨hc, done', hnil, rfl⟩ | ⟨hc, _, done', _, hnil, rfl⟩
  · rw [(pay_nil hnil).1]
    simp [lastPaid, hc]
  · rw [(pay_nil hnil).1]
    simp [lastPaid, hc]

omit [DecidableEq A] in
/-- A payment reaches a minimum that is zero, or that it promises and can pay. -/
theorem le_paid_iff : k ≤ (if t.Covered st then t.amount else 0) ↔
    k = 0 ∨ k ≤ t.amount ∧ t.amount ≤ st.balances (t.id, t.payer) := by
  by_cases hc : t.Covered st
  · rw [if_pos hc]
    constructor
    · exact fun h => Or.inr ⟨h, hc.2⟩
    · rintro (rfl | h)
      · bv_omega
      · exact h.1
  · rw [if_neg hc]
    constructor
    · intro h
      left
      bv_omega
    · rintro (rfl | ⟨hle, hbal⟩)
      · exact BitVec.le_refl _
      · by_cases h0 : t.amount = 0
        · rw [h0] at hle
          exact hle
        · exact absurd ⟨h0, hbal⟩ hc

theorem balance_after_input {u e : A} {a j : AssetId} {x : Balance} (h : pay p st [⟨u, a, e, x⟩] = some (done, st₁)) :
    st₁.balances (j, e) =
      if a = j ∧ u ≠ e ∧ st.Covered u a x then st.balances (j, e) + x else st.balances (j, e) := by
  rcases pay_cons h with ⟨hc, done', hnil, _⟩ | ⟨hc, st₂, done', hmake, hnil, _⟩
  · rw [(pay_nil hnil).2]
    rw [if_neg (fun hall => hc hall.2.2)]
  · rw [(pay_nil hnil).2]
    by_cases hu : u = e
    · subst hu
      rw [if_neg (fun hall => hall.2.1 rfl), transfer_self hmake]
    · rw [payee_after hmake hu]
      by_cases hj : j = a
      · subst hj
        rw [if_pos rfl, if_pos ⟨rfl, hu, hc⟩]
      · rw [if_neg hj, if_neg (fun hall => hj hall.1.symm)]
        exact BitVec.add_zero _

theorem balance_after_output {u e : A} {i j : AssetId} {y : Balance}
    (h : pay p st [⟨e, i, u, y⟩] = some (done, st₁)) :
    st₁.balances (j, e) =
      if j = i ∧ u ≠ e ∧ st.Covered e j y then st.balances (j, e) - y else st.balances (j, e) := by
  rcases pay_cons h with ⟨hc, done', hnil, _⟩ | ⟨hc, st₂, done', hmake, hnil, _⟩
  · rw [(pay_nil hnil).2]
    rw [if_neg]
    rintro ⟨rfl, _, hcov⟩
    exact hc hcov
  · rw [(pay_nil hnil).2]
    by_cases hu : u = e
    · subst hu
      rw [if_neg (fun hall => hall.2.1 rfl), transfer_self hmake]
    · by_cases hj : j = i
      · subst hj
        rw [if_pos ⟨rfl, hu, hc⟩, payer_after hmake (Ne.symm hu)]
      · rw [if_neg (fun hall => hj hall.1)]
        exact make_other hmake hj e

theorem balance_after_other {j : AssetId} (h : pay p st [t] = some (done, st₁)) (hj : j ≠ t.id) (w : A) :
    st₁.balances (j, w) = st.balances (j, w) := by
  rcases pay_cons h with ⟨_, done', hnil, _⟩ | ⟨_, st₂, done', hmake, hnil, _⟩
  · rw [(pay_nil hnil).2]
  · rw [(pay_nil hnil).2]
    exact make_other hmake hj w

end Paid

/-! ## Prices of exact outputs -/

/-- What an output of `y` is charged, out of a reserve `o`: the output itself, or the largest `u128`. -/
def charge (o y : Balance) : Balance := if o ≤ y then BitVec.allOnes 128 else y

theorem calcInput_release_iff {y i o m : Balance} {f : BitVec 64} :
    calcInputAtKnownOutput .release y i o f = some (.ok m) ↔ i ≠ 0 ∧ o ≠ 0 ∧ m = charge o y := by
  constructor
  · intro h
    obtain ⟨hi, ho, hprice⟩ := calcInput_ok h
    refine ⟨hi, ho, ?_⟩
    unfold charge
    rcases hprice with ⟨hle, hm⟩ | ⟨hlt, hm⟩
    · rw [if_pos hle]
      exact hm
    · rw [if_neg (BitVec.not_le.mpr hlt)]
      exact hm
  · rintro ⟨hi, ho, rfl⟩
    unfold calcInputAtKnownOutput charge
    rw [if_neg (not_or.mpr ⟨hi, ho⟩)]
    split
    · rfl
    · rename_i hlt
      have hgap : o - y ≠ 0 := by bv_omega
      simp only [sub_release, mul_release, Option.bind_eq_bind, Option.bind_some, Machine.div, if_neg hgap]

section Routes
variable {cfg : Config A} {st : Assets A} {u v : A} {a b : AssetId} {x y lim : Balance} {fee : BitVec 64}

/-- `x` is the amount that an exact-output swap of `y` from `a` to `b` takes in. -/
def InputPrice (cfg : Config A) (st : Assets A) (a b : AssetId) (y x : Balance) : Prop :=
  if a = st.inherentAsset then
    (inherentReserve cfg st b ≠ 0 ∧ pairedReserve cfg st b ≠ 0) ∧ x = charge (pairedReserve cfg st b) y
  else if b = st.inherentAsset then
    (pairedReserve cfg st a ≠ 0 ∧ inherentReserve cfg st a ≠ 0) ∧ x = charge (inherentReserve cfg st a) y
  else
    (inherentReserve cfg st b ≠ 0 ∧ pairedReserve cfg st b ≠ 0) ∧
      (pairedReserve cfg st a ≠ 0 ∧ inherentReserve cfg st a ≠ 0) ∧
      x = charge (inherentReserve cfg st a) (charge (pairedReserve cfg st b) y)

omit [DecidableEq A] in
theorem calcInherentInput_release_iff {f : BitVec 64} :
    calcInherentAssetInputAmount cfg .release st b y f = some (.ok x) ↔
    (inherentReserve cfg st b ≠ 0 ∧ pairedReserve cfg st b ≠ 0) ∧ x = charge (pairedReserve cfg st b) y :=
  (calcInput_release_iff (f := f)).trans (and_assoc).symm

omit [DecidableEq A] in
theorem calcPairedInput_release_iff {f : BitVec 64} :
    calcPairedAssetInputAmount cfg .release st a y f = some (.ok x) ↔
    (pairedReserve cfg st a ≠ 0 ∧ inherentReserve cfg st a ≠ 0) ∧ x = charge (inherentReserve cfg st a) y :=
  (calcInput_release_iff (f := f)).trans (and_assoc).symm

omit [DecidableEq A] in
/-- **The amount of an exact-output swap.** -/
theorem exactOutput_amount_iff {k : Balance} {f : BitVec 64} :
    (∃ r, routeWithExactOutput cfg .release st u v a b y k f = some (.ok r) ∧ r.amount = x) ↔
      InputPrice cfg st a b y x := by
  unfold InputPrice
  constructor
  · rintro ⟨r, hr, rfl⟩
    rcases exactOutput_cases hr with ⟨ha, x, hx, rfl⟩ | ⟨ha, hb, x, hx, rfl⟩ | ⟨ha, hb, m, x, hm, hx, rfl⟩
    · rw [if_pos ha]
      exact calcInherentInput_release_iff.mp hx
    · rw [if_neg ha, if_pos hb]
      exact calcPairedInput_release_iff.mp hx
    · obtain ⟨hpool, rfl⟩ := calcInherentInput_release_iff.mp hm
      rw [if_neg ha, if_neg hb]
      exact ⟨hpool, calcPairedInput_release_iff.mp hx⟩
  · intro h
    unfold routeWithExactOutput
    split at h
    · rename_i ha
      rw [if_pos ha]
      exact ⟨_, Option.bind_eq_some_iff.mpr ⟨_, calcInherentInput_release_iff.mpr h, rfl⟩, rfl⟩
    · rename_i ha
      rw [if_neg ha]
      split at h
      · rename_i hb
        rw [if_pos hb]
        exact ⟨_, Option.bind_eq_some_iff.mpr ⟨_, calcPairedInput_release_iff.mpr h, rfl⟩, rfl⟩
      · rename_i hb
        rw [if_neg hb]
        have hm := calcInherentInput_release_iff (f := f) (y := y).mpr ⟨h.1, rfl⟩
        have hx := calcPairedInput_release_iff (f := f).mpr h.2
        exact ⟨_, Option.bind_eq_some_iff.mpr ⟨_, hm, Option.bind_eq_some_iff.mpr ⟨_, hx, rfl⟩⟩, rfl⟩

/-- The exchange that makes the last transfer of a swap from `a` to `b`. -/
def lastExchange (cfg : Config A) (st : Assets A) (a b : AssetId) : A :=
  getExchangeAddress cfg st.inherentAsset (if b = st.inherentAsset then a else b)

/-- What that exchange holds of the output asset when its turn comes: an input of the same asset has arrived. -/
def outputReserve (cfg : Config A) (st : Assets A) (u : A) (a b : AssetId) (x : Balance) : Balance :=
  let e := lastExchange cfg st a b
  if a = b ∧ u ≠ e ∧ st.Covered u a x then st.balances (b, e) + x else st.balances (b, e)

/-- An exact-input swap delivers a minimum exactly when it is zero, or at most the price and the exchange can pay it. -/
theorem lastPaid_exactInput_iff {r : Route A} {done : List Bool} {st' : Assets A} {k : Balance}
    (hr : routeWithExactInput cfg .release st u v a b x lim fee = some (.ok r))
    (hpay : pay .release st r.payments = some (done, st')) :
    k ≤ lastPaid r.payments done ↔ k = 0 ∨ k ≤ r.amount ∧ r.amount ≤ outputReserve cfg st u a b x := by
  unfold outputReserve lastExchange
  rcases exactInput_cases hr with ⟨rfl, y, _, rfl⟩ | ⟨ha, rfl, y, _, rfl⟩ | ⟨ha, hb, m, y, _, _, rfl⟩
  · obtain ⟨done₁, st₁, hfirst, hlast⟩ := lastPaid_append (l := [_]) hpay
    have hpool : (if b = st.inherentAsset then st.inherentAsset else b) = b := by
      split
      · exact Eq.symm ‹_›
      · rfl
    rw [hpool]
    refine (iff_of_eq (congrArg (k ≤ ·) hlast)).trans (le_paid_iff.trans ?_)
    rw [balance_after_input hfirst]
  · obtain ⟨done₁, st₁, hfirst, hlast⟩ := lastPaid_append (l := [_]) hpay
    rw [if_pos rfl]
    refine (iff_of_eq (congrArg (k ≤ ·) hlast)).trans (le_paid_iff.trans ?_)
    rw [balance_after_input hfirst]
  · obtain ⟨done₂, st₂, hfirst, hlast⟩ := lastPaid_append (l := [_, _]) hpay
    obtain ⟨done₁, st₁, done', hin, hacross, _⟩ := pay_append (l := [_]) hfirst
    rw [if_neg hb]
    refine (iff_of_eq (congrArg (k ≤ ·) hlast)).trans (le_paid_iff.trans ?_)
    rw [balance_after_other hacross hb]
    -- an input of another asset leaves the output reserve alone
    by_cases hab : a = b
    · subst hab
      rw [balance_after_input hin]
    · rw [balance_after_other hin (Ne.symm hab), if_neg (fun hall => hab hall.1)]

theorem firstPaid_exactOutput {p : Profile} {r : Route A} {done : List Bool} {st' : Assets A}
    (hr : routeWithExactOutput cfg p st u v a b y lim fee = some (.ok r))
    (hpay : pay p st r.payments = some (done, st')) :
    firstPaid r.payments done = if st.Covered u a r.amount then r.amount else 0 := by
  rcases exactOutput_cases hr with ⟨rfl, x, _, rfl⟩ | ⟨_, rfl, x, _, rfl⟩ | ⟨_, _, m, x, _, _, rfl⟩
  · exact firstPaid_cons hpay
  · exact firstPaid_cons hpay
  · exact firstPaid_cons hpay

end Routes

/-! ## Limits -/

/-- The limits of a call are met by what it did between `s` and `s'`. -/
def LimitsMet (cfg : Config A) (s s' : Chain A) (u : A) : Call A → Prop
  | .setFeeRate _ => True
  | .swapAssetsWithExactInput v a b x minOutput => ∃ r done st',
      routeOf cfg .release s u (.swapAssetsWithExactInput v a b x minOutput) = some (.ok r) ∧
      pay .release s.assets r.payments = some (done, st') ∧ minOutput ≤ lastPaid r.payments done
  | .swapAssetsWithExactOutput v a b y maxInput => ∃ r done st',
      routeOf cfg .release s u (.swapAssetsWithExactOutput v a b y maxInput) = some (.ok r) ∧
      pay .release s.assets r.payments = some (done, st') ∧ firstPaid r.payments done ≤ maxInput
  | .addLiquidity a _ _ minLiquidity => minLiquidity ≤ s'.swap.totalLiquidities a - s.swap.totalLiquidities a
  | .removeLiquidity a x minInherent minAsset => ∃ y z done st',
      Redeems .release s a x (inherentReserve cfg s.assets a) y ∧
      Redeems .release s a x (pairedReserve cfg s.assets a) z ∧
      pay .release s.assets (payouts cfg s.assets u a y z) = some (done, st') ∧
      minInherent ≤ firstPaid (payouts cfg s.assets u a y z) done ∧
      minAsset ≤ lastPaid (payouts cfg s.assets u a y z) done

/-- What the limits of a call promise: they are met, or the call fails and changes nothing. -/
def LimitsHonoured (cfg : Config A) (s : Chain A) (u : A) (call : Call A) : Prop :=
  ∀ result s', dispatch cfg .release s (.signed u) call = some (result, s') →
    LimitsMet cfg s s' u call ∨ ((∃ e, result = .error e) ∧ s' = s)

/-- When the limits are met without a check. A minimum is zero, or at most the amount in question, which the exchange
can pay when its turn comes; a maximum is at least the price, or the caller cannot pay it; the minted liquidity is at
least the minimum. A call on an empty pool fails or panics. -/
def WithinLimits (cfg : Config A) (s : Chain A) (u : A) : Call A → Prop
  | .setFeeRate _ => True
  | .swapAssetsWithExactInput _ a b x minOutput => ∀ y, OutputPrice cfg s.assets a b x y →
      minOutput = 0 ∨ minOutput ≤ y ∧ y ≤ outputReserve cfg s.assets u a b x
  | .swapAssetsWithExactOutput _ a b y maxInput => ∀ x, InputPrice cfg s.assets a b y x →
      s.assets.Covered u a x → x ≤ maxInput
  | .addLiquidity a x _ minLiquidity =>
      (s.swap.totalLiquidities a ≠ 0 → inherentReserve cfg s.assets a ≠ 0) → minLiquidity ≤ minted cfg s a x
  | .removeLiquidity a x minInherent minAsset => s.swap.totalLiquidities a ≠ 0 →
      let e := getExchangeAddress cfg s.assets.inherentAsset a
      let y := redeemed s a x (inherentReserve cfg s.assets a)
      let z := redeemed s a x (pairedReserve cfg s.assets a)
      -- a pool of the inherent asset with itself pays both parts out of one balance
      let left := if a = s.assets.inherentAsset ∧ u ≠ e ∧ s.assets.Covered e a y then pairedReserve cfg s.assets a - y
        else pairedReserve cfg s.assets a
      (minInherent = 0 ∨ minInherent ≤ y ∧ y ≤ inherentReserve cfg s.assets a) ∧
        (minAsset = 0 ∨ minAsset ≤ z ∧ z ≤ left)

section Limits
variable {cfg : Config A} {s : Chain A} {u v : A} {a b : AssetId} {x y lo hi lim : Balance}

theorem exactInput_limits_iff : LimitsHonoured cfg s u (.swapAssetsWithExactInput v a b x lim) ↔
    WithinLimits cfg s u (.swapAssetsWithExactInput v a b x lim) := by
  constructor
  · intro h y hy
    obtain ⟨r, hr, rfl⟩ := (exactInput_amount_iff (u := u) (v := v) (k := lim) (f := s.swap.feeRateGlobal)).mpr hy
    obtain ⟨⟨done, st'⟩, hpay⟩ := pay_release r.payments s.assets
    have hrun := dispatch_route (c := .swapAssetsWithExactInput v a b x lim) hr
    rw [hpay] at hrun
    rcases h _ _ hrun with ⟨r', done', st₂, hr', hpay', hle⟩ | ⟨⟨e, he⟩, _⟩
    · cases hr.symm.trans hr'
      cases hpay.symm.trans hpay'
      exact (lastPaid_exactInput_iff hr hpay).mp hle
    · cases he
  · intro h result s' hd
    rcases runRoute_cases hd with ⟨e, _, rfl, rfl⟩ | ⟨r, done, st', hr, hpay, _, rfl⟩
    · exact Or.inr ⟨⟨_, rfl⟩, rfl⟩
    · refine Or.inl ⟨r, done, st', hr, hpay, (lastPaid_exactInput_iff hr hpay).mpr ?_⟩
      exact h _ (exactInput_amount_iff.mp ⟨r, hr, rfl⟩)

theorem exactOutput_limits_iff : LimitsHonoured cfg s u (.swapAssetsWithExactOutput v a b y lim) ↔
    WithinLimits cfg s u (.swapAssetsWithExactOutput v a b y lim) := by
  have hle_iff : ∀ x : Balance, (if s.assets.Covered u a x then x else 0) ≤ lim ↔
      (s.assets.Covered u a x → x ≤ lim) := by
    intro x
    by_cases hc : s.assets.Covered u a x
    · rw [if_pos hc]
      exact ⟨fun h _ => h, fun h => h hc⟩
    · rw [if_neg hc]
      exact ⟨fun _ h => absurd h hc, fun _ => by bv_omega⟩
  constructor
  · intro h x hx
    obtain ⟨r, hr, rfl⟩ := (exactOutput_amount_iff (u := u) (v := v) (k := lim) (f := s.swap.feeRateGlobal)).mpr hx
    obtain ⟨⟨done, st'⟩, hpay⟩ := pay_release r.payments s.assets
    have hrun := dispatch_route (c := .swapAssetsWithExactOutput v a b y lim) hr
    rw [hpay] at hrun
    rcases h _ _ hrun with ⟨r', done', st₂, hr', hpay', hle⟩ | ⟨⟨e, he⟩, _⟩
    · cases hr.symm.trans hr'
      cases hpay.symm.trans hpay'
      rw [firstPaid_exactOutput hr hpay] at hle
      exact (hle_iff _).mp hle
    · cases he
  · intro h result s' hd
    rcases runRoute_cases hd with ⟨e, _, rfl, rfl⟩ | ⟨r, done, st', hr, hpay, _, rfl⟩
    · exact Or.inr ⟨⟨_, rfl⟩, rfl⟩
    · refine Or.inl ⟨r, done, st', hr, hpay, ?_⟩
      rw [firstPaid_exactOutput hr hpay]
      exact (hle_iff _).mpr (h _ (exactOutput_amount_iff.mp ⟨r, hr, rfl⟩))

theorem addLiquidity_limits_iff : LimitsHonoured cfg s u (.addLiquidity a x y lo) ↔
    WithinLimits cfg s u (.addLiquidity a x y lo) := by
  have hminted : ∀ s', _addLiquidity cfg .release s u a x y lo = some s' →
      s'.swap.totalLiquidities a - s.swap.totalLiquidities a = minted cfg s a x := by
    intro s' h
    obtain ⟨done, st', m, share, total, _, hm, htotal, rfl⟩ := addLiquidity_cases h
    show Function.update s.swap.totalLiquidities a total a - _ = _
    rw [Function.update_self, add_eq htotal, hm.eq.1]
    bv_omega
  constructor
  · intro h hpool
    obtain ⟨s', hs'⟩ := (addLiquidity_release_iff cfg s u a x y lo).mpr hpool
    rcases h (.ok ()) s' (by simp [dispatch, ensureSigned, hs']) with hle | ⟨⟨e, he⟩, _⟩
    · rw [← hminted s' hs']
      exact hle
    · cases he
  · intro h result s' hd
    obtain ⟨s₁, hs₁, hd⟩ := Option.bind_eq_some_iff.mp hd
    cases hd
    left
    show lo ≤ _
    rw [hminted s' hs₁]
    exact h ((addLiquidity_release_iff cfg s u a x y lo).mp ⟨s', hs₁⟩)

theorem removeLiquidity_limits_iff : LimitsHonoured cfg s u (.removeLiquidity a x lo hi) ↔
    WithinLimits cfg s u (.removeLiquidity a x lo hi) := by
  have hpaid : ∀ {y z : Balance} {done : List Bool} {st' : Assets A},
      pay .release s.assets (payouts cfg s.assets u a y z) = some (done, st') →
      Redeems .release s a x (inherentReserve cfg s.assets a) y →
      Redeems .release s a x (pairedReserve cfg s.assets a) z →
      (lo ≤ firstPaid (payouts cfg s.assets u a y z) done ∧ hi ≤ lastPaid (payouts cfg s.assets u a y z) done ↔
        WithinLimits cfg s u (.removeLiquidity a x lo hi)) := by
    intro y z done st' hpay hy hz
    obtain ⟨done₁, st₁, hfirst, hlast⟩ := lastPaid_append (l := [_]) hpay
    have hleft := balance_after_output (j := a) hfirst
    have hlast : lastPaid (payouts cfg s.assets u a y z) done = _ := hlast
    rw [hlast, payouts, firstPaid_cons hpay, le_paid_iff, le_paid_iff]
    dsimp only
    rw [hleft, hy.eq, hz.eq]
    exact ⟨fun h _ => h, fun h => h hy.total_ne⟩
  constructor
  · intro h hne
    obtain ⟨s', hs'⟩ := (removeLiquidity_release_iff cfg s u a x lo hi).mpr hne
    rcases h (.ok ()) s' (by simp [dispatch, ensureSigned, hs'])
      with ⟨y, z, done, st', hy, hz, hpay, hle⟩ | ⟨⟨e, he⟩, _⟩
    · exact (hpaid hpay hy hz).mp hle hne
    · cases he
  · intro h result s' hd
    obtain ⟨s₁, hs₁, hd⟩ := Option.bind_eq_some_iff.mp hd
    obtain ⟨y, z, done, st', left, total, hy, hz, hpay, _, _, _⟩ := removeLiquidity_cases hs₁
    exact Or.inl ⟨y, z, done, st', hy, hz, hpay, (hpaid hpay hy hz).mpr h⟩

/-- **The caller's limits are honoured exactly when they are met without a check.** -/
theorem limitsHonoured_iff (cfg : Config A) (s : Chain A) (u : A) (call : Call A) :
    LimitsHonoured cfg s u call ↔ WithinLimits cfg s u call := by
  cases call with
  | setFeeRate f => exact ⟨fun _ => trivial, fun _ _ _ _ => Or.inl trivial⟩
  | swapAssetsWithExactInput v a b x lim => exact exactInput_limits_iff
  | swapAssetsWithExactOutput v a b y lim => exact exactOutput_limits_iff
  | addLiquidity a x y lo => exact addLiquidity_limits_iff
  | removeLiquidity a x lo hi => exact removeLiquidity_limits_iff

/-- User `1` opens the pool of asset `1` with 1000 of each side, and asks for at least 1000 of asset `1` for 100 of the
inherent asset: the swap returns `Ok` and pays 90. -/
theorem minimum_output_ignored : ∃ s s', play pairConfig .release pairGenesis
      [.call (.signed (.inl 1)) (.swap (.addLiquidity 1 1000 1000 0))] = some s ∧
    dispatch pairConfig .release s (.signed (.inl 1)) (.swapAssetsWithExactInput (.inl 2) 0 1 100 1000) =
      some (.ok (), s') ∧
    s'.assets.balances (1, .inl 2) = s.assets.balances (1, .inl 2) + 90 ∧
    ¬ LimitsHonoured pairConfig s (.inl 1) (.swapAssetsWithExactInput (.inl 2) 0 1 100 1000) := by
  refine ⟨_, _, rfl, rfl, by decide, fun h => ?_⟩
  rcases h _ _ rfl with ⟨r, done, st', hr, hpay, hle⟩ | ⟨⟨e, he⟩, _⟩
  · cases hr
    cases hpay
    revert hle
    decide
  · cases he

end Limits

end Konomi.Swap
