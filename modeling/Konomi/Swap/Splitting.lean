import Konomi.Swap.Product

/-!
# Splitting a trade

Through a pool of two assets a swap in either direction is one hop at the quote (`hop_step`), so a list of swaps pays
the quotes of its amounts on the reserves that each one finds (`swapEach_quotes`), and these are at most the quote of
the sum (`Reserves.quotes_le`). In the pool of the inherent asset with itself the amount paid in stays
in the reserve that the next swap is paid from, and splitting pays (`splitting_pays`).
-/

namespace Konomi.Swap
open Machine Assets Reserves

variable {A : Type} [DecidableEq A]

/-- Swap the amounts of a list one after the other, with the caller as output account, and add up the outputs. A swap
that is refused pays nothing. -/
def swapEach (cfg : Config A) (p : Profile) (u : A) (a b : AssetId) (lim : Balance) :
    Chain A → List Balance → Option (Nat × Chain A)
  | s, [] => some (0, s)
  | s, x :: xs => do
    let route ← routeOf cfg p s u (.swapAssetsWithExactInput u a b x lim)
    let (_, s') ← dispatch cfg p s (.signed u) (.swapAssetsWithExactInput u a b x lim)
    let (total, t) ← swapEach cfg p u a b lim s' xs
    match route with
    | .error _ => some (total, t)
    | .ok r => some (r.amount.toNat + total, t)

/-- What splitting a trade promises: the swaps of the amounts of a list, in which nothing overflows, pay in total at
most what one swap of their sum does. -/
def SplittingNeverPays (cfg : Config A) (s : Chain A) (u : A) (a b : AssetId) (xs : List Balance) : Prop :=
  ∀ lim lim' x total t r, x.toNat = (xs.map BitVec.toNat).sum →
    swapEach cfg .checked u a b lim s xs = some (total, t) →
    routeOf cfg .checked s u (.swapAssetsWithExactInput u a b x lim') = some (.ok r) → total ≤ r.amount.toNat

section Hops
variable {cfg : Config A} {p : Profile} {s s' t : Chain A} {u v e : A} {a b c : AssetId} {x lim : Balance}

/-- A trader and a pool of two assets that is not empty. -/
structure Market (cfg : Config A) (st : Assets A) (u e : A) (a b c : AssetId) : Prop where
  exchange : getExchangeAddress cfg st.inherentAsset c = e
  paired : c ≠ st.inherentAsset
  through : ThroughPool st c a b
  trader : u ≠ e
  reserve_in : 0 < st.holdings a e
  reserve_out : 0 < st.holdings b e

/-- What a swap of `x` for `y` does where nothing overflows: it trades at the quote. -/
structure Traded (st st' : Assets A) (u e : A) (a b : AssetId) (x y : Nat) : Prop where
  inherent : st'.inherentAsset = st.inherentAsset
  price : y = quote (st.holdings a e) (st.holdings b e) x
  reserve_in : st'.holdings a e = st.holdings a e + x
  reserve_out : st'.holdings b e = st.holdings b e - y
  paid : st'.holdings a u = st.holdings a u - x
  received : st'.holdings b u = st.holdings b u + y

omit [DecidableEq A] in
theorem Market.distinct {st : Assets A} (h : Market cfg st u e a b c) : a ≠ b := by
  rcases h.through with ⟨rfl, rfl⟩ | ⟨rfl, rfl⟩
  · exact Ne.symm h.paired
  · exact h.paired

omit [DecidableEq A] in
theorem Traded.market {st st' : Assets A} {x y : Nat} (h : Traded st st' u e a b x y) (hst : Market cfg st u e a b c) :
    Market cfg st' u e a b c := by
  have hleft : y < st.holdings b e := by
    rw [h.price]
    exact quote_lt hst.reserve_in hst.reserve_out
  refine ⟨?_, ?_, ?_, hst.trader, ?_, ?_⟩
  · rw [h.inherent]
    exact hst.exchange
  · rw [h.inherent]
    exact hst.paired
  · unfold ThroughPool
    rw [h.inherent]
    exact hst.through
  · rw [h.reserve_in]
    exact Nat.add_pos_left hst.reserve_in x
  · rw [h.reserve_out]
    omega

/-- **A swap of what the caller holds trades at the quote.** -/
theorem hop_step {route : Except String (Route A)} {result : Except DispatchError Unit}
    (hs : Market cfg s.assets u e a b c) (hx : x.toNat ≤ s.assets.holdings a u)
    (hr : routeOf cfg .checked s u (.swapAssetsWithExactInput u a b x lim) = some route)
    (hd : dispatch cfg .checked s (.signed u) (.swapAssetsWithExactInput u a b x lim) = some (result, s')) :
    ∃ r, route = .ok r ∧ Traded s.assets s'.assets u e a b x.toNat r.amount.toNat := by
  have hroute := hr
  rw [hop_route hs.paired hs.through, hs.exchange] at hroute
  obtain ⟨q, hq, rfl⟩ := Option.map_eq_some_iff.mp hroute
  cases q with
  | error e =>
    rcases calcOutput_error hq with hzero | hzero
    · exact absurd (congrArg BitVec.toNat hzero) hs.reserve_in.ne'
    · exact absurd (congrArg BitVec.toNat hzero) hs.reserve_out.ne'
  | ok y =>
    have hprice := calcOutput_exact rfl hq
    rw [dispatch_route hr] at hd
    obtain ⟨⟨done, st'⟩, hpay, hd⟩ := Option.map_eq_some_iff.mp hd
    cases hd
    have hle : y.toNat ≤ s.assets.holdings b e := by
      rw [hprice]
      exact quote_le _ _ _
    have hfund : Funded s.assets.holdings [⟨u, a, e, x⟩, ⟨e, b, u, y⟩] := by
      simp only [Funded, Payment.debit, hs.trader, and_false, if_false, and_true]
      exact ⟨hx, hle⟩
    have hexact := pay_funded rfl hpay hfund
    have hin := hexact a e
    have hout := hexact b e
    have hpaid := hexact a u
    have hreceived := hexact b u
    simp only [debits_cons, credits_cons, debits_nil, credits_nil, Payment.debit, Payment.credit, hs.trader,
      Ne.symm hs.trader, hs.distinct, Ne.symm hs.distinct, and_true, and_false, if_true, if_false, Nat.add_zero,
      Nat.zero_add] at hin hout hpaid hreceived
    exact ⟨_, rfl, pay_inherent hpay, hprice, hin, Nat.eq_sub_of_add_eq hout, Nat.eq_sub_of_add_eq hpaid, hreceived⟩

/-- The swaps of a list trade at the quotes of its amounts, and the caller receives what they come to. -/
theorem swapEach_quotes : ∀ {xs : List Balance} {s : Chain A} {total : Nat}, Market cfg s.assets u e a b c →
    (xs.map BitVec.toNat).sum ≤ s.assets.holdings a u → swapEach cfg .checked u a b lim s xs = some (total, t) →
    total = quotes (s.assets.holdings a e) (s.assets.holdings b e) (xs.map BitVec.toNat) ∧
      t.assets.holdings b u = s.assets.holdings b u + total
  | [], s, total, _, _, h => by
    cases h
    exact ⟨rfl, rfl⟩
  | x :: xs, s, total, hs, hx, h => by
    rw [List.map_cons, List.sum_cons] at hx
    obtain ⟨route, hr, h⟩ := Option.bind_eq_some_iff.mp h
    obtain ⟨⟨result, s'⟩, hd, h⟩ := Option.bind_eq_some_iff.mp h
    obtain ⟨⟨rest, t'⟩, hrest, h⟩ := Option.bind_eq_some_iff.mp h
    obtain ⟨r, rfl, htrade⟩ := hop_step hs (by omega) hr hd
    cases h
    have hheld : (xs.map BitVec.toNat).sum ≤ s'.assets.holdings a u := by
      rw [htrade.paid]
      omega
    obtain ⟨htotal, hreceived⟩ := swapEach_quotes (htrade.market hs) hheld hrest
    rw [htrade.reserve_in, htrade.reserve_out, htrade.price] at htotal
    rw [htrade.received] at hreceived
    rw [List.map_cons, quotes, hreceived, htotal, htrade.price]
    exact ⟨rfl, Nat.add_assoc _ _ _⟩

/-- **In a pool of two assets splitting never pays.** What the swaps of the list pay in total is what the caller
receives. -/
theorem splitting_never_pays (xs : List Balance) (hc : c ≠ s.assets.inherentAsset)
    (hpool : ThroughPool s.assets c a b) (hu : u ≠ getExchangeAddress cfg s.assets.inherentAsset c)
    (hx : (xs.map BitVec.toNat).sum ≤ s.assets.holdings a u)
    (hi : 0 < s.assets.holdings a (getExchangeAddress cfg s.assets.inherentAsset c))
    (ho : 0 < s.assets.holdings b (getExchangeAddress cfg s.assets.inherentAsset c)) :
    SplittingNeverPays cfg s u a b xs ∧ ∀ lim total t, swapEach cfg .checked u a b lim s xs = some (total, t) →
      t.assets.holdings b u = s.assets.holdings b u + total := by
  have hs : Market cfg s.assets u _ a b c := ⟨rfl, hc, hpool, hu, hi, ho⟩
  refine ⟨fun lim lim' x total t r hsum hrun hone => ?_, fun lim total t hrun => (swapEach_quotes hs hx hrun).2⟩
  rw [hop_route hc hpool] at hone
  obtain ⟨q, hq, hone⟩ := Option.map_eq_some_iff.mp hone
  cases q with
  | error e => cases hone
  | ok y =>
    cases hone
    have hprice := calcOutput_exact rfl hq
    rw [(swapEach_quotes hs hx hrun).1, hprice, hsum]
    exact quotes_le hi _ _

end Hops

/-- Against 1000 and 1000, user `1` gets 230 of asset `1` for 100, 200 and 1 of the inherent asset one after the other;
301 at once would pay 231. -/
theorem splitting_never_pays_pair : ∃ s t r, play pairConfig .release pairGenesis
      [.call (.signed (.inl 1)) (.swap (.addLiquidity 1 1000 1000 0))] = some s ∧
    swapEach pairConfig .checked (.inl 1) 0 1 0 s [100, 200, 1] = some (230, t) ∧
    t.assets.holdings 1 (.inl 1) = s.assets.holdings 1 (.inl 1) + 230 ∧
    routeOf pairConfig .checked s (.inl 1) (.swapAssetsWithExactInput (.inl 1) 0 1 301 0) = some (.ok r) ∧
    r.amount = 231 ∧ SplittingNeverPays pairConfig s (.inl 1) 0 1 [100, 200, 1] := by
  have hrun : ∃ s t r, play pairConfig .release pairGenesis
        [.call (.signed (.inl 1)) (.swap (.addLiquidity 1 1000 1000 0))] = some s ∧
      swapEach pairConfig .checked (.inl 1) 0 1 0 s [100, 200, 1] = some (230, t) ∧
      routeOf pairConfig .checked s (.inl 1) (.swapAssetsWithExactInput (.inl 1) 0 1 301 0) = some (.ok r) ∧
      r.amount = 231 ∧ (1 : AssetId) ≠ s.assets.inherentAsset ∧ ThroughPool s.assets 1 0 1 ∧
      301 ≤ s.assets.holdings 0 (.inl 1) ∧
      0 < s.assets.holdings 0 (getExchangeAddress pairConfig s.assets.inherentAsset 1) ∧
      0 < s.assets.holdings 1 (getExchangeAddress pairConfig s.assets.inherentAsset 1) :=
    ⟨_, _, _, rfl, rfl, rfl, by decide, by decide, Or.inl ⟨rfl, rfl⟩, by decide, by decide, by decide⟩
  obtain ⟨s, t, r, hs, hsplit, hone, hprice, hpaired, hpool, hx, hi, ho⟩ := hrun
  obtain ⟨hnever, hreceived⟩ := splitting_never_pays [100, 200, 1] hpaired hpool (pairConfig_user 1 _ 1) hx hi ho
  exact ⟨s, t, r, hs, hsplit, hreceived 0 230 t hsplit, hone, hprice, hnever⟩

/-- The pool of the inherent asset with itself holds 100. User `1` swaps 100 twice for 50 and 60; 200 at once would pay
66. -/
theorem splitting_pays : ∃ s t r, play pairConfig .release pairGenesis
      [.call (.signed (.inl 1)) (.swap (.addLiquidity 0 50 50 0))] = some s ∧
    s.assets.holdings 0 (pairConfig.makeExchangeAddress 0 0) = 100 ∧
    swapEach pairConfig .checked (.inl 1) 0 0 0 s [100, 100] = some (110, t) ∧
    routeOf pairConfig .checked s (.inl 1) (.swapAssetsWithExactInput (.inl 1) 0 0 200 0) = some (.ok r) ∧
    r.amount = 66 ∧ ¬ SplittingNeverPays pairConfig s (.inl 1) 0 0 [100, 100] := by
  refine ⟨_, _, _, rfl, by decide, rfl, rfl, by decide, fun h => ?_⟩
  exact absurd (h 0 0 200 _ _ _ (by decide) rfl rfl) (by decide)

end Konomi.Swap
