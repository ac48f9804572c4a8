import Konomi.Swap.Product
import Konomi.Swap.Limits
import Konomi.Assets.Ownership

/-!
# Liquidity is backed

`Stocked cfg st c` : the exchange of the pool of `c` holds some of both its assets. Each call keeps the pools stocked
unless one of its payments happens to be exactly what the exchange has left (`hop_stocked`, `across_stocked`,
`payouts_stocked`). Liquidity without reserves comes from five places, which `BackedStep` names: another inherent asset
while liquidity is out, a first injection whose deposits are not made, prices that wrap, an exact output of a whole
reserve, and a redemption of a whole reserve for less than all liquidity.
-/

namespace Konomi.Swap
open Machine Assets Reserves

variable {A : Type} [DecidableEq A]

/-- The exchange of the pool of `c` holds some of both assets. -/
def Stocked (cfg : Config A) (st : Assets A) (c : AssetId) : Prop :=
  0 < (reserves cfg st c).1 ∧ 0 < (reserves cfg st c).2

/-! ## Payments -/

section Payments
variable {st st' : Assets A} {u v e e' : A} {i j a b : AssetId} {x m y z : Balance} {t : Payment A}
  {ts : List (Payment A)} {done : List Bool}

theorem pay_step (h : pay .checked st (t :: ts) = some (done, st')) :
    ∃ st₁ done', pay .checked st₁ ts = some (done', st') ∧
      ((¬ t.Covered st ∧ st₁ = st) ∨
        (t.Covered st ∧ ∀ j w, st₁.holdings j w + t.debit j w = st.holdings j w + t.credit j w)) := by
  rcases pay_cons h with ⟨hc, done', hpay, _⟩ | ⟨hc, st₁, done', hmake, hpay, _⟩
  · exact ⟨st, done', hpay, Or.inl ⟨hc, rfl⟩⟩
  · exact ⟨st₁, done', hpay, Or.inr ⟨hc, make_exact rfl hmake⟩⟩

theorem pay_input (hu : u ≠ e) (h : pay .checked st (⟨u, j, e, x⟩ :: ts) = some (done, st')) :
    ∃ st₁ done', pay .checked st₁ ts = some (done', st') ∧
      (0 < st.holdings j e ∨ st.Covered u j x → 0 < st₁.holdings j e) ∧
      (∀ j', st.holdings j' e ≤ st₁.holdings j' e) ∧
      (∀ j', j' ≠ j → ∀ w, st₁.holdings j' w = st.holdings j' w) ∧ (¬ st.Covered u j x → st₁ = st) := by
  obtain ⟨st₁, done', hpay, hstep⟩ := pay_step h
  refine ⟨st₁, done', hpay, ?_⟩
  rcases hstep with ⟨hn, rfl⟩ | ⟨hc, hexact⟩
  · exact ⟨fun hp => hp.resolve_right hn, fun _ => le_rfl, fun _ _ _ => rfl, fun _ => rfl⟩
  · have hx : 0 < x.toNat := by
      have h0 : x ≠ 0 := hc.1
      bv_omega
    refine ⟨fun _ => ?_, fun j' => ?_, fun j' hj w => ?_, fun hn => absurd hc hn⟩
    · have hin := hexact j e
      simp only [Payment.debit, Payment.credit, hu, and_false, and_true, if_true, if_false] at hin
      omega
    · have hin := hexact j' e
      simp only [Payment.debit, hu, and_false, if_false] at hin
      omega
    · have hother := hexact j' w
      simp only [Payment.debit, Payment.credit, Ne.symm hj, false_and, if_false] at hother
      exact hother

theorem pay_output (h : pay .checked st (⟨e, j, v, y⟩ :: ts) = some (done, st')) :
    ∃ st₁ done', pay .checked st₁ ts = some (done', st') ∧
      (st₁.holdings j e = st.holdings j e ∨ v ≠ e ∧ st₁.holdings j e + y.toNat = st.holdings j e) ∧
      (∀ w, w ≠ e → st.holdings j w ≤ st₁.holdings j w) ∧
      ∀ j', j' ≠ j → ∀ w, st₁.holdings j' w = st.holdings j' w := by
  obtain ⟨st₁, done', hpay, hstep⟩ := pay_step h
  refine ⟨st₁, done', hpay, ?_⟩
  rcases hstep with ⟨_, rfl⟩ | ⟨_, hexact⟩
  · exact ⟨Or.inl rfl, fun _ _ => le_rfl, fun _ _ _ => rfl⟩
  · refine ⟨?_, fun w hw => ?_, fun j' hj w => ?_⟩
    · have hout := hexact j e
      by_cases hv : v = e
      · simp only [Payment.debit, Payment.credit, hv, and_self, if_true] at hout
        omega
      · simp only [Payment.debit, Payment.credit, hv, and_false, and_self, if_true, if_false] at hout
        exact Or.inr ⟨hv, hout⟩
    · have hout := hexact j w
      simp only [Payment.debit, Ne.symm hw, and_false, if_false] at hout
      omega
    · have hother := hexact j' w
      simp only [Payment.debit, Payment.credit, Ne.symm hj, false_and, if_false] at hother
      exact hother

/-- In at `i` and out at `j`: the exchange keeps some of both unless it pays out all it has. -/
theorem hop_stocked (hu : u ≠ e) (h : pay .checked st [⟨u, i, e, x⟩, ⟨e, j, v, y⟩] = some (done, st'))
    (hi : 0 < st.holdings i e) (hj : 0 < st.holdings j e)
    (hy : y.toNat < st.holdings j e ∨ v = e ∨ (¬ st.Covered u i x ∧ y.toNat ≠ st.holdings j e)) :
    0 < st'.holdings i e ∧ 0 < st'.holdings j e := by
  obtain ⟨st₁, done₁, h, hin, hgrow, _, hkept⟩ := pay_input hu h
  obtain ⟨st₂, done₂, h, hout, _, hother⟩ := pay_output h
  rw [(pay_nil h).2]
  have hj₂ : 0 < st₂.holdings j e := by
    have hj₁ := hgrow j
    rcases hy with hlt | hv | ⟨hn, hne⟩
    · omega
    · have hsame := hout.resolve_right fun ho => ho.1 hv
      omega
    · rw [hkept hn] at hout
      omega
  refine ⟨?_, hj₂⟩
  by_cases hij : i = j
  · rw [hij]
    exact hj₂
  · rw [hother i hij]
    exact hin (Or.inl hi)

theorem across_stocked (hu : u ≠ e) (he : e ≠ e') (ha : a ≠ i) (hb : b ≠ i) (hab : a ≠ b)
    (h : pay .checked st [⟨u, a, e, x⟩, ⟨e, i, e', m⟩, ⟨e', b, v, y⟩] = some (done, st'))
    (hae : 0 < st.holdings a e) (hie : 0 < st.holdings i e) (hie' : 0 < st.holdings i e')
    (hbe' : 0 < st.holdings b e') (hm : m.toNat ≠ st.holdings i e) (hy : v = e' ∨ y.toNat ≠ st.holdings b e') :
    (0 < st'.holdings a e ∧ 0 < st'.holdings i e) ∧ 0 < st'.holdings i e' ∧ 0 < st'.holdings b e' := by
  obtain ⟨st₁, done₁, h, hin, _, hother₁, _⟩ := pay_input hu h
  obtain ⟨st₂, done₂, h, hcross, hgrow, hother₂⟩ := pay_output h
  obtain ⟨st₃, done₃, h, hout, _, hother₃⟩ := pay_output h
  rw [(pay_nil h).2]
  refine ⟨⟨?_, ?_⟩, ?_, ?_⟩
  · rw [hother₃ a hab, hother₂ a ha]
    exact hin (Or.inl hae)
  · rw [hother₃ i (Ne.symm hb)]
    rw [hother₁ i (Ne.symm ha)] at hcross
    omega
  · rw [hother₃ i (Ne.symm hb)]
    have hgrow := hgrow e' (Ne.symm he)
    rw [hother₁ i (Ne.symm ha)] at hgrow
    omega
  · rw [hother₂ b hb, hother₁ b (Ne.symm hab)] at hout
    rcases hy with hv | hne
    · have hsame := hout.resolve_right fun ho => ho.1 hv
      omega
    · omega

theorem back_stocked (hu : u ≠ e) (ha : a ≠ i)
    (h : pay .checked st [⟨u, a, e, x⟩, ⟨e, i, e, m⟩, ⟨e, a, v, y⟩] = some (done, st'))
    (hae : 0 < st.holdings a e) (hie : 0 < st.holdings i e)
    (hy : y.toNat < st.holdings a e ∨ v = e ∨ (¬ st.Covered u a x ∧ y.toNat ≠ st.holdings a e)) :
    0 < st'.holdings i e ∧ 0 < st'.holdings a e := by
  obtain ⟨st₁, done₁, h, _, hgrow, hother₁, hkept⟩ := pay_input hu h
  obtain ⟨st₂, done₂, h, hcross, _, hother₂⟩ := pay_output h
  obtain ⟨st₃, done₃, h, hout, _, hother₃⟩ := pay_output h
  rw [(pay_nil h).2]
  have hsame := hcross.resolve_right fun hc => hc.1 rfl
  refine ⟨?_, ?_⟩
  · rw [hother₃ i (Ne.symm ha), hsame, hother₁ i (Ne.symm ha)]
    exact hie
  · have ha₁ := hgrow a
    rw [hother₂ a ha] at hout
    rcases hy with hlt | hv | ⟨hn, hne⟩
    · omega
    · have hback := hout.resolve_right fun ho => ho.1 hv
      omega
    · rw [hkept hn] at hout
      omega

theorem payouts_stocked (h : pay .checked st [⟨e, i, u, y⟩, ⟨e, j, u, z⟩] = some (done, st'))
    (hi : 0 < st.holdings i e) (hj : 0 < st.holdings j e) (hy : y.toNat ≠ st.holdings i e)
    (hz : z.toNat ≠ st.holdings j e) (hsame : i = j → z = y ∧ y.toNat + y.toNat ≠ st.holdings i e) :
    0 < st'.holdings i e ∧ 0 < st'.holdings j e := by
  obtain ⟨st₁, done₁, h, hfirst, _, hother₁⟩ := pay_output h
  obtain ⟨st₂, done₂, h, hsecond, _, hother₂⟩ := pay_output h
  rw [(pay_nil h).2]
  by_cases hij : i = j
  · subst hij
    obtain ⟨rfl, htwice⟩ := hsame rfl
    omega
  · rw [hother₂ i hij]
    rw [hother₁ j (Ne.symm hij)] at hsecond
    omega

end Payments

/-! ## Swaps -/

/-- The sums that an exact-input swap divides by do not wrap. -/
def InputFits (cfg : Config A) (st : Assets A) (a b : AssetId) (x : Balance) : Prop :=
  if a = st.inherentAsset then x.toNat + (reserves cfg st b).1 < 2 ^ 128
  else x.toNat + (reserves cfg st a).2 < 2 ^ 128 ∧ (a = b → CrossingFits cfg st a x)

/-- An exact output is not all that the last exchange has of it, or goes back to that exchange; where it crosses the
inherent asset, it is not all that the first exchange has of that either, unless it is more than can be paid out. -/
def OutputLeaves (cfg : Config A) (st : Assets A) (v : A) (a b : AssetId) (y : Balance) : Prop :=
  (v = lastExchange cfg st a b ∨ y ≠ st.balances (b, lastExchange cfg st a b)) ∧
  (a ≠ st.inherentAsset → b ≠ st.inherentAsset → a ≠ b → y = inherentReserve cfg st a →
    pairedReserve cfg st b ≤ y)

section Swaps
variable [Fintype A] {cfg : Config A} {st st' : Assets A} {u v : A} {a b c : AssetId} {x y lim : Balance}
  {fee : BitVec 64} {r : Route A} {done : List Bool}

omit [Fintype A] in
theorem stocked_of_pay {ts : List (Payment A)} (hpay : pay .checked st ts = some (done, st'))
    (h : 0 < st'.holdings st.inherentAsset (getExchangeAddress cfg st.inherentAsset c) ∧
      0 < st'.holdings c (getExchangeAddress cfg st.inherentAsset c)) : Stocked cfg st' c := by
  unfold Stocked
  rw [reserves_pay hpay]
  exact h

omit [Fintype A] in
theorem others_stocked {ts : List (Payment A)} (hpay : pay .checked st ts = some (done, st'))
    (hpayer : ∀ t ∈ ts, t.payer ≠ getExchangeAddress cfg st.inherentAsset c) (hc : Stocked cfg st c) :
    Stocked cfg st' c := by
  have hunspent := others_unspent hpay hpayer
  exact ⟨hunspent.left hc.1, hunspent.right hc.2⟩

/-- **An exact-input swap whose prices do not wrap keeps every pool stocked**, whether its input is paid or not. -/
theorem exactInput_stocked (hinj : Function.Injective2 cfg.makeExchangeAddress)
    (hu : ∀ i j, u ≠ cfg.makeExchangeAddress i j) (hst : Conserved st)
    (hr : routeWithExactInput cfg .release st u v a b x lim fee = some (.ok r)) (hfits : InputFits cfg st a b x)
    (hpay : pay .release st r.payments = some (done, st')) (hc : Stocked cfg st c) : Stocked cfg st' c := by
  have hpay := pay_checked hst hpay
  have hue : ∀ c, u ≠ getExchangeAddress cfg st.inherentAsset c := fun c => hu _ c
  unfold InputFits at hfits
  rcases exactInput_cases hr with ⟨rfl, y, hy, rfl⟩ | ⟨ha, rfl, y, hy, rfl⟩ | ⟨ha, hb, m, y, hm, hy, rfl⟩
  · rw [if_pos rfl] at hfits
    obtain ⟨hi, ho, hy⟩ := calcOutput_quote (f := fee) hy hfits
    by_cases hcb : c = b
    · subst hcb
      exact stocked_of_pay hpay (hop_stocked (hue _) hpay hi ho (Or.inl (hy.trans_lt (quote_lt hi ho))))
    · exact others_stocked hpay (hop_payers hinj hu hcb) hc
  · rw [if_neg ha] at hfits
    obtain ⟨hi, ho, hy⟩ := calcOutput_quote (f := fee) hy hfits.1
    by_cases hca : c = a
    · subst hca
      exact stocked_of_pay hpay ((hop_stocked (hue _) hpay hi ho (Or.inl (hy.trans_lt (quote_lt hi ho)))).symm)
    · exact others_stocked hpay (hop_payers hinj hu hca) hc
  · rw [if_neg ha] at hfits
    obtain ⟨hPa, hIa, hm'⟩ := calcOutput_quote (f := fee) hm hfits.1
    have hmlt := hm'.trans_lt (quote_lt hPa hIa)
    by_cases hab : a = b
    · subst hab
      have hcross : m.toNat + st.holdings st.inherentAsset (getExchangeAddress cfg st.inherentAsset a) < 2 ^ 128 := by
        rw [(calcOutput_eq (f := fee) hm).2.2.2]
        exact hfits.2 rfl
      obtain ⟨_, _, hy⟩ := calcOutput_quote (f := fee) hy hcross
      by_cases hca : c = a
      · subst hca
        exact stocked_of_pay hpay (back_stocked (hue _) ha hpay hPa hIa (Or.inl (hy.trans_lt (quote_lt hIa hPa))))
      · exact others_stocked hpay (across_payers hinj hu hca hca) hc
    · have hne := exchange_ne (i := st.inherentAsset) hinj hab
      have hcross : m.toNat + st.holdings st.inherentAsset (getExchangeAddress cfg st.inherentAsset b) < 2 ^ 128 := by
        have hpair := hst.pair_lt st.inherentAsset hne
        change m.toNat < st.holdings st.inherentAsset (getExchangeAddress cfg st.inherentAsset a) at hmlt
        omega
      obtain ⟨hIb, hPb, hy⟩ := calcOutput_quote (f := fee) hy hcross
      obtain ⟨hA, hB⟩ := across_stocked (hue _) hne ha hb hab hpay hPa hIa hIb hPb hmlt.ne
        (Or.inr (hy.trans_lt (quote_lt hIb hPb)).ne)
      by_cases hca : c = a
      · subst hca
        exact stocked_of_pay hpay hA.symm
      · by_cases hcb : c = b
        · subst hcb
          exact stocked_of_pay hpay hB
        · exact others_stocked hpay (across_payers hinj hu hca hcb) hc

/-- A price of everything is never paid, and any other price means that the output is less than the reserve. -/
theorem output_leaves {e : A} {i j : AssetId} {f : BitVec 64} (hst : Conserved st) (hue : u ≠ e)
    (hx : calcInputAtKnownOutput .release y (st.balances (i, e)) (st.balances (j, e)) f = some (.ok x))
    (hy : v = e ∨ y ≠ st.balances (j, e)) : 0 < st.holdings i e ∧ 0 < st.holdings j e ∧
      (y.toNat < st.holdings j e ∨ v = e ∨ (¬ st.Covered u i x ∧ y.toNat ≠ st.holdings j e)) := by
  obtain ⟨hi, hj, hprice⟩ := calcInput_ok hx
  refine ⟨holdings_pos hi, holdings_pos hj, ?_⟩
  rcases hprice with ⟨_, rfl⟩ | ⟨hlt, _⟩
  · rcases hy with hv | hne
    · exact Or.inr (Or.inl hv)
    · exact Or.inr (Or.inr ⟨not_covered_max hst hue (holdings_pos hi), fun he => hne (BitVec.eq_of_toNat_eq he)⟩)
  · exact Or.inl (BitVec.lt_def.mp hlt)

/-- On the way from an asset to itself, a crossing at the price of everything has the price of everything. -/
theorem back_output_leaves {e : A} {i : AssetId} {m : Balance} {f : BitVec 64} (hst : Conserved st) (hue : u ≠ e)
    (hm : calcInputAtKnownOutput .release y (st.balances (i, e)) (st.balances (a, e)) f = some (.ok m))
    (hx : calcInputAtKnownOutput .release m (st.balances (a, e)) (st.balances (i, e)) f = some (.ok x))
    (hy : v = e ∨ y ≠ st.balances (a, e)) :
    y.toNat < st.holdings a e ∨ v = e ∨ (¬ st.Covered u a x ∧ y.toNat ≠ st.holdings a e) := by
  obtain ⟨hi, _, hprice⟩ := calcInput_ok hx
  obtain ⟨_, _, hmprice⟩ := calcInput_ok hm
  rcases hmprice with ⟨_, rfl⟩ | ⟨hlt, _⟩
  · have hmax : x = BitVec.allOnes 128 := by
      rcases hprice with ⟨_, hmax⟩ | ⟨hlt, _⟩
      · exact hmax
      · exact absurd hlt BitVec.not_allOnes_lt
    rcases hy with hv | hne
    · exact Or.inr (Or.inl hv)
    · refine Or.inr (Or.inr ⟨?_, fun he => hne (BitVec.eq_of_toNat_eq he)⟩)
      rw [hmax]
      exact not_covered_max hst hue (holdings_pos hi)
  · exact Or.inl (BitVec.lt_def.mp hlt)

/-- What crosses between two exchanges is not all that the first one has: that is more than any balance where the price
is everything, and the output itself otherwise. -/
theorem crossing_leaves {e e' : A} {i : AssetId} {m : Balance} {f : BitVec 64} (hst : Conserved st) (he : e ≠ e')
    (hm : calcInputAtKnownOutput .release y (st.balances (i, e')) (st.balances (b, e')) f = some (.ok m))
    (hy : y = st.balances (i, e) → st.balances (b, e') ≤ y) : m.toNat ≠ st.holdings i e := by
  obtain ⟨hi, _, hprice⟩ := calcInput_ok hm
  rcases hprice with ⟨_, rfl⟩ | ⟨hlt, rfl⟩
  · have hpair := hst.pair_lt i he
    have hpos := holdings_pos hi
    have hall : (BitVec.allOnes 128).toNat = 2 ^ 128 - 1 := by simp
    omega
  · intro hsame
    exact absurd hlt (BitVec.not_lt.mpr (hy (BitVec.eq_of_toNat_eq hsame)))

/-- **An exact-output swap that leaves something of its output keeps every pool stocked.** -/
theorem exactOutput_stocked (hinj : Function.Injective2 cfg.makeExchangeAddress)
    (hu : ∀ i j, u ≠ cfg.makeExchangeAddress i j) (hst : Conserved st)
    (hr : routeWithExactOutput cfg .release st u v a b y lim fee = some (.ok r)) (hleaves : OutputLeaves cfg st v a b y)
    (hpay : pay .release st r.payments = some (done, st')) (hc : Stocked cfg st c) : Stocked cfg st' c := by
  have hpay := pay_checked hst hpay
  have hue : ∀ c, u ≠ getExchangeAddress cfg st.inherentAsset c := fun c => hu _ c
  obtain ⟨hlast, hacross⟩ := hleaves
  unfold lastExchange at hlast
  rcases exactOutput_cases hr with ⟨rfl, x, hx, rfl⟩ | ⟨ha, rfl, x, hx, rfl⟩ | ⟨ha, hb, m, x, hm, hx, rfl⟩
  · have hpool : (if b = st.inherentAsset then st.inherentAsset else b) = b := by
      split
      · exact Eq.symm ‹_›
      · rfl
    rw [hpool] at hlast
    obtain ⟨hi, hj, hy⟩ := output_leaves (f := fee) hst (hue b) hx hlast
    by_cases hcb : c = b
    · subst hcb
      exact stocked_of_pay hpay (hop_stocked (hue _) hpay hi hj hy)
    · exact others_stocked hpay (hop_payers hinj hu hcb) hc
  · rw [if_pos rfl] at hlast
    obtain ⟨hi, hj, hy⟩ := output_leaves (f := fee) hst (hue a) hx hlast
    by_cases hca : c = a
    · subst hca
      exact stocked_of_pay hpay ((hop_stocked (hue _) hpay hi hj hy).symm)
    · exact others_stocked hpay (hop_payers hinj hu hca) hc
  · rw [if_neg hb] at hlast
    obtain ⟨hIb, hPb, _⟩ := calcInput_ok (f := fee) hm
    obtain ⟨hPa, hIa, _⟩ := calcInput_ok (f := fee) hx
    by_cases hab : a = b
    · subst hab
      have hy := back_output_leaves (f := fee) hst (hue a) hm hx hlast
      by_cases hca : c = a
      · subst hca
        exact stocked_of_pay hpay (back_stocked (hue _) ha hpay (holdings_pos hPa) (holdings_pos hIa) hy)
      · exact others_stocked hpay (across_payers hinj hu hca hca) hc
    · have hne := exchange_ne (i := st.inherentAsset) hinj hab
      have hmne := crossing_leaves (f := fee) hst hne hm (hacross ha hb hab)
      have hyne : v = getExchangeAddress cfg st.inherentAsset b ∨
          y.toNat ≠ st.holdings b (getExchangeAddress cfg st.inherentAsset b) :=
        hlast.imp_right fun hne he => hne (BitVec.eq_of_toNat_eq he)
      obtain ⟨hA, hB⟩ := across_stocked (hue _) hne ha hb hab hpay (holdings_pos hPa) (holdings_pos hIa)
        (holdings_pos hIb) (holdings_pos hPb) hmne hyne
      by_cases hca : c = a
      · subst hca
        exact stocked_of_pay hpay hA.symm
      · by_cases hcb : c = b
        · subst hcb
          exact stocked_of_pay hpay hB
        · exact others_stocked hpay (across_payers hinj hu hca hcb) hc

end Swaps

/-! ## Liquidity -/

/-- A first injection stocks the pool: on each side the exchange holds something, or the deposit is made. -/
def DepositsStock (cfg : Config A) (st : Assets A) (u : A) (a : AssetId) (x y : Balance) : Prop :=
  if a = st.inherentAsset then
    inherentReserve cfg st a ≠ 0 ∨ st.Covered u st.inherentAsset x ∨ st.Covered u st.inherentAsset y
  else (inherentReserve cfg st a ≠ 0 ∨ st.Covered u st.inherentAsset x) ∧
    (pairedReserve cfg st a ≠ 0 ∨ st.Covered u a y)

/-- A redemption takes all liquidity, or leaves something of both reserves. -/
def RedemptionLeaves (cfg : Config A) (s : Chain A) (a : AssetId) (x : Balance) : Prop :=
  let y := redeemed s a x (inherentReserve cfg s.assets a)
  let z := redeemed s a x (pairedReserve cfg s.assets a)
  x = s.swap.totalLiquidities a ∨
  if a = s.assets.inherentAsset then
    y ≠ inherentReserve cfg s.assets a ∧ y.toNat + y.toNat ≠ (inherentReserve cfg s.assets a).toNat
  else x < s.swap.totalLiquidities a ∨ (y ≠ inherentReserve cfg s.assets a ∧ z ≠ pairedReserve cfg s.assets a)

section Liquidity
variable {cfg : Config A} {s s' : Chain A} {st st' : Assets A} {u : A} {a : AssetId} {x y z : Balance}
  {done : List Bool}

theorem deposits_stocked (hu : u ≠ getExchangeAddress cfg st.inherentAsset a)
    (h : pay .checked st (deposits cfg st u a x y) = some (done, st')) (hstock : DepositsStock cfg st u a x y) :
    Stocked cfg st' a := by
  unfold Stocked
  rw [reserves_pay h]
  unfold DepositsStock at hstock
  unfold deposits at h
  obtain ⟨st₁, done₁, h, hin₁, hgrow₁, hother₁, hkept₁⟩ := pay_input hu h
  obtain ⟨st₂, done₂, h, hin₂, hgrow₂, _, _⟩ := pay_input hu h
  rw [(pay_nil h).2]
  by_cases ha : a = st.inherentAsset
  · rw [if_pos ha] at hstock
    have hone : 0 < st₂.holdings a (getExchangeAddress cfg st.inherentAsset a) := by
      by_cases hfirst : inherentReserve cfg st a ≠ 0 ∨ st.Covered u st.inherentAsset x
      · rw [congrArg st₂.holdings ha]
        exact (hin₁ (hfirst.imp_left holdings_pos)).trans_le (hgrow₂ _)
      · have hsecond : st.Covered u a y := by
          rcases hstock with hI | hx | hy
          · exact absurd (Or.inl hI) hfirst
          · exact absurd (Or.inr hx) hfirst
          · rw [ha]
            exact hy
        rw [hkept₁ (fun hx => hfirst (Or.inr hx))] at hin₂
        exact hin₂ (Or.inr hsecond)
    refine ⟨?_, hone⟩
    rw [← congrArg st₂.holdings ha]
    exact hone
  · rw [if_neg ha] at hstock
    refine ⟨(hin₁ (hstock.1.imp_left holdings_pos)).trans_le (hgrow₂ _), hin₂ ?_⟩
    rw [hother₁ a ha]
    refine hstock.2.imp holdings_pos fun hy => ⟨hy.1, ?_⟩
    have hsame := hother₁ a ha u
    rw [BitVec.le_def]
    exact hy.le.trans_eq hsame.symm

theorem payouts_leave (hstocked : Stocked cfg s.assets a) (hleaves : RedemptionLeaves cfg s a x)
    (hy : Redeems .release s a x (inherentReserve cfg s.assets a) y)
    (hz : Redeems .release s a x (pairedReserve cfg s.assets a) z)
    (h : pay .checked s.assets (payouts cfg s.assets u a y z) = some (done, st')) :
    x = s.swap.totalLiquidities a ∨ Stocked cfg st' a := by
  unfold RedemptionLeaves at hleaves
  dsimp only at hleaves
  rw [← hy.eq, ← hz.eq] at hleaves
  refine hleaves.imp_right fun hleaves => ?_
  unfold Stocked
  rw [reserves_pay h]
  have hne : ∀ {b c : Balance}, b ≠ c → b.toNat ≠ c.toNat := fun hbc he => hbc (BitVec.eq_of_toNat_eq he)
  by_cases ha : a = s.assets.inherentAsset
  · rw [if_pos ha] at hleaves
    have hsame : pairedReserve cfg s.assets a = inherentReserve cfg s.assets a := pairedReserve_inherent ha
    have hzy : z = y := by rw [hy.eq, hz.eq, hsame]
    refine payouts_stocked h hstocked.1 hstocked.2 (hne hleaves.1) ?_ fun _ => ⟨hzy, hleaves.2⟩
    rw [hzy]
    have := hne hleaves.1
    rwa [← hsame] at this
  · rw [if_neg ha] at hleaves
    have hboth : y.toNat ≠ (inherentReserve cfg s.assets a).toNat ∧ z.toNat ≠ (pairedReserve cfg s.assets a).toNat := by
      rcases hleaves with hlt | ⟨hyne, hzne⟩
      · have hlt := BitVec.lt_def.mp hlt
        have hbound : ∀ {reserve w : Balance}, Redeems .release s a x reserve w → 0 < reserve.toNat →
            w.toNat < reserve.toNat := by
          intro reserve w hw hpos
          rw [hw.eq, redeemed, BitVec.toNat_udiv, BitVec.toNat_mul]
          exact (Nat.div_le_div_right (Nat.mod_le _ _)).trans_lt (redeem_lt hpos hlt)
        exact ⟨(hbound hy hstocked.1).ne, (hbound hz hstocked.2).ne⟩
      · exact ⟨hne hyne, hne hzne⟩
    exact payouts_stocked h hstocked.1 hstocked.2 hboth.1 hboth.2 fun he => absurd he.symm ha

end Liquidity

/-! ## Runs -/

/-- Liquidity is backed: holdings are conserved, and every pool with liquidity is stocked. -/
structure PoolsBacked (cfg : Config A) [Fintype A] (s : Chain A) : Prop where
  conserved : Conserved s.assets
  stocked : ∀ c, s.swap.totalLiquidities c ≠ 0 → Stocked cfg s.assets c

/-- The next asset id does not wrap, and the inherent asset stays while there is liquidity. -/
def BackedAssets (s : Chain A) : Assets.Call A → Prop
  | .issue _ => s.assets.nextAssetId.toNat + 1 < 2 ^ 64
  | .setInherentAsset asset => asset = s.assets.inherentAsset ∨ ∀ c, s.swap.totalLiquidities c = 0
  | _ => True

/-- A swap that is priced leaves something of each reserve, a first injection of something is deposited, and a
redemption takes all liquidity or leaves something. -/
def BackedSwap (cfg : Config A) (s : Chain A) (origin : Origin A) : Call A → Prop
  | .setFeeRate _ => True
  | .swapAssetsWithExactInput _ a b x _ => InputFits cfg s.assets a b x
  | .swapAssetsWithExactOutput v a b y _ =>
      (∃ x, InputPrice cfg s.assets a b y x) → OutputLeaves cfg s.assets v a b y
  | .addLiquidity a x y _ => s.swap.totalLiquidities a = 0 → x ≠ 0 →
      ∀ u, origin = .signed u → DepositsStock cfg s.assets u a x y
  | .removeLiquidity a x _ _ => RedemptionLeaves cfg s a x

/-- The actions of the argument: later blocks, and calls of the assets and swap pallets that no exchange signs and that
keep liquidity backed. -/
def BackedStep (cfg : Config A) (s : Chain A) : Action A → Prop
  | .advance _ => True
  | .call origin (.assets call) =>
      (∀ i j, origin ≠ .signed (cfg.makeExchangeAddress i j)) ∧ BackedAssets s call
  | .call origin (.swap call) =>
      (∀ i j, origin ≠ .signed (cfg.makeExchangeAddress i j)) ∧ BackedSwap cfg s origin call
  | .call _ (.lending _) => False

section Runs
variable [Fintype A] {cfg : Config A} {s s' : Chain A}

omit [Fintype A] in
theorem assets_inherent {p : Profile} {st st' : Assets A} {origin : Origin A} {call : Assets.Call A}
    (h : Assets.Step p st origin call st') (hcall : ∀ b, call ≠ .setInherentAsset b) :
    st'.inherentAsset = st.inherentAsset := by
  cases h with
  | unsigned => rfl
  | issued hi =>
    obtain ⟨next, _, hi⟩ := Option.bind_eq_some_iff.mp hi
    cases hi
    rfl
  | destroyed hd =>
    unfold destroy at hd
    dsimp only at hd
    split at hd
    · cases hd
      rfl
    · obtain ⟨total, _, hd⟩ := Option.bind_eq_some_iff.mp hd
      cases hd
      rfl
  | transferred ht =>
    obtain ⟨balances, rfl⟩ := (transferDropped_moves ht).frame
    rfl
  | inherent => exact absurd rfl (hcall _)
  | notRoot => rfl
  | priced => rfl

/-- Calls of the assets pallet take nothing from an exchange, and move the pools only while there is no liquidity. -/
theorem assets_backed {origin : Origin A} {call : Assets.Call A} {r : Except DispatchError Unit}
    (hs : PoolsBacked cfg s) (hsigner : ∀ i j, origin ≠ .signed (cfg.makeExchangeAddress i j))
    (hcall : BackedAssets s call) (hd : Assets.dispatch .release s origin call = some (r, s')) :
    PoolsBacked cfg s' := by
  have hnext : s.assets.nextAssetId.toNat + (isIssue (.call origin (.assets call))).toNat < 2 ^ 64 := by
    cases call with
    | issue total =>
      have hfits : s.assets.nextAssetId.toNat + 1 < 2 ^ 64 := hcall
      have hone := Bool.toNat_le (isIssue (.call origin (.assets (.issue total))))
      omega
    | _ =>
      cases origin <;> exact s.assets.nextAssetId.isLt
  refine ⟨(dispatch_conserved hs.conserved hnext hd).1, fun c hc => ?_⟩
  have hheld : ∀ id i j, s.assets.holdings id (cfg.makeExchangeAddress i j) ≤
      s'.assets.holdings id (cfg.makeExchangeAddress i j) := fun id i j =>
    dispatch_holdings_le (fun hm hy => hm.kept hs.conserved hy id) hd (hsigner i j)
  obtain ⟨st', hstep, rfl⟩ := Assets.dispatch_cases hd
  have hinherent : st'.inherentAsset = s.assets.inherentAsset := by
    by_cases hset : ∃ b, call = .setInherentAsset b
    · obtain ⟨b, rfl⟩ := hset
      rcases hcall with hb | hzero
      · cases hstep with
        | unsigned => rfl
        | inherent => exact hb
      · exact absurd (hzero c) hc
    · exact assets_inherent hstep fun b hb => hset ⟨b, hb⟩
  obtain ⟨hi, hj⟩ := hs.stocked c hc
  unfold Stocked reserves
  rw [hinherent]
  exact ⟨hi.trans_le (hheld _ _ _), hj.trans_le (hheld _ _ _)⟩

theorem swapped_stocked {u : A} {call : Call A} {r : Route A} {done : List Bool} {st' : Assets A} {c : AssetId}
    (hinj : Function.Injective2 cfg.makeExchangeAddress) (hu : ∀ i j, u ≠ cfg.makeExchangeAddress i j)
    (hs : Conserved s.assets) (hcall : BackedSwap cfg s (.signed u) call)
    (hroute : routeOf cfg .release s u call = some (.ok r)) (hpay : pay .release s.assets r.payments = some (done, st'))
    (hc : Stocked cfg s.assets c) : Stocked cfg st' c := by
  cases call with
  | swapAssetsWithExactInput v a b x lim => exact exactInput_stocked hinj hu hs hroute hcall hpay hc
  | swapAssetsWithExactOutput v a b y lim =>
    have hleaves := hcall ⟨r.amount, exactOutput_amount_iff.mp ⟨r, hroute, rfl⟩⟩
    exact exactOutput_stocked hinj hu hs hroute hleaves hpay hc
  | _ => cases hroute

theorem injected_stocked {u : A} {a c : AssetId} {x y lo : Balance} (hu : ∀ i j, u ≠ cfg.makeExchangeAddress i j)
    (hs : PoolsBacked cfg s) (hcall : BackedSwap cfg s (.signed u) (.addLiquidity a x y lo))
    (hadd : _addLiquidity cfg .release s u a x y lo = some s') (hc : s'.swap.totalLiquidities c ≠ 0) :
    Stocked cfg s'.assets c := by
  obtain ⟨done, st', m, share, total, hpay, hm, htotal, rfl⟩ := addLiquidity_cases hadd
  have hpay := pay_checked hs.conserved hpay
  have hpayer : ∀ t ∈ deposits cfg s.assets u a x y, t.payer ≠ getExchangeAddress cfg s.assets.inherentAsset c := by
    simp only [deposits, List.forall_mem_cons, List.not_mem_nil, false_implies, implies_true, and_true]
    exact ⟨hu _ _, hu _ _⟩
  by_cases hold : s.swap.totalLiquidities c = 0
  · change Function.update s.swap.totalLiquidities a total c ≠ 0 at hc
    by_cases hca : c = a
    · subst hca
      rw [Function.update_self, add_eq htotal, hold, hm.eq.1, minted, if_pos hold] at hc
      have hx : x ≠ 0 := fun hx => hc (by rw [hx]; rfl)
      exact deposits_stocked (hu _ _) hpay (hcall hold hx u rfl)
    · rw [Function.update_of_ne hca] at hc
      exact absurd hold hc
  · exact others_stocked hpay hpayer (hs.stocked c hold)

theorem redeemed_stocked {u : A} {a c : AssetId} {x lo hi : Balance}
    (hinj : Function.Injective2 cfg.makeExchangeAddress) (hs : PoolsBacked cfg s) (hleaves : RedemptionLeaves cfg s a x)
    (hremove : _removeLiquidity cfg .release s u a x lo hi = some s') (hc : s'.swap.totalLiquidities c ≠ 0) :
    Stocked cfg s'.assets c := by
  obtain ⟨y, z, done, st', left, total, hy, hz, hpay, _, htotal, rfl⟩ := removeLiquidity_cases hremove
  have hpay := pay_checked hs.conserved hpay
  change Function.update s.swap.totalLiquidities a total c ≠ 0 at hc
  by_cases hca : c = a
  · subst hca
    rw [Function.update_self, sub_eq htotal] at hc
    have hstocked := hs.stocked c hy.total_ne
    refine (payouts_leave hstocked hleaves hy hz hpay).resolve_left fun hall => hc ?_
    rw [hall]
    exact BitVec.sub_self _
  · rw [Function.update_of_ne hca] at hc
    refine others_stocked hpay ?_ (hs.stocked c hc)
    simp only [payouts, List.forall_mem_cons, List.not_mem_nil, false_implies, implies_true, and_true]
    exact ⟨exchange_ne hinj (Ne.symm hca), exchange_ne hinj (Ne.symm hca)⟩

theorem swap_backed {origin : Origin A} {call : Call A} {r : Except DispatchError Unit}
    (hinj : Function.Injective2 cfg.makeExchangeAddress) (hs : PoolsBacked cfg s)
    (hsigner : ∀ i j, origin ≠ .signed (cfg.makeExchangeAddress i j)) (hcall : BackedSwap cfg s origin call)
    (hd : dispatch cfg .release s origin call = some (r, s')) : PoolsBacked cfg s' := by
  have hu : ∀ {u}, origin = .signed u → ∀ i j, u ≠ cfg.makeExchangeAddress i j := by
    intro u ho i j he
    exact hsigner i j (by rw [ho, he])
  refine ⟨(swap_moves hd).1.conserved hs.conserved, fun c hc => ?_⟩
  cases dispatch_cases hd with
  | refused => exact hs.stocked c hc
  | feeRate => exact hs.stocked c hc
  | swapped hroute hpay => exact swapped_stocked hinj (hu rfl) hs.conserved hcall hroute hpay (hs.stocked c hc)
  | injected hadd => exact injected_stocked (hu rfl) hs hcall hadd hc
  | redeemed hremove => exact redeemed_stocked hinj hs hcall hremove hc

theorem step_backed {l : Action A} (hinj : Function.Injective2 cfg.makeExchangeAddress) (hs : PoolsBacked cfg s)
    (hl : BackedStep cfg s l) (hstep : step cfg .release s l = some s') : PoolsBacked cfg s' := by
  cases l with
  | advance block =>
    obtain ⟨_, rfl⟩ := step_advance hstep
    exact ⟨hs.conserved, hs.stocked⟩
  | call origin call =>
    obtain ⟨⟨r, t⟩, hd, rfl⟩ := Option.map_eq_some_iff.mp hstep
    cases call with
    | assets c => exact assets_backed hs hl.1 hl.2 hd
    | swap c => exact swap_backed hinj hs hl.1 hl.2 hd
    | lending c => exact absurd hl id

theorem genesis_backed {g : Genesis A} (hg : g.assets.length < 2 ^ 64) (h : genesis .release g = some s) :
    PoolsBacked cfg s := by
  obtain ⟨st, hst, h⟩ := Option.bind_eq_some_iff.mp h
  cases h
  have hconserved := genesisAssets_conserved (empty_conserved g.owner) (by change 0 + _ < _; omega) hst
  exact ⟨hconserved.1, fun c hc => absurd rfl hc⟩

/-- **Liquidity is backed.** In every state reached from genesis by actions that keep liquidity backed, the exchange of
every asset with liquidity holds some of the inherent asset and of the paired one, and no injection divides by zero. -/
theorem liquidity_backed {g : Genesis A} {t : Chain A} (hinj : Function.Injective2 cfg.makeExchangeAddress)
    (hg : g.assets.length < 2 ^ 64) (hs : genesis .release g = some s)
    (h : Run (step cfg .release) (BackedStep cfg) s t) (c : AssetId) :
    (t.swap.totalLiquidities c ≠ 0 →
      0 < t.assets.balances (t.assets.inherentAsset, getExchangeAddress cfg t.assets.inherentAsset c) ∧
      0 < t.assets.balances (c, getExchangeAddress cfg t.assets.inherentAsset c)) ∧
    ∀ u x y lo, ∃ t', _addLiquidity cfg .release t u c x y lo = some t' := by
  have ht : PoolsBacked cfg t := h.invariant (genesis_backed hg hs) (fun s l s' => step_backed hinj)
  refine ⟨fun hc => ?_, fun u x y lo => (addLiquidity_release_iff cfg t u c x y lo).mpr fun hc he => ?_⟩
  · obtain ⟨hi, hj⟩ := ht.stocked c hc
    exact ⟨BitVec.lt_def.mpr hi, BitVec.lt_def.mpr hj⟩
  · obtain ⟨hi, _⟩ := ht.stocked c hc
    change 0 < (inherentReserve cfg t.assets c).toNat at hi
    rw [he] at hi
    exact absurd hi (Nat.lt_irrefl 0)

end Runs

/-- User `1` opens the pool of asset `1`, swaps into it and redeems a part of its liquidity. -/
theorem liquidity_backed_pair : ∃ t, (∃ s, genesis .release pairGenesis = some s ∧
      Run (step pairConfig .release) (BackedStep pairConfig) s t) ∧
    t.swap.totalLiquidities 1 = 600 ∧
    0 < t.assets.balances (0, getExchangeAddress pairConfig 0 1) ∧
    0 < t.assets.balances (1, getExchangeAddress pairConfig 0 1) := by
  have hplay : ∃ s s₁ s₂ t, genesis .release pairGenesis = some s ∧
      step pairConfig .release s (.call (.signed (.inl 1)) (.swap (.addLiquidity 1 1000 1000 0))) = some s₁ ∧
      step pairConfig .release s₁
        (.call (.signed (.inl 1)) (.swap (.swapAssetsWithExactInput (.inl 1) 0 1 100 0))) = some s₂ ∧
      step pairConfig .release s₂ (.call (.signed (.inl 1)) (.swap (.removeLiquidity 1 400 0 0))) = some t ∧
      (s.assets.inherentAsset = 0 ∧ s.assets.Covered (.inl 1) 0 1000 ∧ s.assets.Covered (.inl 1) 1 1000) ∧
      (s₁.assets.inherentAsset = 0 ∧ reserves pairConfig s₁.assets 1 = (1000, 1000)) ∧
      (s₂.assets.inherentAsset = 0 ∧ s₂.swap.totalLiquidities 1 = 1000) ∧
      t.assets.inherentAsset = 0 ∧ t.swap.totalLiquidities 1 = 600 :=
    ⟨_, _, _, _, rfl, rfl, rfl, rfl, by decide, by decide, by decide, by decide, by decide⟩
  obtain ⟨s, s₁, s₂, t, hs, hadd, hswap, hremove, ⟨hi, hx, hy⟩, ⟨hi₁, hreserves⟩, ⟨hi₂, htotal⟩, hi₃, hleft⟩ := hplay
  have hsigner : ∀ i j, Origin.signed (.inl 1) ≠ .signed (pairConfig.makeExchangeAddress i j) :=
    fun i j he => pairConfig_user 1 i j (Origin.signed.inj he)
  have hadd_ok : BackedSwap pairConfig s (.signed (.inl 1)) (.addLiquidity 1 1000 1000 0) := by
    intro _ _ u hu
    cases hu
    unfold DepositsStock
    rw [hi, if_neg (by decide)]
    exact ⟨Or.inr hx, Or.inr hy⟩
  have hswap_ok : InputFits pairConfig s₁.assets 0 1 100 := by
    unfold InputFits
    rw [hi₁, if_pos rfl, hreserves]
    decide
  have hremove_ok : RedemptionLeaves pairConfig s₂ 1 400 := by
    unfold RedemptionLeaves
    rw [hi₂, htotal]
    exact Or.inr (Or.inl (by decide))
  have hrun : Run (step pairConfig .release) (BackedStep pairConfig) s t :=
    ((Run.refl.tail (l := .call _ (.swap _)) ⟨hsigner, hadd_ok⟩ hadd).tail
      (l := .call _ (.swap (.swapAssetsWithExactInput _ _ _ _ _))) ⟨hsigner, hswap_ok⟩ hswap).tail
      (l := .call _ (.swap (.removeLiquidity _ _ _ _))) ⟨hsigner, hremove_ok⟩ hremove
  have hbacked := (liquidity_backed pairConfig_injective (by decide) hs hrun 1).1
  rw [hi₃, hleft] at hbacked
  exact ⟨t, ⟨s, hs, hrun⟩, hleft, hbacked (by decide)⟩

/-- User `1` opens the pool of asset `1`, and user `2` sets the inherent asset to `5`: the liquidity is still out, the
exchange it is now looked up at is empty, and every injection divides by zero. -/
theorem another_inherent_asset : ∃ s t, genesis .release pairGenesis = some s ∧
    exec (step pairConfig .release) s [.call (.signed (.inl 1)) (.swap (.addLiquidity 1 1000 1000 0)),
      .call (.signed (.inl 2)) (.assets (.setInherentAsset 5))] = some t ∧
    t.assets.inherentAsset = 5 ∧ t.swap.totalLiquidities 1 = 1000 ∧
    t.assets.balances (5, getExchangeAddress pairConfig 5 1) = 0 ∧
    t.assets.balances (1, getExchangeAddress pairConfig 5 1) = 0 ∧
    _addLiquidity pairConfig .release t (.inl 1) 1 10 10 0 = none ∧
    ¬ (t.swap.totalLiquidities 1 ≠ 0 →
      0 < t.assets.balances (t.assets.inherentAsset, getExchangeAddress pairConfig t.assets.inherentAsset 1) ∧
      0 < t.assets.balances (1, getExchangeAddress pairConfig t.assets.inherentAsset 1)) :=
  ⟨_, _, rfl, rfl, by decide, by decide, by decide, by decide, rfl, by decide⟩

end Konomi.Swap
