import Konomi.Lending.Totals
import Konomi.Swap.Balances

/-!
# Value within a block

Of every asset an account has what is in its wallet and what it supplied, less what it owes (`net`), and the pallet has
what it holds and is owed, less what was supplied (`claims`). Between two blocks a call that completes moves value
between the three and neither makes nor destroys any: `net` changes only for the two parties of a liquidation, and
`claims` for nobody (`net_kept`, `claims_kept`). The one exception is a liquidation whose second transfer fails, which
keeps the payment and leaves the debt.
-/

namespace Konomi.Lending
open Machine Assets

variable {A : Type} [DecidableEq A] {cfg : Config A} {s s' : Chain A} {u : A} {a : AssetId} {side : Side}

/-- What a position is worth, by its view. -/
def amount (s : Chain A) (b : AssetId) (v : A) (side : Side) : Nat := ((view .release s b v side).getD 0).toNat

/-- The positions of an asset can be read. -/
def Viewed (b : AssetId) (s : Chain A) : Prop :=
  ∀ v, (getUserSupplyWithInterest .release s b v).isSome ∧ (getUserDebtWithInterest .release s b v).isSome

instance [Fintype A] (b : AssetId) (s : Chain A) : Decidable (Viewed b s) :=
  inferInstanceAs (Decidable (∀ _, _ ∧ _))

/-- What an account has of an asset. -/
def net (s : Chain A) (b : AssetId) (v : A) : Int :=
  s.assets.holdings b v + amount s b v .supply - amount s b v .debt

/-- What the pallet has of an asset. -/
def claims [Fintype A] (cfg : Config A) (s : Chain A) (b : AssetId) : Int :=
  s.assets.holdings b cfg.accountId + ∑ v, (amount s b v .debt : Int) - ∑ v, (amount s b v .supply : Int)

omit [DecidableEq A] in
theorem Shifted.amount_eq {change : AssetId → A → Side → Int} (h : Shifted s s' change) {b : AssetId}
    (hs : Viewed b s) (hs' : Viewed b s') (v : A) (side : Side) :
    (amount s' b v side : Int) = amount s b v side + change b v side := by
  have hboth : (view .release s b v side).isSome ∧ (view .release s' b v side).isSome := by
    cases side with
    | supply => exact ⟨(hs v).1, (hs' v).1⟩
    | debt => exact ⟨(hs v).2, (hs' v).2⟩
  obtain ⟨w, hw⟩ := Option.isSome_iff_exists.mp hboth.1
  obtain ⟨w', hw'⟩ := Option.isSome_iff_exists.mp hboth.2
  unfold amount
  rw [hw, hw']
  exact h b v side w w' hw hw'

theorem transfer_exact {p : Profile} {st st' : Assets A} {x y : A} {m : Balance} (hp : p.wraps = false)
    (h : st.transfer p x a y m = some (.ok st')) (b : AssetId) (v : A) :
    (st'.holdings b v : Int) = st.holdings b v +
      (if a = b ∧ y = v then (m.toNat : Int) else 0) - if a = b ∧ x = v then (m.toNat : Int) else 0 := by
  have hexact := Swap.make_exact (t := ⟨x, a, y, m⟩) hp h b v
  simp only [Swap.Payment.debit, Swap.Payment.credit] at hexact
  split_ifs at hexact ⊢ <;> omega

/-! ## The pallet -/

section Claims
variable [Fintype A] {b : AssetId}

omit [DecidableEq A] in
theorem Shifted.claims_eq {change : AssetId → A → Side → Int} (h : Shifted s s' change) (hs : Viewed b s)
    (hs' : Viewed b s') : claims cfg s' b = claims cfg s b +
      ((s'.assets.holdings b cfg.accountId : Int) - s.assets.holdings b cfg.accountId) +
        ∑ v, change b v .debt - ∑ v, change b v .supply := by
  unfold claims
  simp only [h.amount_eq hs hs', Finset.sum_add_distrib]
  ring

/-- A call on one's own position pays in what the caller owes less or supplied more. -/
theorem Posting.claims_eq {positive : Bool} {x : Balance} (d : Posting cfg .checked s u side positive a x)
    (hu : u ≠ cfg.accountId) (hs : Viewed b s) (hs' : Viewed b d.result) : claims cfg d.result b = claims cfg s b := by
  have hheld := transfer_exact rfl d.pays b cfg.accountId
  rw [(d.shifted Profile.checked_le_release rfl).claims_eq hs hs', sum_entry, sum_entry,
    show d.result.assets = d.assets from rfl, hheld]
  by_cases hb : b = a
  · subst hb
    cases side <;> cases positive <;> simp [payer, payee, inflow, hu]
  · simp [hb, Ne.symm hb]

/-- A liquidation pays in what the target owes less, and out what it supplied less. -/
theorem Settlement.claims_eq {t : A} {payId getId : AssetId} {x : Balance}
    (d : Settlement cfg .checked s u t payId getId x) (hu : u ≠ cfg.accountId) (hs : Viewed b s)
    (hs' : Viewed b d.result) : claims cfg d.result b = claims cfg s b := by
  have hpaid := transfer_exact rfl d.pays b cfg.accountId
  have hseized := transfer_exact rfl d.seizes b cfg.accountId
  rw [(d.shifted Profile.checked_le_release rfl).claims_eq hs hs']
  simp only [Finset.sum_add_distrib, sum_entry]
  rw [show d.result.assets = d.assets from rfl, hseized, hpaid]
  simp only [hu, and_true, and_false, if_false, reduceCtorEq, @eq_comm _ b payId, @eq_comm _ b getId]
  split_ifs <;> ring

end Claims

/-! ## An account -/

section Accounts
variable {b : AssetId} {w : A}

theorem Posting.net_eq {positive : Bool} {x : Balance} (d : Posting cfg .checked s u side positive a x)
    (hw : w ≠ cfg.accountId) (hs : Viewed b s) (hs' : Viewed b d.result) : net d.result b w = net s b w := by
  have hheld := transfer_exact rfl d.pays b w
  have hshift := d.shifted Profile.checked_le_release rfl
  unfold net
  rw [hshift.amount_eq hs hs', hshift.amount_eq hs hs', show d.result.assets = d.assets from rfl, hheld]
  unfold entry
  by_cases hb : b = a
  · subst hb
    by_cases hwu : w = u
    · subst hwu
      cases side <;> cases positive <;> simp [payer, payee, inflow, Ne.symm hw] <;> ring
    · cases side <;> cases positive <;> simp [payer, payee, inflow, Ne.symm hw, hwu, Ne.symm hwu]
  · simp [hb, Ne.symm hb]

/-- A liquidation leaves everybody alone but its two parties; who liquidates itself is left alone too. -/
theorem Settlement.net_eq {t : A} {payId getId : AssetId} {x : Balance}
    (d : Settlement cfg .checked s u t payId getId x) (hw : w ≠ cfg.accountId) (hparty : w = u ↔ w = t)
    (hs : Viewed b s) (hs' : Viewed b d.result) : net d.result b w = net s b w := by
  have hpaid := transfer_exact rfl d.pays b w
  have hseized := transfer_exact rfl d.seizes b w
  have hshift := d.shifted Profile.checked_le_release rfl
  unfold net
  rw [hshift.amount_eq hs hs', hshift.amount_eq hs hs', show d.result.assets = d.assets from rfl, hseized, hpaid]
  simp only [entry, ← hparty, reduceCtorEq, and_false, and_true, if_false, @eq_comm _ b payId, @eq_comm _ b getId,
    @eq_comm _ w u, Ne.symm hw]
  split_ifs <;> ring

end Accounts

/-! ## Runs within a block -/

/-- A lending call of an account other than the pallet, and not `init_pool`, that completes without overflow, and where
it is refused has moved nothing. -/
def Completes (cfg : Config A) (b : AssetId) (s : Chain A) : Action A → Prop
  | .call (.signed u) (.lending call) => u ≠ cfg.accountId ∧ (∀ id c, call ≠ .initPool id c) ∧
      ∃ r s', dispatch cfg .checked s (.signed u) call = some (r, s') ∧ (r = .ok () ∨ s'.assets = s.assets) ∧
        Viewed b s'
  | _ => False

/-- `w` is no party of a liquidation, or both. -/
def Bystander (w : A) : Action A → Prop
  | .call (.signed u) (.lending (.liquidate t _ _ _)) => w = u ↔ w = t
  | _ => True

section Runs
variable {b : AssetId} {w : A} {l : Action A}

/-- What a call that completes leaves: the same positions and holdings, or those of a posting or a settlement. -/
theorem completes_cases (h : step cfg .release s l = some s') (hl : Completes cfg b s l) : Viewed b s' ∧
    ((Shifted s s' (fun _ _ _ => 0) ∧ s'.assets = s.assets) ∨
      (∃ u side positive a x, ∃ d : Posting cfg .checked s u side positive a x, u ≠ cfg.accountId ∧ s' = d.result) ∨
      ∃ u t payId getId x, ∃ d : Settlement cfg .checked s u t payId getId x, u ≠ cfg.accountId ∧ s' = d.result ∧
        l = .call (.signed u) (.lending (.liquidate t payId getId x))) := by
  match l, hl with
  | .call (.signed u) (.lending call), ⟨hu, hcall, r, s₁, hchecked, hr, hviewed⟩ =>
    obtain ⟨⟨r', t⟩, hd, rfl⟩ := Option.map_eq_some_iff.mp h
    cases hd.symm.trans (mono_dispatch cfg s (.signed u) call Profile.checked_le_release hchecked)
    have hle := Profile.checked_le_release
    refine ⟨hviewed, ?_⟩
    rcases dispatch_cases hchecked with ⟨v, hv, hstep⟩ | ⟨_, rfl⟩ | ⟨id, c, rfl, _, _⟩
    · cases hv
      cases hstep with
      | refused => exact Or.inl ⟨shifted_of_touched hle rfl rfl fun _ => Or.inl rfl, rfl⟩
      | touched side e entry stored accrues book =>
        exact Or.inl ⟨shifted_of_touched hle rfl (pools_setBook ..) (touched_setBook stored accrues book), rfl⟩
      | posted side positive entry d => exact Or.inr (Or.inl ⟨u, side, positive, _, _, d, hu, rfl⟩)
      | assessed e d => exact Or.inl ⟨shifted_of_touched hle rfl rfl (d.touched rfl), rfl⟩
      | halfway e d pays refuses =>
        exact Or.inl ⟨shifted_of_touched hle rfl rfl (d.touched rfl), hr.resolve_left (by simp)⟩
      | settled d => exact Or.inr (Or.inr ⟨u, _, _, _, _, d, hu, rfl, rfl⟩)
    · exact Or.inl ⟨shifted_of_touched hle rfl rfl fun _ => Or.inl rfl, rfl⟩
    · exact absurd rfl (hcall id c)

/-- **The pallet neither gains nor loses within a block.** Over any run of completed calls of any accounts, liquidations
among them, what the pallet holds and is owed of an asset less what was supplied to it stays the same. -/
theorem claims_kept [Fintype A] {t : Chain A} (hs : Viewed b s)
    (h : Run (step cfg .release) (Completes cfg b) s t) : claims cfg t b = claims cfg s b := by
  have hrun : Viewed b t ∧ claims cfg t b = claims cfg s b := by
    refine h.invariant (I := fun t => Viewed b t ∧ claims cfg t b = claims cfg s b) ⟨hs, rfl⟩ ?_
    rintro t l t' ⟨hview, hkept⟩ hl hstep
    obtain ⟨hview', ⟨hshift, hassets⟩ | ⟨u, side, positive, a, x, d, hu, rfl⟩ | ⟨u, v, payId, getId, x, d, hu, rfl, _⟩⟩ :=
      completes_cases hstep hl
    · refine ⟨hview', Eq.trans ?_ hkept⟩
      rw [hshift.claims_eq hview hview', hassets]
      simp
    · exact ⟨hview', (d.claims_eq hu hview hview').trans hkept⟩
    · exact ⟨hview', (d.claims_eq hu hview hview').trans hkept⟩
  exact hrun.2

/-- **Nobody gains or loses within a block.** Over any run of completed calls of any accounts, an account other than the
pallet that neither liquidates another nor is liquidated by another keeps the sum of its wallet and its supply less its
debt, of every asset. -/
theorem net_kept {t : Chain A} (hw : w ≠ cfg.accountId) (hs : Viewed b s)
    (h : Run (step cfg .release) (fun s l => Completes cfg b s l ∧ Bystander w l) s t) : net t b w = net s b w := by
  have hrun : Viewed b t ∧ net t b w = net s b w := by
    refine h.invariant (I := fun t => Viewed b t ∧ net t b w = net s b w) ⟨hs, rfl⟩ ?_
    rintro t l t' ⟨hview, hkept⟩ ⟨hl, hparty⟩ hstep
    obtain ⟨hview', ⟨hshift, hassets⟩ | ⟨u, side, positive, a, x, d, _, rfl⟩ |
      ⟨u, v, payId, getId, x, d, _, rfl, rfl⟩⟩ := completes_cases hstep hl
    · refine ⟨hview', Eq.trans ?_ hkept⟩
      unfold net
      rw [hshift.amount_eq hview hview', hshift.amount_eq hview hview', hassets]
      simp
    · exact ⟨hview', (d.net_eq hw hview hview').trans hkept⟩
    · exact ⟨hview', (d.net_eq hw hparty hview hview').trans hkept⟩
  exact hrun.2

end Runs

/-- User `1` liquidates user `2`, whose collateral has lost its price, and user `2` repays some of the rest. -/
theorem claims_kept_liquidation : ∃ s t, play mockConfig .release mockGenesis
      [.advance 1, .call (.signed 1) (.lending (.supply 0 100000)), .call (.signed 2) (.lending (.supply 1 100000)),
        .call (.signed 2) (.lending (.borrow 0 10000)),
        .call .root (.assets (.setPrice 1 ⟨5000000000000000000⟩)), .advance 1001] = some s ∧
    Run (step mockConfig .release) (Completes mockConfig 0) s t ∧
    t.assets.holdings 0 0 = s.assets.holdings 0 0 + 5750 ∧ claims mockConfig t 0 = claims mockConfig s 0 := by
  have hplay : ∃ s s₁ t, play mockConfig .release mockGenesis
        [.advance 1, .call (.signed 1) (.lending (.supply 0 100000)), .call (.signed 2) (.lending (.supply 1 100000)),
          .call (.signed 2) (.lending (.borrow 0 10000)),
          .call .root (.assets (.setPrice 1 ⟨5000000000000000000⟩)), .advance 1001] = some s ∧
      step mockConfig .release s (.call (.signed 1) (.lending (.liquidate 2 0 1 10000))) = some s₁ ∧
      step mockConfig .release s₁ (.call (.signed 2) (.lending (.repay 0 1000))) = some t ∧ Viewed 0 s ∧
      Completes mockConfig 0 s (.call (.signed 1) (.lending (.liquidate 2 0 1 10000))) ∧
      Completes mockConfig 0 s₁ (.call (.signed 2) (.lending (.repay 0 1000))) ∧
      t.assets.holdings 0 0 = s.assets.holdings 0 0 + 5750 :=
    ⟨_, _, _, rfl, rfl, rfl, by decide, ⟨by decide, nofun, _, _, rfl, Or.inl rfl, by decide⟩,
      ⟨by decide, nofun, _, _, rfl, Or.inl rfl, by decide⟩, by decide⟩
  obtain ⟨s, s₁, t, hs, hliquidate, hrepay, hview, hl, hr, hpaid⟩ := hplay
  have hrun := (Run.refl.tail hl hliquidate).tail hr hrepay
  exact ⟨s, t, hs, hrun, hpaid, claims_kept hview hrun⟩

/-- User `2` borrows a thousand blocks after its first loan, and user `1` withdraws. -/
theorem net_kept_mock : ∃ s t, play mockConfig .release mockGenesis
      [.advance 1, .call (.signed 1) (.lending (.supply 0 100000)), .call (.signed 2) (.lending (.supply 1 100000)),
        .call (.signed 2) (.lending (.borrow 0 10000)), .advance 1001] = some s ∧
    Run (step mockConfig .release) (fun s l => Completes mockConfig 0 s l ∧ Bystander 2 l) s t ∧
    t.assets.holdings 0 2 = s.assets.holdings 0 2 + 500 ∧ net t 0 2 = net s 0 2 := by
  have hplay : ∃ s s₁ t, play mockConfig .release mockGenesis
        [.advance 1, .call (.signed 1) (.lending (.supply 0 100000)), .call (.signed 2) (.lending (.supply 1 100000)),
          .call (.signed 2) (.lending (.borrow 0 10000)), .advance 1001] = some s ∧
      step mockConfig .release s (.call (.signed 2) (.lending (.borrow 0 500))) = some s₁ ∧
      step mockConfig .release s₁ (.call (.signed 1) (.lending (.withdraw 0 700))) = some t ∧ Viewed 0 s ∧
      Completes mockConfig 0 s (.call (.signed 2) (.lending (.borrow 0 500))) ∧
      Completes mockConfig 0 s₁ (.call (.signed 1) (.lending (.withdraw 0 700))) ∧
      t.assets.holdings 0 2 = s.assets.holdings 0 2 + 500 :=
    ⟨_, _, _, rfl, rfl, rfl, by decide, ⟨by decide, nofun, _, _, rfl, Or.inl rfl, by decide⟩,
      ⟨by decide, nofun, _, _, rfl, Or.inl rfl, by decide⟩, by decide⟩
  obtain ⟨s, s₁, t, hs, hborrow, hwithdraw, hview, hb, hw, hpaid⟩ := hplay
  have hrun : Run (step mockConfig .release) (fun s l => Completes mockConfig 0 s l ∧ Bystander 2 l) s t :=
    (Run.refl.tail ⟨hb, trivial⟩ hborrow).tail ⟨hw, trivial⟩ hwithdraw
  exact ⟨s, t, hs, hrun, hpaid, net_kept (by decide) hview hrun⟩

end Konomi.Lending
