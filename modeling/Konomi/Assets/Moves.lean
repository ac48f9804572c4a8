import Konomi.Lib.Ledger
import Konomi.Mono

/-!
# What the pallets do to balances

`transfer_cases` inverts a transfer. A transfer that succeeds is a `Ledger.move` of the holdings of one asset
(`holdings_transfer`) whenever the credited balance fits. `Moves p payer st st'` says that `st'` is `st` after
successful transfers, each from an account that satisfies `payer`: every swap and lending call is one, whatever it
returns. The calls of the assets pallet itself are inverted once (`dispatch_cases`).
-/

namespace Konomi
open Machine

variable {A : Type} [DecidableEq A]

namespace Assets

/-- The holdings of one asset as a ledger. -/
def holdings (st : Assets A) (id : AssetId) : A → Nat := fun u => (st.balances (id, u)).toNat

/-- The two checks of `transfer`. -/
def Covered (st : Assets A) (a : A) (id : AssetId) (x : Balance) : Prop := x ≠ 0 ∧ x ≤ st.balances (id, a)

instance (st : Assets A) (a : A) (id : AssetId) (x : Balance) : Decidable (st.Covered a id x) :=
  inferInstanceAs (Decidable (_ ∧ _))

/-- The balances after the debit of a transfer. -/
def debited (st : Assets A) (a : A) (id : AssetId) (x : Balance) : AssetId × A → Balance :=
  Function.update st.balances (id, a) (st.balances (id, a) - x)

section Transfer
variable {p : Profile} {st st' : Assets A} {a b : A} {id : AssetId} {x : Balance}

/-- A transfer fails its checks and reports it, or passes them and writes both balances. -/
theorem transfer_cases {r : Except String (Assets A)} (h : st.transfer p a id b x = some r) :
    (¬ st.Covered a id x ∧ ∃ e, r = .error e) ∨
    (st.Covered a id x ∧ ∃ v, p.add (st.debited a id x (id, b)) x = some v ∧
      r = .ok { st with balances := Function.update (st.debited a id x) (id, b) v }) := by
  unfold transfer at h
  dsimp only at h
  split at h
  · exact Or.inl ⟨fun hc => hc.1 ‹_›, _, (Option.some.inj h).symm⟩
  · split at h
    · exact Or.inl ⟨fun hc => absurd ‹_› (BitVec.not_lt.mpr hc.2), _, (Option.some.inj h).symm⟩
    · rename_i h0 hlt
      obtain ⟨v, hv, hr⟩ := Option.bind_eq_some_iff.mp h
      exact Or.inr ⟨⟨h0, BitVec.not_lt.mp hlt⟩, v, hv, (Option.some.inj hr).symm⟩

theorem transfer_ok (h : st.transfer p a id b x = some (.ok st')) :
    st.Covered a id x ∧ ∃ v, p.add (st.debited a id x (id, b)) x = some v ∧
      st' = { st with balances := Function.update (st.debited a id x) (id, b) v } := by
  rcases transfer_cases h with ⟨_, e, he⟩ | ⟨hc, v, hv, hr⟩
  · cases he
  · exact ⟨hc, v, hv, Except.ok.inj hr⟩

theorem transfer_error {e : String} (h : st.transfer p a id b x = some (.error e)) : ¬ st.Covered a id x := by
  rcases transfer_cases h with ⟨hc, _⟩ | ⟨_, v, _, hr⟩
  · exact hc
  · cases hr

theorem transfer_of_covered (hc : st.Covered a id x) : ∃ st', st.transfer .release a id b x = some (.ok st') := by
  unfold transfer
  dsimp only
  rw [if_neg hc.1, if_neg (BitVec.not_lt.mpr hc.2), add_release]
  exact ⟨_, rfl⟩

theorem transfer_of_not_covered (hc : ¬ st.Covered a id x) : ∃ e, st.transfer p a id b x = some (.error e) := by
  unfold transfer
  dsimp only
  split
  · exact ⟨_, rfl⟩
  · split
    · exact ⟨_, rfl⟩
    · rename_i h0 hlt
      exact absurd ⟨h0, BitVec.not_lt.mp hlt⟩ hc

theorem transfer_balances (h : st.transfer p a id b x = some (.ok st')) :
    st' = { st with
      balances := fun k => st.balances k - (if k = (id, a) then x else 0) + if k = (id, b) then x else 0 } := by
  obtain ⟨_, v, hv, rfl⟩ := transfer_ok h
  have hdebited : ∀ k, st.debited a id x k = st.balances k - if k = (id, a) then x else 0 := by
    intro k
    by_cases hk : k = (id, a)
    · rw [hk, debited, Function.update_self, if_pos rfl]
    · rw [debited, Function.update_of_ne hk, if_neg hk]
      exact (BitVec.sub_zero _).symm
  congr
  funext k
  rw [← hdebited]
  by_cases hk : k = (id, b)
  · rw [hk, Function.update_self, if_pos rfl]
    exact add_eq hv
  · rw [Function.update_of_ne hk, if_neg hk]
    exact (BitVec.add_zero _).symm

theorem transfer_comm {q : Profile} {st₁ st₂ st₁₂ st₂₁ : Assets A} {a' b' : A} {id' : AssetId} {x' : Balance}
    (h₁ : st.transfer p a id b x = some (.ok st₁)) (h₁₂ : st₁.transfer q a' id' b' x' = some (.ok st₁₂))
    (h₂ : st.transfer q a' id' b' x' = some (.ok st₂)) (h₂₁ : st₂.transfer p a id b x = some (.ok st₂₁)) :
    st₁₂ = st₂₁ := by
  rw [transfer_balances h₁₂, transfer_balances h₁, transfer_balances h₂₁, transfer_balances h₂]
  congr
  funext k
  dsimp only
  generalize (if k = (id, a) then x else 0) = out, (if k = (id, b) then x else 0) = into
  generalize (if k = (id', a') then x' else 0) = out', (if k = (id', b') then x' else 0) = into'
  bv_omega

theorem transfer_back {q : Profile} {st₁ st₂ : Assets A} (h₁ : st.transfer p a id b x = some (.ok st₁))
    (h₂ : st₁.transfer q b id a x = some (.ok st₂)) : st₂ = st := by
  rw [transfer_balances h₂, transfer_balances h₁]
  have hbalances : (fun k => st.balances k - (if k = (id, a) then x else 0) + (if k = (id, b) then x else 0) -
      (if k = (id, b) then x else 0) + if k = (id, a) then x else 0) = st.balances := by
    funext k
    generalize (if k = (id, a) then x else 0) = out, (if k = (id, b) then x else 0) = into
    bv_omega
  dsimp only
  rw [hbalances]

/-- What is passed on is transferred as if directly. -/
theorem transfer_through {q q' : Profile} {c : A} {st₁ st₂ st₃ : Assets A}
    (h₁ : st.transfer p a id c x = some (.ok st₁)) (h₂ : st₁.transfer q c id b x = some (.ok st₂))
    (h₃ : st.transfer q' a id b x = some (.ok st₃)) : st₂ = st₃ := by
  rw [transfer_balances h₂, transfer_balances h₁, transfer_balances h₃]
  congr
  funext k
  dsimp only
  generalize (if k = (id, a) then x else 0) = out, (if k = (id, c) then x else 0) = passed
  bv_omega

/-- Without a wrap, the payee can pay back. -/
theorem transfer_undone (hp : p.wraps = false) (h : st.transfer p a id b x = some (.ok st')) :
    st'.transfer .release b id a x = some (.ok st) := by
  have hcovered : st'.Covered b id x := by
    obtain ⟨hc, v, hv, rfl⟩ := transfer_ok h
    refine ⟨hc.1, ?_⟩
    show x ≤ Function.update (st.debited a id x) (id, b) v (id, b)
    rw [Function.update_self, BitVec.le_def, toNat_add hp hv]
    exact Nat.le_add_left _ _
  obtain ⟨st₂, h₂⟩ := transfer_of_covered (b := a) hcovered
  rw [h₂, transfer_back h h₂]

theorem payee_after {id' : AssetId} (h : st.transfer p a id b x = some (.ok st')) (hab : a ≠ b) :
    st'.balances (id', b) = st.balances (id', b) + if id' = id then x else 0 := by
  obtain ⟨_, v, hv, rfl⟩ := transfer_ok h
  show Function.update (st.debited a id x) (id, b) v (id', b) = _
  by_cases hid : id' = id
  · subst hid
    rw [Function.update_self, add_eq hv, debited, Function.update_of_ne (fun e => hab (Prod.mk.inj e).2.symm),
      if_pos rfl]
  · rw [Function.update_of_ne (fun e => hid (Prod.mk.inj e).1), debited,
      Function.update_of_ne (fun e => hid (Prod.mk.inj e).1), if_neg hid]
    exact (BitVec.add_zero _).symm

theorem payer_after (h : st.transfer p a id b x = some (.ok st')) (hab : a ≠ b) :
    st'.balances (id, a) = st.balances (id, a) - x := by
  obtain ⟨_, v, _, rfl⟩ := transfer_ok h
  show Function.update (st.debited a id x) (id, b) v (id, a) = _
  rw [Function.update_of_ne (fun e => hab (Prod.mk.inj e).2), debited, Function.update_self]

theorem transfer_other {id' : AssetId} {u : A} (h : st.transfer p a id b x = some (.ok st'))
    (hne : (id', u) ≠ (id, a)) (hne' : (id', u) ≠ (id, b)) : st'.balances (id', u) = st.balances (id', u) := by
  obtain ⟨_, v, _, rfl⟩ := transfer_ok h
  show Function.update (st.debited a id x) (id, b) v (id', u) = _
  rw [Function.update_of_ne hne', debited, Function.update_of_ne hne]

theorem holdings_debited (hc : st.Covered a id x) (u : A) :
    (st.debited a id x (id, u)).toNat = Function.update (st.holdings id) a (st.holdings id a - x.toNat) u := by
  by_cases hu : u = a
  · subst hu
    rw [debited, Function.update_self, Function.update_self, BitVec.toNat_sub_of_le hc.2]
    rfl
  · have hne : (id, u) ≠ (id, a) := fun h => hu (Prod.mk.inj h).2
    rw [debited, Function.update_of_ne hne, Function.update_of_ne hu]
    rfl

/-- **A transfer whose credit fits is a move of the ledger of its asset.** -/
theorem holdings_transfer (h : st.transfer p a id b x = some (.ok st'))
    (hfit : Ledger.move (st.holdings id) a b x.toNat b < 2 ^ 128) :
    st'.holdings id = Ledger.move (st.holdings id) a b x.toNat := by
  obtain ⟨hc, v, hv, rfl⟩ := transfer_ok h
  funext u
  show (Function.update (st.debited a id x) (id, b) v (id, u)).toNat = _
  by_cases hu : u = b
  · subst hu
    rw [Ledger.move, Function.update_self, ← holdings_debited hc] at hfit ⊢
    rw [Function.update_self, add_eq hv, BitVec.toNat_add, Nat.mod_eq_of_lt hfit]
  · have hne : (id, u) ≠ (id, b) := fun h => hu (Prod.mk.inj h).2
    rw [Ledger.move, Function.update_of_ne hne, Function.update_of_ne hu, holdings_debited hc]

theorem holdings_transfer_other {id' : AssetId} (h : st.transfer p a id b x = some (.ok st')) (hid : id' ≠ id) :
    st'.holdings id' = st.holdings id' := by
  funext u
  exact congrArg BitVec.toNat (transfer_other h (fun e => hid (Prod.mk.inj e).1) (fun e => hid (Prod.mk.inj e).1))

theorem credit_fits (hp : p.wraps = false) (h : st.transfer p a id b x = some (.ok st')) :
    Ledger.move (st.holdings id) a b x.toNat b < 2 ^ 128 := by
  obtain ⟨hc, v, hv, rfl⟩ := transfer_ok h
  rw [Ledger.move, Function.update_self, ← holdings_debited hc, ← toNat_add hp hv]
  exact v.isLt

theorem transfer_self (h : st.transfer p a id a x = some (.ok st')) : st' = st := by
  obtain ⟨hc, v, hv, rfl⟩ := transfer_ok h
  have hv : v = st.balances (id, a) := by
    rw [add_eq hv, debited, Function.update_self]
    exact BitVec.sub_add_cancel _ _
  rw [debited, Function.update_idem, hv, Function.update_eq_self]

end Transfer

/-! ## Sequences of transfers -/

/-- `st'` is `st` after successful transfers whose payers satisfy `payer`. -/
inductive Moves (p : Profile) (payer : A → Prop) (st : Assets A) : Assets A → Prop
  | refl : Moves p payer st st
  | tail {st₁ st₂ : Assets A} {a b : A} {id : AssetId} {x : Balance} :
      Moves p payer st st₁ → payer a → st₁.transfer p a id b x = some (.ok st₂) → Moves p payer st st₂

namespace Moves
variable {p : Profile} {payer payer' : A → Prop} {st st₁ st₂ : Assets A}

theorem one {a b : A} {id : AssetId} {x : Balance} (ha : payer a) (h : st.transfer p a id b x = some (.ok st₁)) :
    Moves p payer st st₁ := Moves.refl.tail ha h

theorem trans (h₁ : Moves p payer st st₁) (h₂ : Moves p payer st₁ st₂) : Moves p payer st st₂ := by
  induction h₂ with
  | refl => exact h₁
  | tail _ ha h ih => exact ih.tail ha h

theorem mono (hp : ∀ a, payer a → payer' a) (h : Moves p payer st st₁) : Moves p payer' st st₁ := by
  induction h with
  | refl => exact Moves.refl
  | tail _ ha h ih => exact ih.tail (hp _ ha) h

theorem frame (h : Moves p payer st st₁) : ∃ balances, st₁ = { st with balances := balances } := by
  induction h with
  | refl => exact ⟨st.balances, rfl⟩
  | tail _ _ h ih =>
    obtain ⟨balances, rfl⟩ := ih
    obtain ⟨_, v, _, rfl⟩ := transfer_ok h
    exact ⟨_, rfl⟩

theorem holdings_le (hp : p.wraps = false) (h : Moves p payer st st₁) {u : A} (hu : ¬ payer u) (id : AssetId) :
    st.holdings id u ≤ st₁.holdings id u := by
  induction h with
  | refl => exact le_refl _
  | @tail st₁ st₂ a b id' x _ ha h ih =>
    refine ih.trans ?_
    by_cases hid : id = id'
    · subst hid
      rw [holdings_transfer h (credit_fits hp h)]
      exact Ledger.le_move (fun e => hu (e ▸ ha))
    · rw [holdings_transfer_other h hid]

end Moves

theorem transferDropped_moves {p : Profile} {st st' : Assets A} {a b : A} {id : AssetId} {x : Balance}
    (h : st.transferDropped p a id b x = some st') : Moves p (· = a) st st' := by
  obtain ⟨r, hr, h⟩ := Option.bind_eq_some_iff.mp h
  cases r with
  | error e =>
    cases h
    exact Moves.refl
  | ok st₁ =>
    cases h
    exact Moves.one rfl hr

/-! ## Calls of the pallet -/

/-- What a call can do to the storage of the pallet. -/
inductive Step (p : Profile) (st : Assets A) : Origin A → Call A → Assets A → Prop
  | unsigned {origin : Origin A} {call : Call A} (h : ∀ u, origin ≠ .signed u) : Step p st origin call st
  | issued {u : A} {total : Balance} {st' : Assets A} (h : st.issue p u total = some st') :
      Step p st (.signed u) (.issue total) st'
  | destroyed {u : A} {id : AssetId} {r : Except DispatchError Unit} {st' : Assets A}
      (h : st.destroy p u id = some (r, st')) : Step p st (.signed u) (.destroy id) st'
  | transferred {u b : A} {id : AssetId} {x : Balance} {st' : Assets A}
      (h : st.transferDropped p u id b x = some st') : Step p st (.signed u) (.transferAsset id b x) st'
  | inherent {origin : Origin A} {asset : AssetId} :
      Step p st origin (.setInherentAsset asset) (st.setInherentAsset asset)
  | notRoot {origin : Origin A} {id : AssetId} {price : FixedU128} : Step p st origin (.setPrice id price) st
  | priced {id : AssetId} {price : FixedU128} : Step p st .root (.setPrice id price) (st.setPrice id price)

theorem price_of_step {p : Profile} {st st' : Assets A} {origin : Origin A} {call : Call A} {id : AssetId}
    (h : Step p st origin call st') (hcall : ∀ price, call = .setPrice id price → origin ≠ .root) :
    st'.price id = st.price id := by
  cases h with
  | unsigned => rfl
  | issued hi =>
    obtain ⟨next, _, hi⟩ := Option.bind_eq_some_iff.mp hi
    cases hi
    rfl
  | destroyed hd =>
    unfold destroy at hd
    dsimp only at hd
    split at hd
    · cases hd
      rfl
    · obtain ⟨total, _, hd⟩ := Option.bind_eq_some_iff.mp hd
      cases hd
      rfl
  | transferred ht =>
    obtain ⟨balances, rfl⟩ := (transferDropped_moves ht).frame
    rfl
  | inherent => rfl
  | notRoot => rfl
  | priced =>
    refine Function.update_of_ne ?_ ..
    rintro rfl
    exact hcall _ rfl rfl

section Calls
variable {p : Profile} {s s' : Chain A} {origin : Origin A} {call : Call A} {r : Except DispatchError Unit}

/-- **Every outcome of a call of the pallet**, which leaves the rest of the chain alone. -/
theorem dispatch_cases (h : dispatch p s origin call = some (r, s')) :
    ∃ st', Step p s.assets origin call st' ∧ s' = { s with assets := st' } := by
  cases call with
  | issue total =>
    rcases ensureSigned_cases h with ⟨u, rfl, h⟩ | ⟨hu, _, rfl⟩
    · obtain ⟨st', hst', h⟩ := Option.bind_eq_some_iff.mp h
      cases h
      exact ⟨st', Step.issued hst', rfl⟩
    · exact ⟨s'.assets, Step.unsigned hu, rfl⟩
  | destroy id =>
    rcases ensureSigned_cases h with ⟨u, rfl, h⟩ | ⟨hu, _, rfl⟩
    · obtain ⟨⟨r', st'⟩, hst', h⟩ := Option.bind_eq_some_iff.mp h
      cases h
      exact ⟨st', Step.destroyed hst', rfl⟩
    · exact ⟨s'.assets, Step.unsigned hu, rfl⟩
  | transferAsset id b x =>
    rcases ensureSigned_cases h with ⟨u, rfl, h⟩ | ⟨hu, _, rfl⟩
    · obtain ⟨st', hst', h⟩ := Option.bind_eq_some_iff.mp h
      cases h
      exact ⟨st', Step.transferred hst', rfl⟩
    · exact ⟨s'.assets, Step.unsigned hu, rfl⟩
  | setInherentAsset asset =>
    cases h
    exact ⟨_, Step.inherent, rfl⟩
  | setPrice id price =>
    cases origin with
    | root =>
      cases h
      exact ⟨_, Step.priced, rfl⟩
    | _ =>
      cases h
      exact ⟨_, Step.notRoot, rfl⟩

theorem destroy_balances {st st' : Assets A} {u : A} {id : AssetId} (h : st.destroy p u id = some (r, st')) :
    st'.balances = Function.update st.balances (id, u) 0 := by
  unfold destroy at h
  dsimp only at h
  split at h
  · cases h
    rfl
  · obtain ⟨total, _, h⟩ := Option.bind_eq_some_iff.mp h
    cases h
    rfl

theorem dispatch_holdings_le {y : A} {id : AssetId}
    (hmoves : ∀ {payer : A → Prop} {st' : Assets A}, Moves p payer s.assets st' → ¬ payer y →
      s.assets.holdings id y ≤ st'.holdings id y)
    (h : dispatch p s origin call = some (r, s')) (hy : origin ≠ .signed y) :
    s.assets.holdings id y ≤ s'.assets.holdings id y := by
  obtain ⟨st', hstep, rfl⟩ := dispatch_cases h
  have hother : ∀ {u : A}, origin = .signed u → ∀ id', (id, y) ≠ (id', u) :=
    fun hu id' e => hy (hu.trans (congrArg _ (Prod.mk.inj e).2.symm))
  cases hstep with
  | unsigned => exact le_refl _
  | issued hst' =>
    obtain ⟨next, _, hst'⟩ := Option.bind_eq_some_iff.mp hst'
    cases hst'
    exact le_of_eq (congrArg BitVec.toNat (Function.update_of_ne (hother rfl _) ..).symm)
  | destroyed hst' =>
    refine le_of_eq (congrArg BitVec.toNat ?_)
    rw [destroy_balances hst', Function.update_of_ne (hother rfl _)]
  | transferred hst' => exact hmoves (transferDropped_moves hst') (fun e => hy (congrArg _ e.symm))
  | inherent => exact le_refl _
  | notRoot => exact le_refl _
  | priced => exact le_refl _

end Calls

end Assets

/-! ## Swap calls -/

namespace Swap

theorem pay_moves {p : Profile} {ts : List (Payment A)} : ∀ {st st' : Assets A} {done : List Bool},
    pay p st ts = some (done, st') → Assets.Moves p (fun a => ∃ t ∈ ts, t.payer = a) st st' := by
  induction ts with
  | nil =>
    intro st st' done h
    cases h
    exact Assets.Moves.refl
  | cons t ts ih =>
    intro st st' done h
    have hrest : ∀ a, (∃ t' ∈ ts, t'.payer = a) → ∃ t' ∈ t :: ts, t'.payer = a := by
      rintro a ⟨t', ht', rfl⟩
      exact ⟨t', List.mem_cons_of_mem _ ht', rfl⟩
    obtain ⟨r, hr, h⟩ := Option.bind_eq_some_iff.mp h
    cases r with
    | error e =>
      obtain ⟨⟨done', st₂⟩, hpay, h⟩ := Option.bind_eq_some_iff.mp h
      cases h
      exact (ih hpay).mono hrest
    | ok st₁ =>
      obtain ⟨⟨done', st₂⟩, hpay, h⟩ := Option.bind_eq_some_iff.mp h
      cases h
      exact (Assets.Moves.one ⟨t, List.mem_cons_self .., rfl⟩ hr).trans ((ih hpay).mono hrest)

/-- Who pays in a swap call: its signer, or the exchange of some pair. -/
def Payer (cfg : Config A) (origin : Origin A) (a : A) : Prop :=
  origin = .signed a ∨ ∃ i j, a = cfg.makeExchangeAddress i j

end Swap
end Konomi
