import Konomi.Lending.Steps

/-!
# Conservation of assets

`Conserved st` : for every asset the holdings of all accounts sum to the total supply, and nothing is held of an
asset that has not been issued. Transfers keep it (`Moves.conserved`), so does every call of the three pallets as long
as the next asset id has not wrapped (`step_conserved`), and genesis establishes it. One holding is then bounded by a
`u128`, which is why the addition in `transfer` and the subtraction in `destroy` are exact (`transfer_checked`,
`destroy_checked`).
-/

namespace Konomi
open Machine

variable {A : Type} [DecidableEq A]

namespace Assets
variable [Fintype A]

/-- The holdings of every asset sum to its total supply, which is zero for an asset not yet issued. -/
structure Conserved (st : Assets A) : Prop where
  sum : ∀ id, ∑ u, st.holdings id u = (st.totalSupply id).toNat
  unissued : ∀ id, st.nextAssetId ≤ id → st.totalSupply id = 0

variable {p : Profile} {st st' : Assets A} {a b : A} {id : AssetId} {x : Balance}

omit [DecidableEq A] in
theorem Conserved.sum_lt (h : Conserved st) (id : AssetId) : ∑ u, st.holdings id u < 2 ^ 128 := by
  rw [h.sum]
  exact (st.totalSupply id).isLt

omit [DecidableEq A] in
theorem Conserved.holdings_le (h : Conserved st) (id : AssetId) (u : A) :
    st.holdings id u ≤ (st.totalSupply id).toNat := by
  rw [← h.sum]
  exact Ledger.le_sum _ u

theorem Conserved.pair_lt (h : Conserved st) (id : AssetId) {u v : A} (huv : u ≠ v) :
    st.holdings id u + st.holdings id v < 2 ^ 128 :=
  (Ledger.pair_le_sum _ huv).trans_lt (h.sum_lt id)

omit [DecidableEq A] in
theorem Conserved.holdings_unissued (h : Conserved st) (hid : st.nextAssetId ≤ id) (u : A) : st.holdings id u = 0 := by
  have hle := h.holdings_le id u
  rw [h.unissued id hid] at hle
  simpa using hle

/-! ## Transfers -/

omit [DecidableEq A] [Fintype A] in
theorem Covered.le (h : st.Covered a id x) : x.toNat ≤ st.holdings id a := BitVec.le_def.mp h.2

theorem Conserved.credit_fits (h : Conserved st) (hc : st.Covered a id x) :
    Ledger.move (st.holdings id) a b x.toNat b < 2 ^ 128 :=
  (Ledger.move_le_sum hc.le b).trans_lt (h.sum_lt id)

theorem transfer_conserved (h : Conserved st) (ht : st.transfer p a id b x = some (.ok st')) : Conserved st' := by
  obtain ⟨hc, v, _, hst'⟩ := transfer_ok ht
  have hledger := holdings_transfer ht (h.credit_fits hc)
  have hsame : st'.totalSupply = st.totalSupply ∧ st'.nextAssetId = st.nextAssetId := by
    subst hst'
    exact ⟨rfl, rfl⟩
  refine ⟨fun id' => ?_, ?_⟩
  · rw [hsame.1]
    by_cases hid : id' = id
    · subst hid
      rw [hledger, Ledger.sum_move hc.le, h.sum]
    · rw [holdings_transfer_other ht hid, h.sum]
  · rw [hsame.1, hsame.2]
    exact h.unissued

theorem Moves.conserved {payer : A → Prop} (hm : Moves p payer st st') (h : Conserved st) : Conserved st' := by
  induction hm with
  | refl => exact h
  | tail _ _ ht ih => exact transfer_conserved ih ht

/-- **The addition in `transfer` never overflows**, also not for a transfer from an account to itself. -/
theorem transfer_checked (h : Conserved st) (a : A) (id : AssetId) (b : A) (x : Balance) :
    (st.transfer .checked a id b x).isSome := by
  unfold transfer
  dsimp only
  split
  · rfl
  · split
    · rfl
    · rename_i h0 hlt
      have hc : st.Covered a id x := ⟨h0, BitVec.not_lt.mp hlt⟩
      have hfit := h.credit_fits (b := b) hc
      rw [Ledger.move, Function.update_self, ← holdings_debited hc] at hfit
      rw [debited] at hfit
      rw [add_isSome_of_lt hfit]
      rfl

/-- Where holdings are conserved, the transfers of the release build are transfers without a wrap. -/
theorem Moves.checked {payer : A → Prop} (hm : Moves .release payer st st') (h : Conserved st) :
    Moves .checked payer st st' := by
  induction hm with
  | refl => exact Moves.refl
  | tail hm ha ht ih =>
    have hchecked := (mono_transfer _ _ _ _ _).eq_of_isSome Profile.checked_le_release ht
      (transfer_checked (hm.conserved h) _ _ _ _)
    exact ih.tail ha hchecked

/-- **The subtraction in `destroy` never underflows.** -/
theorem destroy_checked (h : Conserved st) (a : A) (id : AssetId) : (st.destroy .checked a id).isSome := by
  unfold destroy
  dsimp only
  split
  · rfl
  · rw [sub_isSome_of_le (h.holdings_le id a)]
    rfl

/-! ## The other calls of the pallet -/

omit [Fintype A] in
theorem holdings_update (st : Assets A) {v : Balance} (id' : AssetId) (u : A) :
    ({ st with balances := Function.update st.balances (id, a) v } : Assets A).holdings id' u =
      if id' = id then Function.update (st.holdings id) a v.toNat u else st.holdings id' u := by
  show (Function.update st.balances (id, a) v (id', u)).toNat = _
  by_cases hid : id' = id
  · subst hid
    rw [if_pos rfl]
    by_cases hu : u = a
    · subst hu
      rw [Function.update_self, Function.update_self]
    · rw [Function.update_of_ne hu, Function.update_of_ne (fun e => hu (Prod.mk.inj e).2)]
      rfl
  · rw [if_neg hid, Function.update_of_ne (fun e => hid (Prod.mk.inj e).1)]
    rfl

theorem issue_conserved (h : Conserved st) (hnext : st.nextAssetId.toNat + 1 < 2 ^ 64)
    (hi : st.issue p a x = some st') : Conserved st' ∧ st'.nextAssetId.toNat = st.nextAssetId.toNat + 1 := by
  obtain ⟨next, hadd, hi⟩ := Option.bind_eq_some_iff.mp hi
  cases hi
  have htoNat : next.toNat = st.nextAssetId.toNat + 1 := by
    rw [add_eq hadd, BitVec.toNat_add]
    exact Nat.mod_eq_of_lt hnext
  refine ⟨⟨fun id => ?_, fun id hid => ?_⟩, htoNat⟩
  · show ∑ u, Assets.holdings _ id u = (Function.update st.totalSupply st.nextAssetId x id).toNat
    by_cases hid : id = st.nextAssetId
    · subst hid
      have hzero : ∀ u, st.holdings st.nextAssetId u = 0 := h.holdings_unissued (BitVec.le_refl _)
      have hone := Ledger.sum_of_eq_off (f := st.holdings st.nextAssetId)
        (g := Function.update (st.holdings st.nextAssetId) a x.toNat) (a := a)
        (fun u hu => Function.update_of_ne hu _ _)
      rw [Function.update_self, hzero, Finset.sum_eq_zero (fun u _ => hzero u)] at hone
      rw [Function.update_self, ← Nat.zero_add x.toNat, ← hone, Nat.add_zero]
      refine Finset.sum_congr rfl fun u _ => ?_
      exact (holdings_update st _ u).trans (if_pos rfl)
    · rw [Function.update_of_ne hid, ← h.sum id]
      refine Finset.sum_congr rfl fun u _ => ?_
      exact (holdings_update st _ u).trans (if_neg hid)
  · change next ≤ id at hid
    have hlt : st.nextAssetId.toNat < id.toNat := by
      have := BitVec.le_def.mp hid
      omega
    have hne : id ≠ st.nextAssetId := by
      rintro rfl
      exact Nat.lt_irrefl _ hlt
    show Function.update st.totalSupply st.nextAssetId x id = 0
    rw [Function.update_of_ne hne]
    exact h.unissued id (BitVec.le_def.mpr hlt.le)

theorem destroy_conserved {r : Except DispatchError Unit} (h : Conserved st)
    (hd : st.destroy p a id = some (r, st')) : Conserved st' ∧ st'.nextAssetId = st.nextAssetId := by
  unfold destroy at hd
  dsimp only at hd
  have hsum := Ledger.sum_of_eq_off (f := st.holdings id) (g := Function.update (st.holdings id) a 0) (a := a)
    (fun u hu => Function.update_of_ne hu _ _)
  rw [Function.update_self, Nat.add_zero, h.sum] at hsum
  have hown : ∑ u, Assets.holdings { st with balances := Function.update st.balances (id, a) 0 } id u =
      ∑ u, Function.update (st.holdings id) a 0 u :=
    Finset.sum_congr rfl fun u _ => (holdings_update st id u).trans (if_pos rfl)
  have hother : ∀ id', id' ≠ id →
      ∑ u, Assets.holdings { st with balances := Function.update st.balances (id, a) 0 } id' u =
        (st.totalSupply id').toNat := by
    intro id' hid
    rw [← h.sum id']
    exact Finset.sum_congr rfl fun u _ => (holdings_update st id' u).trans (if_neg hid)
  split at hd
  · cases hd
    rename_i hzero
    refine ⟨⟨fun id' => ?_, h.unissued⟩, rfl⟩
    by_cases hid : id' = id
    · subst hid
      rw [hown]
      have : st.holdings id' a = 0 := congrArg BitVec.toNat hzero
      show _ = (st.totalSupply id').toNat
      omega
    · exact hother id' hid
  · obtain ⟨total, htotal, hd⟩ := Option.bind_eq_some_iff.mp hd
    cases hd
    have hle := h.holdings_le id a
    have hexact : total.toNat + st.holdings id a = (st.totalSupply id).toNat := by
      rw [sub_eq htotal, BitVec.toNat_sub_of_le (BitVec.le_def.mpr hle)]
      exact Nat.sub_add_cancel hle
    refine ⟨⟨fun id' => ?_, fun id' hid' => ?_⟩, rfl⟩
    · show _ = (Function.update st.totalSupply id total id').toNat
      by_cases hid : id' = id
      · subst hid
        rw [Function.update_self]
        show ∑ u, Assets.holdings { st with balances := Function.update st.balances (id', a) 0 } id' u = _
        omega
      · rw [Function.update_of_ne hid]
        exact hother id' hid
    · show Function.update st.totalSupply id total id' = 0
      by_cases hid : id' = id
      · subst hid
        rw [Function.update_self]
        have hzero : (st.totalSupply id').toNat = 0 := by
          rw [h.unissued id' hid']
          rfl
        exact BitVec.eq_of_toNat_eq (show total.toNat = 0 by omega)
      · rw [Function.update_of_ne hid]
        exact h.unissued id' hid'

/-! ## Runs -/

/-- An `issue` that its origin lets through. -/
def isIssue : Action A → Bool
  | .call (.signed _) (.assets (.issue _)) => true
  | _ => false

/-- The number of assets issued by a list of actions. -/
def issues (actions : List (Action A)) : Nat := actions.countP isIssue

theorem dispatch_conserved {s s' : Chain A} {origin : Origin A} {call : Call A} {r : Except DispatchError Unit}
    (h : Conserved s.assets)
    (hnext : s.assets.nextAssetId.toNat + (isIssue (.call origin (.assets call))).toNat < 2 ^ 64)
    (hd : dispatch p s origin call = some (r, s')) :
    Conserved s'.assets ∧
      s'.assets.nextAssetId.toNat =
        s.assets.nextAssetId.toNat + (isIssue (.call origin (.assets call))).toNat := by
  obtain ⟨st', hstep, rfl⟩ := dispatch_cases hd
  cases hstep with
  | unsigned hu =>
    have hc : isIssue (.call origin (.assets call)) = false := by
      cases origin with
      | signed u => exact absurd rfl (hu u)
      | _ => rfl
    rw [hc]
    exact ⟨h, rfl⟩
  | issued hi => exact issue_conserved h hnext hi
  | destroyed hi =>
    obtain ⟨hst', hsame⟩ := destroy_conserved h hi
    exact ⟨hst', congrArg BitVec.toNat hsame⟩
  | transferred hi =>
    have hm := transferDropped_moves hi
    obtain ⟨balances, rfl⟩ := hm.frame
    exact ⟨hm.conserved h, rfl⟩
  | inherent => exact ⟨⟨h.sum, h.unissued⟩, by cases origin <;> rfl⟩
  | notRoot => exact ⟨h, by cases origin <;> rfl⟩
  | priced => exact ⟨⟨h.sum, h.unissued⟩, rfl⟩

theorem step_conserved {cfg : Config A} {s s' : Chain A} {l : Action A} (h : Conserved s.assets)
    (hnext : s.assets.nextAssetId.toNat + (isIssue l).toNat < 2 ^ 64) (hs : step cfg p s l = some s') :
    Conserved s'.assets ∧ s'.assets.nextAssetId.toNat = s.assets.nextAssetId.toNat + (isIssue l).toNat := by
  cases l with
  | advance block =>
    obtain ⟨_, rfl⟩ := step_advance hs
    exact ⟨h, rfl⟩
  | call origin call =>
    obtain ⟨⟨r, t⟩, hd, rfl⟩ := Option.map_eq_some_iff.mp hs
    have hmoves : ∀ {payer : A → Prop}, Moves p payer s.assets t.assets →
        Conserved t.assets ∧ t.assets.nextAssetId.toNat = s.assets.nextAssetId.toNat := by
      intro payer hm
      obtain ⟨balances, hframe⟩ := hm.frame
      exact ⟨hm.conserved h, by rw [hframe]⟩
    cases call with
    | assets c => exact dispatch_conserved h hnext hd
    | swap c =>
      have hc : isIssue (.call origin (.swap c)) = false := by cases origin <;> rfl
      rw [hc]
      exact hmoves (Swap.swap_moves hd).1
    | lending c =>
      have hc : isIssue (.call origin (.lending c)) = false := by cases origin <;> rfl
      rw [hc]
      exact hmoves (Lending.lending_moves hd).1

theorem exec_conserved {cfg : Config A} {actions : List (Action A)} : ∀ {s s' : Chain A}, Conserved s.assets →
    s.assets.nextAssetId.toNat + issues actions < 2 ^ 64 → exec (step cfg p) s actions = some s' →
    Conserved s'.assets := by
  induction actions with
  | nil =>
    intro s s' h _ hs
    cases hs
    exact h
  | cons l actions ih =>
    intro s s' h hnext hs
    obtain ⟨t, hl, hs⟩ := exec_cons hs
    have hcount : issues (l :: actions) = (isIssue l).toNat + issues actions := by
      unfold issues
      rw [List.countP_cons]
      cases isIssue l <;> simp [Nat.add_comm]
    rw [hcount] at hnext
    obtain ⟨ht, hid⟩ := step_conserved h (by omega) hl
    exact ih ht (by omega) hs

/-! ## Genesis -/

omit [DecidableEq A] in
theorem empty_conserved (owner : A) : Conserved (empty owner) :=
  ⟨fun _ => Finset.sum_eq_zero fun _ _ => rfl, fun _ _ => rfl⟩

theorem genesisAssets_conserved {entries : List (A × Balance × BitVec 64)} : ∀ {st st' : Assets A}, Conserved st →
    st.nextAssetId.toNat + entries.length < 2 ^ 64 → genesisAssets p st entries = some st' →
    Conserved st' ∧ st'.nextAssetId.toNat = st.nextAssetId.toNat + entries.length := by
  induction entries with
  | nil =>
    intro st st' h _ hg
    cases hg
    exact ⟨h, rfl⟩
  | cons entry rest ih =>
    obtain ⟨account, amount, price⟩ := entry
    intro st st' h hnext hg
    rw [List.length_cons] at hnext
    obtain ⟨st₁, hissue, hg⟩ := Option.bind_eq_some_iff.mp hg
    obtain ⟨assetId, _, hg⟩ := Option.bind_eq_some_iff.mp hg
    obtain ⟨st₂, htransfer, hg⟩ := Option.bind_eq_some_iff.mp hg
    obtain ⟨price', _, hg⟩ := Option.bind_eq_some_iff.mp hg
    obtain ⟨h₁, hid⟩ := issue_conserved h (by omega) hissue
    have hm := transferDropped_moves htransfer
    have h₂ := hm.conserved h₁
    have hframe : st₂.nextAssetId = st₁.nextAssetId := by
      obtain ⟨balances, rfl⟩ := hm.frame
      rfl
    have h₃ : Conserved (st₂.setPrice assetId price') := ⟨h₂.sum, h₂.unissued⟩
    have hrest := ih h₃ (by change st₂.nextAssetId.toNat + _ < _; rw [hframe]; omega) hg
    refine ⟨hrest.1, hrest.2.trans ?_⟩
    show st₂.nextAssetId.toNat + _ = _
    rw [hframe, hid, List.length_cons]
    omega

theorem play_conserved {cfg : Config A} {g : Genesis A} {actions : List (Action A)} {s : Chain A}
    (hissues : g.assets.length + issues actions < 2 ^ 64) (h : play cfg .release g actions = some s) :
    Conserved s.assets := by
  obtain ⟨s₀, hs₀, h⟩ := Option.bind_eq_some_iff.mp h
  obtain ⟨st, hst, hs₀⟩ := Option.bind_eq_some_iff.mp hs₀
  cases hs₀
  obtain ⟨hgenesis, hid⟩ := genesisAssets_conserved (empty_conserved g.owner)
    (by change 0 + _ < _; omega) hst
  refine exec_conserved hgenesis ?_ h
  rw [hid]
  show 0 + _ + _ < _
  omega

/-- **Asset conservation.** After any actions from any genesis that issue fewer than `2 ^ 64` assets, the holdings of
every asset sum to its total supply, and to zero for an asset that has not been issued. No transfer, also in the
middle of a call or to the payer itself, overflows a balance, and no destruction underflows a total supply. -/
theorem assets_conserved {cfg : Config A} {g : Genesis A} {actions : List (Action A)} {s : Chain A}
    (hissues : g.assets.length + issues actions < 2 ^ 64) (h : play cfg .release g actions = some s) :
    (∀ id, ∑ u, (s.assets.balances (id, u)).toNat = (s.assets.totalSupply id).toNat) ∧
    (∀ id, s.assets.nextAssetId ≤ id →
      ∑ u, (s.assets.balances (id, u)).toNat = 0 ∧ s.assets.totalSupply id = 0) ∧
    (∀ st, Moves .release (fun _ => True) s.assets st →
      (∀ a id b x, (st.transfer .checked a id b x).isSome) ∧ ∀ a id, (st.destroy .checked a id).isSome) := by
  have hs := play_conserved hissues h
  refine ⟨hs.sum, fun id hid => ⟨?_, hs.unissued id hid⟩, fun st hm => ?_⟩
  · exact Finset.sum_eq_zero fun u _ => hs.holdings_unissued hid u
  · have hst := hm.conserved hs
    exact ⟨transfer_checked hst, destroy_checked hst⟩

/-- A supply, a transfer to oneself, the issue of all of a `u128` and a swap on the mock runtime. -/
theorem assets_conserved_mock : ∃ s, play mockConfig .release mockGenesis
      [.call (.signed 1) (.lending (.supply 0 100000)), .call (.signed 1) (.assets (.transferAsset 0 1 7)),
        .call (.signed 2) (.assets (.issue 340282366920938463463374607431768211455#128)),
        .call (.signed 1) (.swap (.addLiquidity 1 1000 1000 0)),
        .call (.signed 2) (.swap (.swapAssetsWithExactInput 2 0 1 600 0))] = some s ∧
    ∑ u, (s.assets.balances (2, u)).toNat = (s.assets.totalSupply 2).toNat := by
  obtain ⟨s, hs⟩ : ∃ s, play mockConfig .release mockGenesis
      [.call (.signed 1) (.lending (.supply 0 100000)), .call (.signed 1) (.assets (.transferAsset 0 1 7)),
        .call (.signed 2) (.assets (.issue 340282366920938463463374607431768211455#128)),
        .call (.signed 1) (.swap (.addLiquidity 1 1000 1000 0)),
        .call (.signed 2) (.swap (.swapAssetsWithExactInput 2 0 1 600 0))] = some s := ⟨_, rfl⟩
  exact ⟨s, hs, (assets_conserved (by decide) hs).1 2⟩

end Assets

end Konomi
