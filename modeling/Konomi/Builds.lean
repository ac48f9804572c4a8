import Konomi.Assets.Issuance

/-!
# Two builds of one chain

The release build wraps, a build with overflow checks panics. On the chain of a release build the other one has the
same states until a signed call of the swap or the lending pallet overflows (`builds_diverge`): no operator of the
genesis configuration or of the assets pallet ever does, and no two builds disagree on a value.
-/

namespace Konomi
open Machine Assets

variable {A : Type} [DecidableEq A] [Fintype A]

/-! ## What never overflows -/

namespace Assets
variable {st st' : Assets A} {u v : A} {id : AssetId} {x : Balance}

omit [Fintype A] in
theorem issue_checked (hnext : st.nextAssetId.toNat + 1 < 2 ^ 64) (h : st.issue .release u x = some st') :
    st.issue .checked u x = some st' := by
  unfold issue at h ⊢
  dsimp only at h ⊢
  rw [add_release] at h
  rw [add_isSome_of_lt hnext]
  exact h

theorem transferDropped_checked (hs : Conserved st) (h : st.transferDropped .release u id v x = some st') :
    st.transferDropped .checked u id v x = some st' := by
  refine (mono_transferDropped st u id v x).eq_of_isSome Profile.checked_le_release h ?_
  obtain ⟨r, hr⟩ := Option.isSome_iff_exists.mp (transfer_checked hs u id v x)
  unfold transferDropped
  rw [hr]
  cases r <;> rfl

theorem genesisAssets_checked {entries : List (A × Balance × BitVec 64)} : ∀ {st : Assets A}, Conserved st →
    st.nextAssetId.toNat + entries.length < 2 ^ 64 → genesisAssets .release st entries = some st' →
    genesisAssets .checked st entries = some st' := by
  induction entries with
  | nil => exact fun _ _ h => h
  | cons entry rest ih =>
    obtain ⟨account, amount, price⟩ := entry
    intro st hst hnext h
    rw [List.length_cons] at hnext
    obtain ⟨st₁, hissue, h⟩ := Option.bind_eq_some_iff.mp h
    obtain ⟨assetId, hid, h⟩ := Option.bind_eq_some_iff.mp h
    obtain ⟨st₂, htransfer, h⟩ := Option.bind_eq_some_iff.mp h
    obtain ⟨rate, hrate, h⟩ := Option.bind_eq_some_iff.mp h
    obtain ⟨hst₁, hnext₁⟩ := issue_conserved hst (by omega) hissue
    have hm := transferDropped_moves htransfer
    have hst₂ : Conserved (st₂.setPrice assetId rate) := ⟨(hm.conserved hst₁).sum, (hm.conserved hst₁).unissued⟩
    have hframe : st₂.nextAssetId = st₁.nextAssetId := by
      obtain ⟨balances, rfl⟩ := hm.frame
      rfl
    have hone : (1 : AssetId).toNat ≤ st₁.nextAssetId.toNat := by
      rw [hnext₁]
      exact Nat.le_add_left _ _
    have hid' : Profile.checked.sub st₁.nextAssetId 1 = some assetId := by
      rw [sub_isSome_of_le hone, ← hid, sub_release]
    have hrest := ih hst₂ (by change st₂.nextAssetId.toNat + _ < _; rw [hframe]; omega) h
    exact Option.bind_eq_some_iff.mpr ⟨_, issue_checked (by omega) hissue, Option.bind_eq_some_iff.mpr ⟨_, hid',
      Option.bind_eq_some_iff.mpr ⟨_, transferDropped_checked hst₁ htransfer,
        Option.bind_eq_some_iff.mpr ⟨_, hrate, hrest⟩⟩⟩⟩

theorem dispatch_checked {s : Chain A} {origin : Origin A} {call : Call A} {r : Outcome A} (hs : Conserved s.assets)
    (hnext : s.assets.nextAssetId.toNat + (isIssue (.call origin (.assets call))).toNat < 2 ^ 64)
    (h : dispatch .release s origin call = some r) : dispatch .checked s origin call = some r := by
  cases call with
  | issue total =>
    cases origin with
    | signed u =>
      obtain ⟨st', hst', h⟩ := Option.bind_eq_some_iff.mp h
      exact Option.bind_eq_some_iff.mpr ⟨st', issue_checked hnext hst', h⟩
    | root | none => exact h
  | destroy id =>
    cases origin with
    | signed u =>
      refine (mono_dispatch s (.signed u) (.destroy id)).eq_of_isSome Profile.checked_le_release h ?_
      obtain ⟨q, hq⟩ := Option.isSome_iff_exists.mp (destroy_checked hs u id)
      change (s.assets.destroy .checked u id >>= fun q => some (q.1, { s with assets := q.2 })).isSome
      rw [hq]
      rfl
    | root | none => exact h
  | transferAsset id v x =>
    cases origin with
    | signed u =>
      obtain ⟨st', hst', h⟩ := Option.bind_eq_some_iff.mp h
      exact Option.bind_eq_some_iff.mpr ⟨st', transferDropped_checked hs hst', h⟩
    | root | none => exact h
  | setInherentAsset | setPrice => exact h

end Assets

theorem genesis_checked {g : Genesis A} {s : Chain A} (hg : g.assets.length < 2 ^ 64) (h : genesis .release g = some s) :
    genesis .checked g = some s := by
  obtain ⟨assets, hassets, h⟩ := Option.bind_eq_some_iff.mp h
  refine Option.bind_eq_some_iff.mpr ⟨assets, ?_, h⟩
  exact genesisAssets_checked (empty_conserved g.owner) (by change 0 + _ < _; omega) hassets

/-! ## The first difference -/

/-- A signed call of the swap or the lending pallet. -/
def Arithmetic : Action A → Prop
  | .call (.signed _) (.swap _) => True
  | .call (.signed _) (.lending _) => True
  | _ => False

theorem arithmetic_of_stuck {cfg : Config A} {s s' : Chain A} {l : Action A} (hs : Conserved s.assets)
    (hnext : s.assets.nextAssetId.toNat + (isIssue l).toNat < 2 ^ 64) (h : step cfg .release s l = some s')
    (hstuck : step cfg .checked s l = none) : Arithmetic l := by
  cases l with
  | advance n => exact absurd (h.symm.trans hstuck) (by simp)
  | call origin call =>
    cases call with
    | assets c =>
      obtain ⟨r, hd, _⟩ := Option.map_eq_some_iff.mp h
      have hchecked : dispatch cfg .checked s origin (.assets c) = some r := dispatch_checked hs hnext hd
      exact absurd hstuck (by simp [step, hchecked])
    | swap c =>
      cases origin with
      | signed u => trivial
      | root | none => cases c <;> cases hstuck
    | lending c =>
      cases origin with
      | signed u => trivial
      | root | none => cases c <;> cases hstuck

/-- **Two builds differ by a panic, and only there.** On every chain of the release build a build with overflow checks
reaches the same state, or it reaches the same state as the release build before some signed call of the swap or the
lending pallet, which the release build executes and at which the other one panics. -/
theorem builds_diverge {cfg : Config A} {g : Genesis A} {blocks : List (Block A)} {t : Chain A}
    (hg : g.assets.length < 2 ^ 63) (h : play cfg .release g (blocks.flatMap Block.actions) = some t) :
    play cfg .checked g (blocks.flatMap Block.actions) = some t ∨
      ∃ before l after s s', blocks.flatMap Block.actions = before ++ l :: after ∧
        play cfg .checked g before = some s ∧ play cfg .release g before = some s ∧ Arithmetic l ∧
        step cfg .release s l = some s' ∧ step cfg .checked s l = none := by
  obtain ⟨s₀, hs₀, hexec⟩ := Option.bind_eq_some_iff.mp h
  have hs₀' := genesis_checked (by omega) hs₀
  have hfits := issues_fit hg hexec
  have hmono : ∀ s l s', step cfg .checked s l = some s' → step cfg .release s l = some s' := fun s l _ hl =>
    mono_step cfg s l Profile.checked_le_release hl
  rcases exec_or_stuck hmono hexec with hall | ⟨before, l, after, s, hsplit, hs, hs', hstuck⟩
  · exact Or.inl (Option.bind_eq_some_iff.mpr ⟨s₀, hs₀', hall⟩)
  · right
    rw [hsplit] at hexec hfits
    rw [issues_append, issues_cons] at hfits
    have hplay : play cfg .release g before = some s := Option.bind_eq_some_iff.mpr ⟨s₀, hs₀, hs'⟩
    obtain ⟨s₁, hs₁, hrest⟩ := exec_append hexec
    cases hs₁.symm.trans hs'
    obtain ⟨s', hl, _⟩ := exec_cons hrest
    have hconserved : Conserved s.assets := play_conserved (by omega) hplay
    have hcount := play_next (by omega) hplay
    exact ⟨before, l, after, s, s', hsplit, Option.bind_eq_some_iff.mpr ⟨s₀, hs₀', hs⟩, hplay,
      arithmetic_of_stuck hconserved (by omega) hl hstuck, hl, hstuck⟩

/-- User `.inl 1` adds so much to a pool that the liquidity wraps: the second of the three calls of the block. -/
theorem builds_diverge_pair : ∃ t before l after s s', play pairConfig .release pairGenesis ([⟨1,
      [(.signed (.inl 1), .swap (.addLiquidity 1 1000 1000 0)),
        (.signed (.inl 1), .swap (.addLiquidity 1 340282366920938463463374607431768212 5 0)),
        (.signed (.inl 1), .assets (.issue 7))], by decide⟩].flatMap Block.actions) = some t ∧
    play pairConfig .checked pairGenesis before = some s ∧ play pairConfig .release pairGenesis before = some s ∧
    before ++ l :: after = [.advance 1, .call (.signed (.inl 1)) (.swap (.addLiquidity 1 1000 1000 0)),
      .call (.signed (.inl 1)) (.swap (.addLiquidity 1 340282366920938463463374607431768212 5 0)),
      .call (.signed (.inl 1)) (.assets (.issue 7))] ∧
    step pairConfig .release s l = some s' ∧ step pairConfig .checked s l = none := by
  obtain ⟨t, ht, hnone⟩ : ∃ t, play pairConfig .release pairGenesis ([⟨1,
        [(.signed (.inl 1), .swap (.addLiquidity 1 1000 1000 0)),
          (.signed (.inl 1), .swap (.addLiquidity 1 340282366920938463463374607431768212 5 0)),
          (.signed (.inl 1), .assets (.issue 7))], by decide⟩].flatMap Block.actions) = some t ∧
      play pairConfig .checked pairGenesis ([⟨1,
        [(.signed (.inl 1), .swap (.addLiquidity 1 1000 1000 0)),
          (.signed (.inl 1), .swap (.addLiquidity 1 340282366920938463463374607431768212 5 0)),
          (.signed (.inl 1), .assets (.issue 7))], by decide⟩].flatMap Block.actions) = none := ⟨_, rfl, rfl⟩
  rcases builds_diverge (by decide) ht with hall | ⟨before, l, after, s, s', hsplit, hs, hs', _, hl, hstuck⟩
  · cases hnone.symm.trans hall
  · exact ⟨t, before, l, after, s, s', ht, hs, hs', hsplit.symm, hl, hstuck⟩

end Konomi
