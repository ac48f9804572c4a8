import Konomi.Blocks
import Konomi.OffchainWorker.Code

/-!
# Unsigned updates are spaced

`validate_unsigned` compares a block number of the caller with the stored bound and with the current block, and what is
stored is computed from the current block alone. What an executed update leaves is `Update`; every other action leaves
the bound alone (`step_cases`). So updates are at least `UnsignedInterval` blocks apart (`updates_spaced`) as long as
`current_block + UnsignedInterval` does not wrap. After an update for which it does, the bound is in the past and the
next update is accepted in the same block (`wrapped_update_reopens`).
-/

namespace Konomi.OffchainWorker
open Machine

variable {A : Type} {params : Parameters} {p : Profile} {s t : Storage A} {action : Action A}
  {actions : List (Action A)} {blocks : List BlockNumber} {n : BlockNumber} {x : BitVec 32}

/-! ## One action -/

theorem admitted_iff : admitted params s .none n x = true ↔ s.nextUnsignedAt ≤ n ∧ n ≤ s.chain.blockNumber := by
  unfold admitted validateUnsigned validateTransactionParameters
  dsimp only
  by_cases hstale : n < s.nextUnsignedAt
  · rw [if_pos hstale]
    simp [BitVec.not_le.mpr hstale]
  · rw [if_neg hstale]
    by_cases hfuture : s.chain.blockNumber < n
    · rw [if_pos hfuture]
      simp [BitVec.not_le.mpr hfuture]
    · rw [if_neg hfuture]
      simp [BitVec.not_lt.mp hstale, BitVec.not_lt.mp hfuture]

/-- What an executed update finds and leaves. -/
structure Update (params : Parameters) (p : Profile) (s t : Storage A) : Prop where
  due : s.nextUnsignedAt ≤ s.chain.blockNumber
  next : p.add s.chain.blockNumber params.unsignedInterval = some t.nextUnsignedAt
  block : t.chain.blockNumber = s.chain.blockNumber

theorem submit_update (hadmitted : admitted params s .none n x = true) {r : Except DispatchError Unit}
    (h : submitPriceUnsigned params p s .none n x = some (r, t)) : Update params p s t := by
  obtain ⟨hstale, hfuture⟩ := admitted_iff.mp hadmitted
  obtain ⟨price, _, h⟩ := Option.bind_eq_some_iff.mp h
  obtain ⟨next, hnext, h⟩ := Option.bind_eq_some_iff.mp h
  cases h
  exact ⟨BitVec.le_trans hstale hfuture, hnext, rfl⟩

theorem Update.toNat_next (h : Update params p s t)
    (hfits : s.chain.blockNumber.toNat + params.unsignedInterval.toNat < 2 ^ 32) :
    t.nextUnsignedAt.toNat = s.chain.blockNumber.toNat + params.unsignedInterval.toNat := by
  rw [add_eq h.next, BitVec.toNat_add, Nat.mod_eq_of_lt hfits]

variable [DecidableEq A] {cfg : Config A}

/-- **Every action.** It executes an update, or leaves the bound as it is. -/
theorem step_cases (h : step params p s cfg action = some t) :
    (updates params s action = [s.chain.blockNumber] ∧ Update params p s t) ∨
      (updates params s action = [] ∧ t.nextUnsignedAt = s.nextUnsignedAt) := by
  cases action with
  | advance n =>
    change (if s.chain.blockNumber ≤ n then some _ else none) = some t at h
    split at h
    · cases h
      exact Or.inr ⟨rfl, rfl⟩
    · cases h
  | submit origin n x =>
    change (if admitted params s origin n x then _ else some s) = some t at h
    split at h
    · rename_i hadmitted
      obtain ⟨⟨r, t'⟩, hsubmit, rfl⟩ := Option.map_eq_some_iff.mp h
      cases origin with
      | none => exact Or.inl ⟨if_pos hadmitted, submit_update hadmitted hsubmit⟩
      | root =>
        cases hsubmit
        exact Or.inr ⟨rfl, rfl⟩
      | signed u =>
        cases hsubmit
        exact Or.inr ⟨rfl, rfl⟩
    · rename_i hrefused
      cases h
      refine Or.inr ⟨?_, rfl⟩
      cases origin with
      | none => exact if_neg hrefused
      | root => rfl
      | signed u => rfl
  | call origin call =>
    obtain ⟨o, _, rfl⟩ := Option.map_eq_some_iff.mp h
    exact Or.inr ⟨rfl, rfl⟩

/-! ## Runs -/

theorem history_cons (h : history params p cfg s (action :: actions) = some (t, blocks)) :
    ∃ u rest, step params p s cfg action = some u ∧ history params p cfg u actions = some (t, rest) ∧
      blocks = updates params s action ++ rest := by
  obtain ⟨u, hstep, h⟩ := Option.bind_eq_some_iff.mp h
  obtain ⟨⟨t', rest⟩, hrest, h⟩ := Option.bind_eq_some_iff.mp h
  cases h
  exact ⟨u, rest, hstep, hrest, rfl⟩

/-- No update is executed before the bound, and every one moves the bound. -/
theorem history_spaced : ∀ {actions : List (Action A)} {s : Storage A} {blocks : List BlockNumber},
    history params p cfg s actions = some (t, blocks) →
    (∀ c ∈ blocks, c.toNat + params.unsignedInterval.toNat < 2 ^ 32) →
    (∀ c ∈ blocks, s.nextUnsignedAt.toNat ≤ c.toNat) ∧
      blocks.Pairwise fun c c' => c.toNat + params.unsignedInterval.toNat ≤ c'.toNat := by
  intro actions
  induction actions with
  | nil =>
    intro s blocks h _
    cases h
    exact ⟨fun c hc => absurd hc List.not_mem_nil, List.Pairwise.nil⟩
  | cons action actions ih =>
    intro s blocks h hfits
    obtain ⟨u, rest, hstep, hrest, rfl⟩ := history_cons h
    obtain ⟨hafter, hspaced⟩ := ih hrest fun c hc => hfits c (List.mem_append_right _ hc)
    rcases step_cases hstep with ⟨hupdates, hupdate⟩ | ⟨hupdates, hnext⟩
    · rw [hupdates, List.singleton_append] at hfits ⊢
      rw [hupdate.toNat_next (hfits _ (List.mem_cons_self ..))] at hafter
      have hdue := BitVec.le_def.mp hupdate.due
      refine ⟨fun c hc => ?_, List.pairwise_cons.mpr ⟨hafter, hspaced⟩⟩
      rcases List.mem_cons.mp hc with rfl | hc
      · exact hdue
      · have := hafter c hc
        omega
    · rw [hupdates, List.nil_append]
      rw [hnext] at hafter
      exact ⟨hafter, hspaced⟩

/-- **Unsigned price updates are spaced.** In every run from any state, with blocks of non-decreasing numbers, unsigned
submissions with any arguments in any order and any other calls, in which no executed update wraps
`current_block + UnsignedInterval`: of two executed updates the second is at least the interval after the first, and if
the interval is positive no block has two. -/
theorem updates_spaced (h : history params p cfg s actions = some (t, blocks))
    (hfits : ∀ c ∈ blocks, c.toNat + params.unsignedInterval.toNat < 2 ^ 32) :
    (blocks.Pairwise fun c c' => c.toNat + params.unsignedInterval.toNat ≤ c'.toNat) ∧
      (0 < params.unsignedInterval.toNat → blocks.Nodup) := by
  have hspaced := (history_spaced h hfits).2
  refine ⟨hspaced, fun hpos => hspaced.imp ?_⟩
  rintro c c' hle rfl
  omega

/-- Stale, future and duplicate submissions of several workers around two that are executed. -/
theorem updates_spaced_runtime : ∃ s t, history runtimeParameters .release mockConfig s
      [.advance 10, .submit .none 11 1, .submit .none 9 2, .submit .none 10 3, .advance 14, .submit .none 13 4,
        .submit .none 14 5] = some (t, [10, 14]) ∧
    ([10, 14] : List BlockNumber).Pairwise fun c c' =>
      c.toNat + runtimeParameters.unsignedInterval.toNat ≤ c'.toNat := by
  obtain ⟨s₀, t, hs₀, h⟩ : ∃ s₀ t, genesis .release mockGenesis = some s₀ ∧
      history runtimeParameters .release mockConfig ⟨s₀, 0⟩
        [.advance 10, .submit .none 11 1, .submit .none 9 2, .submit .none 10 3, .advance 14, .submit .none 13 4,
          .submit .none 14 5] = some (t, [10, 14]) :=
    ⟨_, _, rfl, rfl⟩
  have hfits : ∀ c ∈ ([10, 14] : List BlockNumber), c.toNat + runtimeParameters.unsignedInterval.toNat < 2 ^ 32 :=
    List.forall_mem_cons.mpr ⟨by decide, List.forall_mem_singleton.mpr (by decide)⟩
  exact ⟨⟨s₀, 0⟩, t, h, (updates_spaced h hfits).1⟩

/-! ## The end of the block numbers -/

omit [DecidableEq A] in
/-- After an update whose bound wraps, the next one is accepted in the same block. -/
theorem wrapped_update_reopens (h : Update params .release s t)
    (hwraps : 2 ^ 32 ≤ s.chain.blockNumber.toNat + params.unsignedInterval.toNat) :
    admitted params t .none t.chain.blockNumber x = true := by
  have hblock := s.chain.blockNumber.isLt
  have hinterval := params.unsignedInterval.isLt
  have hnext : t.nextUnsignedAt.toNat + 2 ^ 32 = s.chain.blockNumber.toNat + params.unsignedInterval.toNat := by
    rw [add_eq h.next, BitVec.toNat_add]
    omega
  rw [admitted_iff, h.block]
  exact ⟨BitVec.le_def.mpr (by omega), BitVec.le_refl _⟩

/-- In the last blocks two updates are executed in one block. -/
theorem updates_in_one_block : ∃ s₀ t, genesis .release mockGenesis = some s₀ ∧
    history runtimeParameters .release mockConfig ⟨s₀, 0⟩
      [.advance 4294967292, .submit .none 4294967292 1, .submit .none 7 2] = some (t, [4294967292, 4294967292]) ∧
    ¬ ([4294967292, 4294967292] : List BlockNumber).Pairwise fun c c' =>
      c.toNat + runtimeParameters.unsignedInterval.toNat ≤ c'.toNat :=
  ⟨_, _, rfl, rfl, by decide⟩

end Konomi.OffchainWorker
