import Konomi.Assets.Conservation

/-!
# Blocks

`Reachable cfg s` : `s` is the state after some of the extrinsics of a chain of blocks. Block numbers are `u32` and grow
(`length_le_blockNumber`), and a block is at most `MaximumBlockLength` bytes long, so fewer than `2 ^ 63` calls are
ever made. The next asset id of a reachable state has therefore not wrapped, and its holdings are conserved
(`Reachable.conserved`).
-/

namespace Konomi
open Machine

variable {A : Type}

/-- `MaximumBlockLength` of `runtime/src/lib.rs`, in bytes. -/
def maximumBlockLength : Nat := 5 * 1024 * 1024

/-- The extrinsics of a block. Each is encoded in at least one byte. -/
structure Block (A : Type) where
  number : BlockNumber
  extrinsics : List (Origin A × Call A)
  fits : extrinsics.length ≤ maximumBlockLength

def Block.actions (b : Block A) : List (Action A) :=
  .advance b.number :: b.extrinsics.map (fun e => .call e.1 e.2)

variable [DecidableEq A]

/-- The state after a chain of blocks, of which the last may be in progress. The genesis entries are a `Vec`, whose
length is below `2 ^ 63`. -/
def Reachable (cfg : Config A) (s : Chain A) : Prop :=
  ∃ (g : Genesis A) (blocks : List (Block A)),
    g.assets.length < 2 ^ 63 ∧ play cfg .release g (blocks.flatMap Block.actions) = some s

section Numbers
variable {cfg : Config A} {p : Profile} {s s' : Chain A}

theorem dispatch_blockNumber {origin : Origin A} {call : Call A} {r : Except DispatchError Unit}
    (h : dispatch cfg p s origin call = some (r, s')) : s'.blockNumber = s.blockNumber := by
  cases call with
  | assets c =>
    obtain ⟨st', _, rfl⟩ := Assets.dispatch_cases h
    rfl
  | swap c => exact (Swap.swap_moves h).2.2
  | lending c => exact (Lending.lending_moves h).2.2

theorem price_of_dispatch {origin : Origin A} {call : Call A} {r : Except DispatchError Unit} {id : AssetId}
    (h : dispatch cfg p s origin call = some (r, s'))
    (hcall : ∀ price, call = .assets (.setPrice id price) → origin ≠ .root) : s'.assets.price id = s.assets.price id := by
  cases call with
  | assets c =>
    obtain ⟨st', hstep, rfl⟩ := Assets.dispatch_cases h
    exact Assets.price_of_step hstep fun price hc => hcall price (by rw [hc])
  | swap c =>
    obtain ⟨balances, hframe⟩ := (Swap.swap_moves h).1.frame
    rw [hframe]
  | lending c =>
    obtain ⟨balances, hframe⟩ := (Lending.lending_moves h).1.frame
    rw [hframe]

theorem calls_blockNumber {es : List (Origin A × Call A)} :
    ∀ {s : Chain A}, exec (step cfg p) s (es.map (fun e => .call e.1 e.2)) = some s' →
      s'.blockNumber = s.blockNumber := by
  induction es with
  | nil =>
    intro s h
    cases h
    rfl
  | cons e es ih =>
    intro s h
    obtain ⟨t, ht, hrest⟩ := exec_cons h
    obtain ⟨⟨r, t'⟩, hd, rfl⟩ := Option.map_eq_some_iff.mp ht
    exact (ih hrest).trans (dispatch_blockNumber hd)

theorem block_blockNumber {b : Block A} (h : exec (step cfg p) s b.actions = some s') :
    s.blockNumber.toNat < s'.blockNumber.toNat := by
  obtain ⟨t, ht, hcalls⟩ := exec_cons h
  rw [calls_blockNumber hcalls]
  obtain ⟨hlt, rfl⟩ := step_advance ht
  exact BitVec.lt_def.mp hlt

theorem length_le_blockNumber {blocks : List (Block A)} :
    ∀ {s : Chain A}, exec (step cfg p) s (blocks.flatMap Block.actions) = some s' →
      s.blockNumber.toNat + blocks.length ≤ s'.blockNumber.toNat := by
  induction blocks with
  | nil =>
    intro s h
    cases h
    simp
  | cons b blocks ih =>
    intro s h
    rw [List.flatMap_cons] at h
    obtain ⟨t, hb, hrest⟩ := exec_append h
    have hfirst := block_blockNumber hb
    have hlast := ih hrest
    rw [List.length_cons]
    omega

end Numbers

/-! ## How much can be issued -/

omit [DecidableEq A] in
theorem issues_append (as bs : List (Action A)) : Assets.issues (as ++ bs) = Assets.issues as + Assets.issues bs :=
  List.countP_append

omit [DecidableEq A] in
theorem block_issues_le (b : Block A) : Assets.issues b.actions ≤ maximumBlockLength := by
  have hcalls : Assets.issues b.actions = (b.extrinsics.map (fun e => Action.call e.1 e.2)).countP Assets.isIssue := by
    simp [Assets.issues, Block.actions, Assets.isIssue]
  rw [hcalls]
  refine List.countP_le_length.trans ?_
  rw [List.length_map]
  exact b.fits

omit [DecidableEq A] in
theorem blocks_issues_le (blocks : List (Block A)) :
    Assets.issues (blocks.flatMap Block.actions) ≤ blocks.length * maximumBlockLength := by
  induction blocks with
  | nil => simp [Assets.issues]
  | cons b blocks ih =>
    have hb := block_issues_le b
    rw [List.flatMap_cons, issues_append, List.length_cons, Nat.succ_mul]
    omega

/-- **The holdings of a reachable state are conserved.** -/
theorem Reachable.conserved [Fintype A] {cfg : Config A} {s : Chain A} (h : Reachable cfg s) :
    Assets.Conserved s.assets := by
  obtain ⟨g, blocks, hg, hplay⟩ := h
  refine Assets.play_conserved ?_ hplay
  obtain ⟨s₀, hs₀, hexec⟩ := Option.bind_eq_some_iff.mp hplay
  have hblocks := length_le_blockNumber hexec
  have hissues := blocks_issues_le blocks
  have hlast : s.blockNumber.toNat < 2 ^ 32 := s.blockNumber.isLt
  have hmany : blocks.length * maximumBlockLength ≤ 2 ^ 32 * maximumBlockLength := by
    apply Nat.mul_le_mul_right
    omega
  unfold maximumBlockLength at hissues hmany
  omega

end Konomi
