import Konomi.Lib.Run
import Konomi.Lending.Code
import Konomi.Swap.Code

/-!
# The runtime

Calls of the three pallets, block by block, from a genesis configuration. An action that panics is not taken: its
extrinsic is not part of any block.
-/

namespace Konomi
open Machine

variable {A : Type} [DecidableEq A]

inductive Call (A : Type) where
  | assets (call : Assets.Call A)
  | swap (call : Swap.Call A)
  | lending (call : Lending.Call A)

def dispatch (cfg : Config A) (p : Profile) (s : Chain A) (origin : Origin A) : Call A → Option (Outcome A)
  | .assets call => Assets.dispatch p s origin call
  | .swap call => Swap.dispatch cfg p s origin call
  | .lending call => Lending.dispatch cfg p s origin call

/-- What happens to the chain next: a later block, or a call. -/
inductive Action (A : Type) where
  | advance (block : BlockNumber)
  | call (origin : Origin A) (call : Call A)

def step (cfg : Config A) (p : Profile) (s : Chain A) : Action A → Option (Chain A)
  | .advance block => if s.blockNumber < block then some { s with blockNumber := block } else none
  | .call origin call => (dispatch cfg p s origin call).map Prod.snd

theorem step_advance {cfg : Config A} {p : Profile} {s s' : Chain A} {n : BlockNumber}
    (h : step cfg p s (.advance n) = some s') : s.blockNumber < n ∧ s' = { s with blockNumber := n } := by
  change (if s.blockNumber < n then some { s with blockNumber := n } else none) = some s' at h
  split at h
  · exact ⟨‹_›, (Option.some.inj h).symm⟩
  · cases h

/-! ## Genesis -/

/-- `GenesisConfig` of the three pallets. -/
structure Genesis (A : Type) where
  owner : A
  assets : List (A × Balance × BitVec 64)
  feeRate : BitVec 64
  pools : List AssetId

def Book.empty : Book A := ⟨fun _ => none, fun _ => []⟩

/-- The pools of the genesis configuration, built at block zero. -/
def genesisPools (l : Lending A) : List AssetId → Lending A
  | [] => l
  | pool :: rest => genesisPools (Lending._initPool 0 l pool true) rest

def genesis (p : Profile) (g : Genesis A) : Option (Chain A) := do
  let assets ← Assets.genesisAssets p (Assets.empty g.owner) g.assets
  some
    { blockNumber := 0
      assets := assets
      swap := ⟨g.feeRate, fun _ => 0, fun _ => 0, fun _ => none⟩
      lending := genesisPools ⟨Book.empty, Book.empty, fun _ => none, Fixed.one⟩ g.pools }

/-- Play actions from a genesis configuration. -/
def play (cfg : Config A) (p : Profile) (g : Genesis A) (actions : List (Action A)) : Option (Chain A) :=
  genesis p g >>= fun s => exec (step cfg p) s actions

/-- `t` is reached from the genesis `g` by actions each of which meets `ok`. -/
def Reached (cfg : Config A) (ok : Chain A → Action A → Prop) (t : Chain A) : Prop :=
  ∃ g s, genesis .release g = some s ∧ Run (step cfg .release) ok s t

/-- What genesis establishes and every action keeps holds in every state that is reached. -/
theorem Reached.invariant {cfg : Config A} {ok : Chain A → Action A → Prop} {I : Chain A → Prop} {t : Chain A}
    (hgenesis : ∀ g s, genesis .release g = some s → I s)
    (hstep : ∀ s l s', I s → ok s l → step cfg .release s l = some s' → I s') (h : Reached cfg ok t) : I t := by
  obtain ⟨g, s, hs, hrun⟩ := h
  exact hrun.invariant (hgenesis g s hs) hstep

theorem Reached.forget {cfg : Config A} {ok : Chain A → Action A → Prop} {t : Chain A} (h : Reached cfg ok t) :
    Reached cfg (fun _ _ => True) t := by
  obtain ⟨g, s, hs, hrun⟩ := h
  exact ⟨g, s, hs, hrun.mono fun _ _ _ => trivial⟩

omit [DecidableEq A] in
theorem genesisPools_cases {ids : List AssetId} : ∀ {l : Lending A} {a : AssetId} {pool : Pool},
    (genesisPools l ids).pools a = some pool → l.pools a = some pool ∨ pool = Lending.newPool 0 a true := by
  induction ids with
  | nil => exact fun h => Or.inl h
  | cons id ids ih =>
    intro l a pool h
    rcases ih h with hpool | hpool
    · rcases stored_cases hpool with ⟨rfl, hnew⟩ | ⟨_, hold⟩
      · exact Or.inr (Option.some.inj hnew).symm
      · exact Or.inl hold
    · exact Or.inr hpool

omit [DecidableEq A] in
theorem genesisPools_frame {ids : List AssetId} : ∀ l : Lending A,
    (genesisPools l ids).supplies = l.supplies ∧ (genesisPools l ids).debts = l.debts := by
  induction ids with
  | nil => exact fun l => ⟨rfl, rfl⟩
  | cons id ids ih => exact fun l => ih _

omit [DecidableEq A] in
theorem genesisPools_pools {ids : List AssetId} : ∀ (l : Lending A) (id : AssetId),
    (genesisPools l ids).pools id = if id ∈ ids then some (Lending.newPool 0 id true) else l.pools id := by
  induction ids with
  | nil => exact fun _ _ => rfl
  | cons pool rest ih =>
    intro l id
    show (genesisPools (Lending._initPool 0 l pool true) rest).pools id = _
    rw [ih]
    by_cases hrest : id ∈ rest
    · rw [if_pos hrest, if_pos (List.mem_cons_of_mem _ hrest)]
    · rw [if_neg hrest]
      by_cases hid : id = pool
      · subst hid
        rw [if_pos List.mem_cons_self]
        exact Function.update_self ..
      · rw [if_neg fun hmem => (List.mem_cons.mp hmem).elim hid hrest]
        exact Function.update_of_ne hid ..

theorem genesis_lending {p : Profile} {g : Genesis A} {s : Chain A} (h : genesis p g = some s) :
    s.blockNumber = 0 ∧ s.lending.supplies = Book.empty ∧ s.lending.debts = Book.empty ∧
      ∀ a pool, s.lending.pools a = some pool → pool = Lending.newPool 0 a true := by
  obtain ⟨assets, _, h⟩ := Option.bind_eq_some_iff.mp h
  cases h
  refine ⟨rfl, (genesisPools_frame _).1, (genesisPools_frame _).2, fun a pool hpool => ?_⟩
  exact (genesisPools_cases hpool).resolve_left (by simp)

theorem genesis_lastUpdated {p : Profile} {g : Genesis A} {s : Chain A} (h : genesis p g = some s) (a : AssetId)
    (pool : Pool) (hpool : s.lending.pools a = some pool) : pool.lastUpdated = s.blockNumber := by
  obtain ⟨hblock, _, _, hpools⟩ := genesis_lending h
  rw [hpools a pool hpool, hblock]
  rfl

/-! ## The mock runtime -/

/-- Four accounts: the lending pallet `0`, the users `1` and `2` of the tests, and one exchange `3`. -/
def mockConfig : Config (Fin 4) := ⟨0, fun _ _ => 3⟩

/-- `ExtBuilder::default()` of `pallets/lending/src/mock.rs`. -/
def mockGenesis : Genesis (Fin 4) where
  owner := 2
  assets := [(1, 1000000000000000000, 100), (1, 1000000000000000000, 60)]
  feeRate := 0
  pools := [0, 1]

/-- The same with a million of each token at the price of one: amounts whose fixed-point products leave a `u128`. -/
def richGenesis : Genesis (Fin 4) :=
  { mockGenesis with assets := [(1, 1000000000000000000000000, 1), (1, 1000000000000000000000000, 1)] }

/-- Accounts with an exchange of its own for every pair of assets: the lending pallet `.inl 0`, the users `.inl 1` and
`.inl 2`, and the exchange `.inr (i, j)` of the assets `i` and `j`. -/
abbrev PairAccount := Fin 3 ⊕ (Fin (2 ^ 64) × Fin (2 ^ 64))

def pairConfig : Config PairAccount := ⟨.inl 0, fun i j => .inr (i.toFin, j.toFin)⟩

theorem pairConfig_injective : Function.Injective2 pairConfig.makeExchangeAddress := by
  intro i i' j j' h
  have hpair := Prod.mk.inj (Sum.inr.inj h)
  exact ⟨BitVec.eq_of_toFin_eq hpair.1, BitVec.eq_of_toFin_eq hpair.2⟩

theorem pairConfig_user (k : Fin 3) (i j : AssetId) : .inl k ≠ pairConfig.makeExchangeAddress i j := by
  intro h
  cases h

/-- Two assets of user `.inl 1`, of the first as much as a `u128` holds. -/
def pairGenesis : Genesis PairAccount where
  owner := .inl 2
  assets := [(.inl 1, BitVec.allOnes 128, 1), (.inl 1, 1000000, 1)]
  feeRate := 0
  pools := []

end Konomi
