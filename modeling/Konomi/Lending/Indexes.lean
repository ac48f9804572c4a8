import Konomi.Lending.Info
import Konomi.Lending.Pools

/-!
# Indexes

A call that returns `Err` may have rewritten a record at the index of a pool that it accrued in memory only. The
stored pool catches up: its rates are frozen until the next accrual is stored, and `indexBound` grows with the block
number. `Paced` is the invariant: every stored index is at least one, and no record is ahead of the index that an
accrual of its pool reaches at the current block.

The index of a stored pool only grows (`IndexesGrow`), and no call lowers a supply view of an account that does not
withdraw and is not liquidated (`SuppliesKept`), as long as no multiplier and no supply wraps and no pool with interest
is made anew.
-/

namespace Konomi.Lending
open Machine

variable {A : Type} [DecidableEq A] {cfg : Config A} {s s' t : Chain A} {u v : A} {a b : AssetId} {side : Side}
  {pool q : Pool} {call : Call A} {now : BlockNumber}

/-- No multiplier of an accrual of the call wraps. -/
def Call.Fits (s : Chain A) (call : Call A) : Prop :=
  ∀ b pool, call.accrues s.lending b → s.lending.pools b = some pool → NoWrap s.blockNumber pool

theorem newPool_index (now : BlockNumber) (id : AssetId) (c : Bool) (side : Side) :
    ((newPool now id c).index side).toNat = accuracy := by
  cases side <;> exact Fixed.toNat_one accuracy_lt

theorem index_le_indexBound : (pool.index side).toNat ≤ indexBound now side pool := by
  refine le_rounded_of_le accuracy_pos ?_
  rw [Nat.mul_comm]
  exact Nat.mul_le_mul_left _ (Nat.le_add_right _ _)

/-! ## Records do not run ahead -/

structure Paced (s : Chain A) : Prop where
  last : ∀ a pool, s.lending.pools a = some pool → pool.lastUpdated.toNat ≤ s.blockNumber.toNat
  pools : ∀ a pool, s.lending.pools a = some pool → ∀ side, accuracy ≤ (pool.index side).toNat
  records : ∀ side a u user, (s.lending.book side).records (a, u) = some user →
    accuracy ≤ user.index.toNat ∧ ∃ i, bound s side a = some i ∧ user.index.toNat ≤ i

omit [DecidableEq A] in
theorem Paced.bound_eq (h : Paced s) (hacc : AccruesTo s a pool q) (hwrap : NoWrap s.blockNumber pool) (side : Side) :
    bound s side a = some (q.index side).toNat := by
  rw [bound, hacc.stored, Option.map_some, index_accrued (h.last a pool hacc.stored) hwrap hacc.accrues]

omit [DecidableEq A] in
theorem Paced.one_le (h : Paced s) (hacc : AccruesTo s a pool q) (hwrap : NoWrap s.blockNumber pool) (side : Side) :
    accuracy ≤ (q.index side).toNat := by
  rw [index_accrued (h.last a pool hacc.stored) hwrap hacc.accrues]
  exact (h.pools a pool hacc.stored side).trans index_le_indexBound

omit [DecidableEq A] in
theorem Follows.stored {P : AssetId → Prop} {pool' : Pool} (hf : Follows P s s')
    (hpool' : s'.lending.pools b = some pool') : s.lending.pools b = some pool' ∨
      ∃ pool q, P b ∧ AccruesTo s b pool q ∧ pool'.lastUpdated = s.blockNumber ∧
        ∀ side, pool'.index side = q.index side := by
  rcases hf.pools b with hsame | ⟨hP, pool, q, q', hacc, hq', htotal⟩
  · exact Or.inl (hsame ▸ hpool')
  · cases hpool'.symm.trans hq'
    have hlast : pool'.lastUpdated = q.lastUpdated := by rw [htotal]
    refine Or.inr ⟨pool, q, hP, hacc, hlast.trans (accrueInterest_lastUpdated hacc.accrues), fun side => ?_⟩
    rw [htotal]
    cases side <;> rfl

omit [DecidableEq A] in
/-- A stored accrual reaches the bound and does not move it. -/
theorem Paced.bound_follows {P : AssetId → Prop} (h : Paced s) (hf : Follows P s s')
    (hfits : ∀ b pool, P b → s.lending.pools b = some pool → NoWrap s.blockNumber pool) (side : Side) :
    bound s' side = bound s side := by
  funext b
  cases hpool' : s'.lending.pools b with
  | none =>
    rcases hf.pools b with hsame | ⟨_, _, _, q', _, hq', _⟩
    · rw [bound, bound, hpool', ← hsame, hpool']
      rfl
    · rw [hpool'] at hq'
      cases hq'
  | some pool' =>
    rcases hf.stored hpool' with hold | ⟨pool, q, hP, hacc, hlast, hindex⟩
    · rw [bound, bound, hpool', hold, hf.block]
    · rw [h.bound_eq hacc (hfits b pool hP hacc.stored), bound, hpool', Option.map_some, hf.block,
        indexBound_self hlast, hindex]

omit [DecidableEq A] in
theorem Paced.follows {P : AssetId → Prop} (h : Paced s) (hf : Follows P s s')
    (hfits : ∀ b pool, P b → s.lending.pools b = some pool → NoWrap s.blockNumber pool) : Paced s' := by
  refine ⟨fun b pool' hpool' => ?_, fun b pool' hpool' side => ?_, fun side b v user hr => ?_⟩
  · rw [hf.block]
    rcases hf.stored hpool' with hold | ⟨_, _, _, _, hlast, _⟩
    · exact h.last b pool' hold
    · rw [hlast]
  · rcases hf.stored hpool' with hold | ⟨pool, q, hP, hacc, _, hindex⟩
    · exact h.pools b pool' hold side
    · rw [hindex]
      exact h.one_le hacc (hfits b pool hP hacc.stored) side
  · rw [h.bound_follows hf hfits]
    rcases hf.records side b v user hr with hold | ⟨hP, pool, q, hacc, hindex⟩
    · exact h.records side b v user hold
    · rw [hindex]
      have hwrap := hfits b pool hP hacc.stored
      exact ⟨h.one_le hacc hwrap side, _, h.bound_eq hacc hwrap side, le_refl _⟩

/-- What each action of a run has to meet: a call multiplies no index by a multiplier that wraps, and no pool is made
twice. -/
def PacedStep (s : Chain A) : Action A → Prop
  | .call _ (.lending (.initPool id _)) => s.lending.pools id = none
  | .call (.signed _) (.lending call) => call.Fits s
  | _ => True

omit [DecidableEq A] in
theorem fits_of_pacedStep (h : PacedStep s (.call (.signed u) (.lending call))) : call.Fits s := by
  cases call with
  | initPool id c => exact fun b pool haccrues => haccrues.elim
  | _ => exact h

theorem genesis_paced {g : Genesis A} (h : genesis .release g = some s) : Paced s := by
  obtain ⟨_, hsupplies, hdebts, hpools⟩ := genesis_lending h
  refine ⟨fun a pool hpool => by rw [genesis_lastUpdated h a pool hpool], fun a pool hpool side => ?_, ?_⟩
  · rw [hpools a pool hpool, newPool_index]
  · intro side a u user hr
    cases side with
    | supply =>
      change s.lending.supplies.records (a, u) = some user at hr
      rw [hsupplies] at hr
      cases hr
    | debt =>
      change s.lending.debts.records (a, u) = some user at hr
      rw [hdebts] at hr
      cases hr

theorem step_paced {l : Action A} (h : Paced s) (hok : PacedStep s l) (hs : step cfg .release s l = some s') :
    Paced s' := by
  rcases step_storage hs with ⟨n, rfl, hlt, rfl⟩ | ⟨u, call, r, rfl, hcall⟩ | ⟨origin, id, c, rfl, rfl⟩ | ⟨hl, hblock⟩
  · have hle := (BitVec.lt_def.mp hlt).le
    refine ⟨fun a pool hpool => (h.last a pool hpool).trans hle, h.pools, fun side a u user hr => ?_⟩
    obtain ⟨hone, i, hi, hindex⟩ := h.records side a u user hr
    obtain ⟨i', hi', hle'⟩ := bound_advance hle hi
    exact ⟨hone, i', hi', hindex.trans hle'⟩
  · exact h.follows hcall.follows (fits_of_pacedStep hok)
  · have hnone : s.lending.pools id = none := by cases origin <;> exact hok
    refine ⟨fun a pool hpool => ?_, fun a pool hpool side => ?_, fun side a u user hr => ?_⟩
    · rcases stored_cases hpool with ⟨_, ⟨⟩⟩ | ⟨_, hold⟩
      · exact le_refl _
      · exact h.last a pool hold
    · rcases stored_cases hpool with ⟨_, ⟨⟩⟩ | ⟨_, hold⟩
      · rw [newPool_index]
      · exact h.pools a pool hold side
    · change ((s.lending.commit (newPool s.blockNumber id c) id).book side).records (a, u) = some user at hr
      rw [book_commit] at hr
      obtain ⟨hone, i, hi, hindex⟩ := h.records side a u user hr
      exact ⟨hone, i, bound_init hnone hi, hindex⟩
  · exact h.follows (P := fun _ => False) (follows_of_lending hl hblock) (fun _ _ hf => hf.elim)

theorem div_of_le {I J : FixedU128} (hone : accuracy ≤ J.toNat) (hle : J.toNat ≤ I.toNat) :
    ∃ ratio, I.div J = some ratio ∧ accuracy ≤ ratio.toNat := by
  have hpos : 0 < J.toNat := lt_of_lt_of_le accuracy_pos hone
  have hfit : rounded 128 (I.toNat * accuracy) J.toNat < 2 ^ 128 := by
    refine (rounded_le_of_le hpos ?_).trans_lt I.toNat_lt
    rw [Nat.mul_comm]
    exact Nat.mul_le_mul_right _ hone
  have hdiv : I.div J = some ⟨BitVec.ofNat 128 (rounded 128 (I.toNat * accuracy) J.toNat)⟩ := by
    rw [Fixed.div_eq hpos.ne', fit, if_pos hfit]
    rfl
  refine ⟨_, hdiv, ?_⟩
  rw [(Fixed.toNat_div hdiv).2]
  exact le_rounded_of_le hpos (Nat.mul_le_mul_right _ hle)

/-- **Records never run ahead of their pool.** In every state reached by blocks and calls of which no multiplier wraps
and that make no pool twice, the index of every record is between one and the index that `accrue_interest` produces at
the current block, if its own multipliers do not wrap. The quotient of the two is then at least one, and the accrued
amount at least the stored one. -/
theorem records_behind {user : Position} (h : Reached cfg PacedStep s)
    (hr : (s.lending.book side).records (a, u) = some user) :
    accuracy ≤ user.index.toNat ∧ ∃ pool, s.lending.pools a = some pool ∧
      ∀ q, NoWrap s.blockNumber pool → accrueInterest .release s.blockNumber pool = some q →
        user.index.toNat ≤ (q.index side).toNat ∧
        (∃ ratio, (q.index side).div user.index = some ratio ∧ accuracy ≤ ratio.toNat) ∧
        ∃ amount, user.accrued .release (q.index side) = some amount ∧ user.amount.toNat ≤ amount.toNat := by
  have hpaced : Paced s := h.invariant (fun g s => genesis_paced) (fun s l s' => step_paced)
  obtain ⟨hone, i, hi, hle⟩ := hpaced.records side a u user hr
  obtain ⟨pool, hpool, rfl⟩ := Option.map_eq_some_iff.mp hi
  refine ⟨hone, pool, hpool, fun q hwrap hq => ?_⟩
  rw [← index_accrued (hpaced.last a pool hpool) hwrap hq] at hle
  obtain ⟨ratio, hratio, hratio_le⟩ := div_of_le hone hle
  have haccrued : user.accrued .release (q.index side) = some (worth ratio user.amount) :=
    Option.bind_eq_some_iff.mpr ⟨ratio, hratio, mulInt_release _ _⟩
  exact ⟨hle, ⟨ratio, hratio, hratio_le⟩, _, haccrued, Book.amount_le_accrued hle haccrued⟩

/-- User `1` supplies, borrows, and is refused a withdrawal a million blocks later: its record has been rewritten and is
ahead of the stored pool. After another million blocks the pool would be ahead again. -/
theorem records_behind_mock : ∃ s pool q user, Reached mockConfig PacedStep s ∧ s.lending.pools 0 = some pool ∧
    s.lending.supplies.records (0, 1) = some user ∧ accrueInterest .release s.blockNumber pool = some q ∧
    pool.totalSupplyIndex.toNat < user.index.toNat ∧ user.index.toNat ≤ q.totalSupplyIndex.toNat := by
  obtain ⟨s₀, s₁, s₂, s₃, s₄, s₅, s₆, pool, q, user, h₀, h₁, hok₂, h₂, hok₃, h₃, h₄, hok₅, h₅, h₆, hpool, hwrap, hq,
      hr, hahead⟩ :
      ∃ (s₀ s₁ s₂ s₃ s₄ s₅ s₆ : Chain (Fin 4)) (pool q : Pool) (user : Position),
      genesis .release mockGenesis = some s₀ ∧
      step mockConfig .release s₀ (.advance 1) = some s₁ ∧
      PacedStep s₁ (.call (.signed 1) (.lending (.supply 0 200000))) ∧
      step mockConfig .release s₁ (.call (.signed 1) (.lending (.supply 0 200000))) = some s₂ ∧
      PacedStep s₂ (.call (.signed 1) (.lending (.borrow 0 100000))) ∧
      step mockConfig .release s₂ (.call (.signed 1) (.lending (.borrow 0 100000))) = some s₃ ∧
      step mockConfig .release s₃ (.advance 1000001) = some s₄ ∧
      PacedStep s₄ (.call (.signed 1) (.lending (.withdraw 0 200000))) ∧
      step mockConfig .release s₄ (.call (.signed 1) (.lending (.withdraw 0 200000))) = some s₅ ∧
      step mockConfig .release s₅ (.advance 2000001) = some s₆ ∧
      s₆.lending.pools 0 = some pool ∧ NoWrap s₆.blockNumber pool ∧
      accrueInterest .release s₆.blockNumber pool = some q ∧
      s₆.lending.supplies.records (0, 1) = some user ∧ pool.totalSupplyIndex.toNat < user.index.toNat := by
    refine ⟨_, _, _, _, _, _, _, _, _, _, rfl, rfl, ?_, rfl, ?_, rfl, rfl, ?_, rfl, rfl, rfl, ?_, rfl, rfl, by decide⟩
    · rintro b pool ⟨⟩ ⟨⟩ (_ | _) rate ⟨⟩ <;> decide
    · rintro b pool ⟨⟩ ⟨⟩ (_ | _) rate ⟨⟩ <;> decide
    · rintro b pool ⟨⟩ ⟨⟩ (_ | _) rate ⟨⟩ <;> decide
    · rintro (_ | _) rate ⟨⟩ <;> decide
  have hadvance : ∀ (s : Chain (Fin 4)) n, PacedStep s (.advance n) := fun _ _ => trivial
  have hreached : Reached mockConfig PacedStep s₆ :=
    ⟨mockGenesis, s₀, h₀, (((((Run.refl.tail (hadvance _ _) h₁).tail hok₂ h₂).tail hok₃ h₃).tail (hadvance _ _) h₄).tail
      hok₅ h₅).tail (hadvance _ _) h₆⟩
  obtain ⟨_, pool', hpool', hbehind⟩ :=
    records_behind hreached (show (s₆.lending.book .supply).records (0, 1) = _ from hr)
  cases hpool.symm.trans hpool'
  exact ⟨s₆, pool, q, user, hreached, hpool, hr, hq, hahead, (hbehind q hwrap hq).1⟩

/-! ## Indexes only grow -/

/-- The pools of `s` are still there, at indexes that are not lower. -/
def IndexesGrow (s s' : Chain A) : Prop :=
  ∀ a pool, s.lending.pools a = some pool → ∃ pool', s'.lending.pools a = some pool' ∧
    ∀ side, (pool.index side).toNat ≤ (pool'.index side).toNat

omit [DecidableEq A] in
theorem IndexesGrow.refl (s : Chain A) : IndexesGrow s s := fun _ pool hpool => ⟨pool, hpool, fun _ => le_refl _⟩

omit [DecidableEq A] in
theorem IndexesGrow.trans (h : IndexesGrow s s') (h' : IndexesGrow s' t) : IndexesGrow s t := by
  intro a pool hpool
  obtain ⟨pool', hpool', hle⟩ := h a pool hpool
  obtain ⟨pool'', hpool'', hle'⟩ := h' a pool' hpool'
  exact ⟨pool'', hpool'', fun side => (hle side).trans (hle' side)⟩

/-- Accounts that an action may take supplies from. -/
def Takes : Action A → A → Prop
  | .call (.signed u) (.lending (.withdraw _ _)), v => v = u
  | .call _ (.lending (.liquidate target _ _ _)), v => v = target
  | _, _ => False

/-- No supply view of another account is lowered. -/
def SuppliesKept (s s' : Chain A) (taken : A → Prop) : Prop :=
  ∀ a v w w', ¬ taken v → getUserSupplyWithInterest .release s a v = some w →
    getUserSupplyWithInterest .release s' a v = some w' → w.toNat ≤ w'.toNat

/-- A pool without interest: its indexes are at most one, and its supply index would be if it was accrued. -/
def Fresh (now : BlockNumber) (pool : Pool) : Prop :=
  (∀ side, (pool.index side).toNat ≤ accuracy) ∧ ∀ I, supplyIndexNow .release now pool = some I → I.toNat ≤ accuracy

/-- What each action of a run has to meet: `init_pool` finds no pool or one without interest, no multiplier of a call
wraps, and a supply that its payer covers does not wrap the accrued position. -/
def GrowStep (cfg : Config A) (s : Chain A) : Action A → Prop
  | .call _ (.lending (.initPool id _)) => ∀ pool, s.lending.pools id = some pool → Fresh s.blockNumber pool
  | .call (.signed u) (.lending call) => call.Fits s ∧
      ∀ r : Ready cfg s u call, r.side = .supply → r.positive = true → r.value.toNat + r.x.toNat < 2 ^ 128
  | _ => True

omit [DecidableEq A] in
theorem growStep_call (h : GrowStep cfg s (.call (.signed u) (.lending call))) : call.Fits s ∧
    ∀ r : Ready cfg s u call, r.side = .supply → r.positive = true → r.value.toNat + r.x.toNat < 2 ^ 128 := by
  cases call with
  | initPool id c => exact ⟨fun b pool haccrues => haccrues.elim, fun r => by cases r.entry⟩
  | _ => exact h

theorem step_indexesGrow {l : Action A}
    (hlast : ∀ a pool, s.lending.pools a = some pool → pool.lastUpdated.toNat ≤ s.blockNumber.toNat)
    (hok : GrowStep cfg s l) (hs : step cfg .release s l = some s') : IndexesGrow s s' := by
  rcases step_storage hs with ⟨n, rfl, _, rfl⟩ | ⟨u, call, r, rfl, hcall⟩ | ⟨origin, id, c, rfl, rfl⟩ | ⟨hl, _⟩
  · exact IndexesGrow.refl s
  · intro b pool hpool
    rcases hcall.follows.pools b with hsame | ⟨haccrues, pool₀, q, q', hacc, hq', htotal⟩
    · exact ⟨pool, hsame.trans hpool, fun _ => le_refl _⟩
    · cases hpool.symm.trans hacc.stored
      refine ⟨q', hq', fun side => ?_⟩
      have hindex : q'.index side = q.index side := by
        rw [htotal]
        cases side <;> rfl
      rw [hindex, index_accrued (hlast b pool hpool) ((growStep_call hok).1 b pool haccrues hpool) hacc.accrues]
      exact index_le_indexBound
  · have hfresh : ∀ pool, s.lending.pools id = some pool → Fresh s.blockNumber pool := by cases origin <;> exact hok
    intro b pool hpool
    by_cases hb : b = id
    · subst hb
      refine ⟨newPool s.blockNumber b c, Function.update_self .., fun side => ?_⟩
      rw [newPool_index]
      exact (hfresh pool hpool).1 side
    · exact ⟨pool, (Function.update_of_ne hb ..).trans hpool, fun _ => le_refl _⟩
  · intro b pool hpool
    exact ⟨pool, by rw [hl, hpool], fun _ => le_refl _⟩

theorem valueAt_mono {I J : FixedU128} {r : Option Position} {w w' : Balance} (hle : I.toNat ≤ J.toNat)
    (hw : valueAt .release I r = some w) (hw' : valueAt .release J r = some w') : w.toNat ≤ w'.toNat := by
  cases r with
  | none =>
    cases hw
    exact Nat.zero_le _
  | some user =>
    obtain ⟨hne, hw⟩ := toNat_accrued hw
    rw [hw, (toNat_accrued hw').2]
    exact min_le_min_right _ (accruedTo_mono hne hle _)

theorem Posting.suppliesKept {positive : Bool} {x : Balance} (entry : call.entry = some (side, positive, a, x))
    (d : Posting cfg .release s u side positive a x)
    (hfits : ∀ r : Ready cfg s u call, r.side = .supply → r.positive = true → r.value.toNat + r.x.toNat < 2 ^ 128) :
    SuppliesKept s d.result (Takes (.call (.signed u) (.lending call))) := by
  intro b v w w' htaken hw hw'
  change view .release s b v .supply = some w at hw
  change view .release d.result b v .supply = some w' at hw'
  by_cases hown : b = a ∧ v = u ∧ Side.supply = side
  · obtain ⟨rfl, rfl, rfl⟩ := hown
    cases positive with
    | false =>
      -- taking from a supply is a withdrawal
      have hcall : call = .withdraw b x := by
        cases call <;> cases entry
        rfl
      rw [hcall] at htaken
      exact absurd rfl htaken
    | true =>
      have hval := view_value d.stored d.accrues hw
      have hvalue : d.value = w := Option.some.inj (d.value_eq.symm.trans hval)
      have hamount : d.amount = x := d.amount_eq
      have hfits : d.value.toNat + d.amount.toNat < 2 ^ 128 := by
        rw [hamount]
        exact hfits (d.ready entry) rfl rfl
      rw [d.view_own hw', toNat_adjust_add d.value'_eq hfits, hvalue]
      exact Nat.le_add_right _ _
  · rw [d.view_other ⟨id, id⟩ hown hw hw']

/-- Every call that meets its condition keeps or raises the supply views of all accounts that it does not take from. -/
theorem step_suppliesKept {origin : Origin A} {c : Konomi.Call A} (hok : GrowStep cfg s (.call origin c))
    (hs : step cfg .release s (.call origin c) = some s') : SuppliesKept s s' (Takes (.call origin c)) := by
  have hsame : Shifted s s' (fun _ _ _ => 0) → SuppliesKept s s' (Takes (.call origin c)) := by
    intro hshift b v w w' _ hw hw'
    have hsame : (w'.toNat : Int) = w.toNat + 0 := hshift b v .supply w w' hw hw'
    omega
  rcases step_storage hs with ⟨n, ⟨⟩, _⟩ | ⟨u, call, r, hl, hcall⟩ | ⟨origin, id, c, ⟨⟩, rfl⟩ | ⟨hl, hblock⟩
  · obtain ⟨rfl, rfl⟩ := Action.call.inj hl
    cases hcall with
    | refused => exact hsame (shifted_of_touched (p := .release) ⟨id, id⟩ rfl rfl fun _ => Or.inl rfl)
    | touched side e entry stored accrues book =>
      exact hsame (shifted_of_touched ⟨id, id⟩ rfl (pools_setBook ..) (touched_setBook stored accrues book))
    | posted side positive entry d => exact d.suppliesKept entry (growStep_call hok).2
    | assessed e d => exact hsame (shifted_of_touched ⟨id, id⟩ rfl rfl (d.touched rfl))
    | halfway e d => exact hsame (shifted_of_touched ⟨id, id⟩ rfl rfl (d.touched rfl))
    | settled d =>
      intro b v w w' htaken hw hw'
      change view .release s b v .supply = some w at hw
      rw [d.view_other ⟨id, id⟩ (fun h => htaken h.2.1) (fun h => htaken h.2.1) hw hw']
  · have hfresh : ∀ pool, s.lending.pools id = some pool → Fresh s.blockNumber pool := by cases origin <;> exact hok
    intro b v w w' _ hw hw'
    by_cases hb : b = id
    · subst hb
      have hpool' : (_initPool s.blockNumber s.lending b c).pools b = some (newPool s.blockNumber b c) :=
        Function.update_self ..
      change view .release { s with lending := _initPool s.blockNumber s.lending b c } b v .supply = some w' at hw'
      have hval' := view_value hpool' (accrueInterest_self rfl) hw'
      cases hpool : s.lending.pools b with
      | none =>
        rw [getUserSupplyWithInterest, hpool] at hw
        cases hw
        exact Nat.zero_le _
      | some pool =>
        rw [getUserSupplyWithInterest, hpool] at hw
        obtain ⟨I, hI, hw⟩ := Option.bind_eq_some_iff.mp hw
        refine valueAt_mono ?_ hw hval'
        rw [newPool_index]
        exact (hfresh pool hpool).2 I hI
    · have hpools : (_initPool s.blockNumber s.lending id c).pools b = s.lending.pools b := Function.update_of_ne hb ..
      change view .release _ b v .supply = some w' at hw'
      rw [view_congr s { s with lending := _initPool s.blockNumber s.lending id c } rfl hpools rfl] at hw'
      rw [Option.some.inj (hw.symm.trans hw')]
  · exact hsame (shifted_of_touched (p := .release) ⟨id, id⟩ hblock (by rw [hl]) fun _ => Or.inl (by rw [hl]))

/-- **Interest only grows.** In every run from genesis whose actions meet their conditions, no index of a pool that
exists is lower at a later point of the run, and no call lowers a supply view except that of its caller in a withdrawal
and that of its target in a liquidation. -/
theorem interest_only_grows {t' : Chain A} {l : Action A} (hs : Reached cfg (GrowStep cfg) s)
    (hrun : Run (step cfg .release) (GrowStep cfg) s t) (hok : GrowStep cfg t l)
    (hstep : step cfg .release t l = some t') :
    IndexesGrow s t' ∧ ∀ origin c, l = .call origin c → SuppliesKept t t' (Takes l) := by
  have hreached : ∀ {r}, Run (step cfg .release) (GrowStep cfg) s r → Reached cfg (GrowStep cfg) r := by
    intro r hr
    obtain ⟨g, s₀, hs₀, hrun₀⟩ := hs
    exact ⟨g, s₀, hs₀, hrun₀.trans hr⟩
  have hgrow : ∀ {r}, Run (step cfg .release) (GrowStep cfg) s r → IndexesGrow s r := by
    intro r hr
    induction hr with
    | refl => exact IndexesGrow.refl s
    | tail hr hok hstep ih =>
      exact ih.trans (step_indexesGrow (fun a pool => reached_last (hreached hr)) hok hstep)
  refine ⟨hgrow (hrun.tail hok hstep), ?_⟩
  rintro origin c rfl
  exact step_suppliesKept hok hstep

/-- A supply, a loan, and a second supply a million blocks later, which stores the interest of both sides. -/
theorem interest_only_grows_mock : ∃ s t t' pool, Reached mockConfig (GrowStep mockConfig) s ∧
    Run (step mockConfig .release) (GrowStep mockConfig) s t ∧
    step mockConfig .release t (.call (.signed 1) (.lending (.supply 0 1))) = some t' ∧
    t'.lending.pools 0 = some pool ∧ accuracy < pool.totalSupplyIndex.toNat ∧ IndexesGrow s t' ∧
    SuppliesKept t t' (Takes (.call (.signed 1) (.lending (.supply 0 1)))) := by
  obtain ⟨s₀, s₁, s₂, s₃, s₄, s₅, pool, h₀, h₁, hok₂, h₂, hok₃, h₃, h₄, hok₅, h₅, hpool, hindex⟩ :
      ∃ (s₀ s₁ s₂ s₃ s₄ s₅ : Chain (Fin 4)) (pool : Pool), genesis .release mockGenesis = some s₀ ∧
      step mockConfig .release s₀ (.advance 1) = some s₁ ∧
      GrowStep mockConfig s₁ (.call (.signed 1) (.lending (.supply 0 200000))) ∧
      step mockConfig .release s₁ (.call (.signed 1) (.lending (.supply 0 200000))) = some s₂ ∧
      GrowStep mockConfig s₂ (.call (.signed 1) (.lending (.borrow 0 100000))) ∧
      step mockConfig .release s₂ (.call (.signed 1) (.lending (.borrow 0 100000))) = some s₃ ∧
      step mockConfig .release s₃ (.advance 1000001) = some s₄ ∧
      GrowStep mockConfig s₄ (.call (.signed 1) (.lending (.supply 0 1))) ∧
      step mockConfig .release s₄ (.call (.signed 1) (.lending (.supply 0 1))) = some s₅ ∧
      s₅.lending.pools 0 = some pool ∧ accuracy < pool.totalSupplyIndex.toNat := by
    refine ⟨_, _, _, _, _, _, _, rfl, rfl, ⟨?_, ?_⟩, rfl, ⟨?_, ?_⟩, rfl, rfl, ⟨?_, ?_⟩, rfl, rfl, by decide⟩
    · rintro b pool ⟨⟩ ⟨⟩ (_ | _) rate ⟨⟩ <;> decide
    · rintro ⟨side, positive, a, x, pool, q, value, ⟨⟩, ⟨⟩, ⟨⟩, ⟨⟩, _⟩ _ _
      dsimp only
      decide
    · rintro b pool ⟨⟩ ⟨⟩ (_ | _) rate ⟨⟩ <;> decide
    · rintro ⟨side, positive, a, x, pool, q, value, ⟨⟩, _⟩ ⟨⟩
    · rintro b pool ⟨⟩ ⟨⟩ (_ | _) rate ⟨⟩ <;> decide
    · rintro ⟨side, positive, a, x, pool, q, value, ⟨⟩, ⟨⟩, ⟨⟩, ⟨⟩, _⟩ _ _
      dsimp only
      decide
  have hadvance : ∀ (s : Chain (Fin 4)) n, GrowStep mockConfig s (.advance n) := fun _ _ => trivial
  have hreached : Reached mockConfig (GrowStep mockConfig) s₀ := ⟨mockGenesis, s₀, h₀, Run.refl⟩
  have hrun : Run (step mockConfig .release) (GrowStep mockConfig) s₀ s₄ :=
    (((Run.refl.tail (hadvance _ _) h₁).tail hok₂ h₂).tail hok₃ h₃).tail (hadvance _ _) h₄
  obtain ⟨hgrow, hkept⟩ := interest_only_grows hreached hrun hok₅ h₅
  exact ⟨s₀, s₄, s₅, pool, hreached, hrun, h₅, hpool, hindex, hgrow, hkept _ _ rfl⟩

/-- Anyone makes the pool anew after it has earned interest: its indexes fall back to one, and the supply of user `1`
is worth less. -/
theorem pool_made_anew : ∃ s s', play mockConfig .release mockGenesis
      [.advance 1, .call (.signed 1) (.lending (.supply 0 200000)), .call (.signed 1) (.lending (.borrow 0 100000)),
        .advance 1000001, .call (.signed 1) (.lending (.supply 0 1))] = some s ∧
    step mockConfig .release s (.call (.signed 2) (.lending (.initPool 0 true))) = some s' ∧
    ¬ IndexesGrow s s' ∧ ¬ SuppliesKept s s' (Takes (.call (.signed 2) (.lending (.initPool 0 true)))) := by
  refine ⟨_, _, rfl, rfl, fun h => ?_, fun h => ?_⟩
  · obtain ⟨pool', ⟨⟩, hle⟩ := h 0 _ rfl
    exact absurd (hle .supply) (by decide)
  · exact absurd (h 0 1 _ _ (fun h => h) rfl rfl) (by decide)

end Konomi.Lending
