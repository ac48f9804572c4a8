import Konomi.Lending.Info
import Konomi.Lending.Pools

/-!
# Why a call is refused

`Refusal` lists every `Err` of `supply`, `withdraw`, `borrow` and `repay` of the release build: the check that failed,
and the storage that is left. `borrow` checks the liquidity before it accrues the caller's record, `withdraw` and
`repay` have the record accrued and stored first (`Touch`), so most refusals come after a write.
`unchanged_iff` says when that write changed nothing.
-/

namespace Konomi.Lending
open Machine Assets

variable {A : Type} [DecidableEq A] {cfg : Config A} {s s' : Chain A} {u : A} {a : AssetId} {x : Balance} {side : Side}
  {call : Call A} {e : DispatchError}

/-- The caller's record of an asset is accrued and stored, the pool is accrued in memory. -/
structure Touch (s : Chain A) (u : A) (side : Side) (a : AssetId) where
  pool : Pool
  accrued : Pool
  book : Book A
  stored : s.lending.pools a = some pool
  accrues : accrueInterest .release s.blockNumber pool = some accrued
  touches : (s.lending.book side).accrue .release (accrued.index side) a u = some book

namespace Touch

def state (t : Touch s u side a) : Chain A := { s with lending := s.lending.setBook t.book side }

theorem touched (t : Touch s u side a) : ∀ side', Touched .release s t.state side' :=
  touched_setBook t.stored t.accrues t.touches

theorem getUserInfo_eq (t : Touch s u side a) {info : Balance × Balance × Balance}
    (h : getUserInfo .release t.state u = some info) : getUserInfo .release s u = some info :=
  getUserInfo_of_touched s t.state rfl rfl (pools_setBook ..) t.touched h

/-- The write changes nothing exactly when there is no record, or one that stands at the accrued index. -/
theorem state_eq_iff (t : Touch s u side a) :
    t.state = s ↔ ∀ user, (s.lending.book side).records (a, u) = some user → user.index = t.accrued.index side := by
  have hstate : t.state = s ↔ t.book = s.lending.book side := by
    constructor
    · intro h
      have hbook : t.state.lending.book side = s.lending.book side := by rw [h]
      simpa [state] using hbook
    · intro h
      unfold state
      rw [h]
      cases side <;> rfl
  rw [hstate]
  obtain ⟨v, hv, ⟨hnone, hbook⟩ | ⟨hsome, hbook⟩⟩ := Book.accrue_cases t.touches
  · rw [hbook, hnone]
    simp
  · obtain ⟨user, huser⟩ := Option.isSome_iff_exists.mp hsome
    rw [huser] at hv ⊢
    constructor
    · intro h user' huser'
      cases huser'
      have hrecord : t.book.records (a, u) = some user := by rw [h, huser]
      rw [hbook] at hrecord
      simp only [Function.update_self, Option.some.injEq] at hrecord
      rw [← hrecord]
    · intro h
      have hindex := h user rfl
      -- at its own index a record is worth its amount
      have hamount : v = user.amount := by
        rw [← hindex] at hv
        exact (valueAt_self hv).1
      have hrecord : (⟨v, t.accrued.index side⟩ : Position) = user := by rw [hamount, ← hindex]
      rw [hbook, hrecord, ← huser, Function.update_eq_self]

end Touch

/-! ## Refusals -/

/-- What is refused, why, and what is left in storage. -/
inductive Refusal (cfg : Config A) (s : Chain A) (u : A) : Call A → DispatchError → Chain A → Prop
  | noPool {call : Call A} {side : Side} {positive : Bool} {a : AssetId} {x : Balance}
      (entry : call.entry = some (side, positive, a, x)) (missing : s.lending.pools a = none) :
      Refusal cfg s u call (.lending .poolNotExist) s
  | unfunded {a : AssetId} {x : Balance} (uncovered : ¬ s.assets.Covered u a x) :
      Refusal cfg s u (.supply a x) (.lending .transferFailed) s
  | illiquid {a : AssetId} {x : Balance} {pool q : Pool} (acc : AccruesTo s a pool q) (cash : q.supply - q.debt < x) :
      Refusal cfg s u (.borrow a x) (.lending .notEnoughLiquidity) s
  | noSupply {a : AssetId} {x : Balance} (t : Touch s u .supply a)
      (missing : s.lending.supplies.records (a, u) = none) :
      Refusal cfg s u (.withdraw a x) (.lending .userNoSupply) t.state
  | noDebt {a : AssetId} {x : Balance} (t : Touch s u .debt a) (missing : s.lending.debts.records (a, u) = none) :
      Refusal cfg s u (.repay a x) (.lending .userNoDebt) t.state
  | withdrawal {a : AssetId} {x m : Balance} {info : Balance × Balance × Balance} {factor : FixedU128}
      {e : LendingError} (t : Touch s u .supply a) {user : Position} (record : t.book.records (a, u) = some user)
      (amount : m = transferred false user.amount x) (info_eq : getUserInfo .release t.state u = some info)
      (factor_eq : (s.assets.getRate a).mul t.accrued.safeFactor = some factor)
      (fails : (e = .belowLiquidationThreshold ∧
          info.2.1 - worth factor m < worth s.lending.liquidationThreshold info.2.2) ∨
        (e = .notEnoughLiquidity ∧ t.accrued.supply - t.accrued.debt < m) ∨
        (e = .transferFailed ∧ ¬ s.assets.Covered cfg.accountId a m)) :
      Refusal cfg s u (.withdraw a x) (.lending e) t.state
  | loan {a : AssetId} {x : Balance} {info : Balance × Balance × Balance} {e : LendingError} (t : Touch s u .debt a)
      (cash : ¬ t.accrued.supply - t.accrued.debt < x) (info_eq : getUserInfo .release t.state u = some info)
      (fails : (e = .belowLiquidationThreshold ∧
          info.2.1 < worth s.lending.liquidationThreshold (info.2.2 + worth (s.assets.getRate a) x)) ∨
        (e = .transferFailed ∧ ¬ s.assets.Covered cfg.accountId a x)) :
      Refusal cfg s u (.borrow a x) (.lending e) t.state
  | repayment {a : AssetId} {x : Balance} (t : Touch s u .debt a) {user : Position}
      (record : t.book.records (a, u) = some user)
      (uncovered : ¬ s.assets.Covered u a (transferred false user.amount x)) :
      Refusal cfg s u (.repay a x) (.lending .transferFailed) t.state

section Inversion

theorem supply_refusal (h : supply cfg .release s u a x = some (.error e, s')) :
    Refusal cfg s u (.supply a x) e s' := by
  unfold supply at h
  cases hpool : s.lending.pools a with
  | none =>
    rw [hpool] at h
    cases h
    exact Refusal.noPool rfl hpool
  | some pool =>
    rw [hpool] at h
    obtain ⟨q, hq, h⟩ := Option.bind_eq_some_iff.mp h
    obtain ⟨t, ht, h⟩ := Option.bind_eq_some_iff.mp h
    cases t with
    | error m =>
      cases h
      exact Refusal.unfunded (transfer_error ht)
    | ok assets =>
      obtain ⟨l, _, h⟩ := Option.bind_eq_some_iff.mp h
      obtain ⟨q', _, h⟩ := Option.bind_eq_some_iff.mp h
      cases h

theorem withdraw_refusal (h : withdraw cfg .release s u a x = some (.error e, s')) :
    Refusal cfg s u (.withdraw a x) e s' := by
  unfold withdraw at h
  cases hpool : s.lending.pools a with
  | none =>
    rw [hpool] at h
    cases h
    exact Refusal.noPool rfl hpool
  | some pool =>
    rw [hpool] at h
    obtain ⟨q, hq, h⟩ := Option.bind_eq_some_iff.mp h
    obtain ⟨l, hl, h⟩ := Option.bind_eq_some_iff.mp h
    obtain ⟨b, hb, hl⟩ := Option.bind_eq_some_iff.mp hl
    cases hl
    let t : Touch s u .supply a := ⟨pool, q, b, hpool, hq, hb⟩
    dsimp only at h
    cases hr : b.records (a, u) with
    | none =>
      rw [hr] at h
      cases h
      exact Refusal.noSupply t (Book.accrue_none hb hr)
    | some user =>
      rw [hr] at h
      dsimp only at h
      generalize hm : (if user.amount < x then user.amount else x) = m at h
      obtain ⟨info, hinfo, h⟩ := Option.bind_eq_some_iff.mp h
      obtain ⟨factor, hfactor, h⟩ := Option.bind_eq_some_iff.mp h
      simp only [mulInt_release, sub_release, Option.bind_eq_bind, Option.bind_some] at h
      split at h
      · cases h
        exact Refusal.withdrawal t hr hm.symm hinfo hfactor (Or.inl ⟨rfl, ‹_›⟩)
      · split at h
        · cases h
          exact Refusal.withdrawal t hr hm.symm hinfo hfactor (Or.inr (Or.inl ⟨rfl, ‹_›⟩))
        · obtain ⟨o, ho, h⟩ := Option.bind_eq_some_iff.mp h
          cases o with
          | error m =>
            cases h
            exact Refusal.withdrawal t hr hm.symm hinfo hfactor (Or.inr (Or.inr ⟨rfl, transfer_error ho⟩))
          | ok assets =>
            obtain ⟨l, _, h⟩ := Option.bind_eq_some_iff.mp h
            obtain ⟨q', _, h⟩ := Option.bind_eq_some_iff.mp h
            cases h

theorem borrow_refusal (h : borrow cfg .release s u a x = some (.error e, s')) :
    Refusal cfg s u (.borrow a x) e s' := by
  unfold borrow at h
  cases hpool : s.lending.pools a with
  | none =>
    rw [hpool] at h
    cases h
    exact Refusal.noPool rfl hpool
  | some pool =>
    rw [hpool] at h
    obtain ⟨q, hq, h⟩ := Option.bind_eq_some_iff.mp h
    simp only [sub_release, Option.bind_eq_bind, Option.bind_some] at h
    split at h
    · cases h
      exact Refusal.illiquid ⟨hpool, hq⟩ ‹_›
    · obtain ⟨l, hl, h⟩ := Option.bind_eq_some_iff.mp h
      obtain ⟨b, hb, hl⟩ := Option.bind_eq_some_iff.mp hl
      cases hl
      let t : Touch s u .debt a := ⟨pool, q, b, hpool, hq, hb⟩
      obtain ⟨info, hinfo, h⟩ := Option.bind_eq_some_iff.mp h
      simp only [mulInt_release, add_release, Option.bind_some] at h
      split at h
      · cases h
        exact Refusal.loan t ‹_› hinfo (Or.inl ⟨rfl, ‹_›⟩)
      · obtain ⟨o, ho, h⟩ := Option.bind_eq_some_iff.mp h
        cases o with
        | error m =>
          cases h
          exact Refusal.loan t ‹_› hinfo (Or.inr ⟨rfl, transfer_error ho⟩)
        | ok assets =>
          obtain ⟨l, _, h⟩ := Option.bind_eq_some_iff.mp h
          obtain ⟨q', _, h⟩ := Option.bind_eq_some_iff.mp h
          cases h

theorem repay_refusal (h : repay cfg .release s u a x = some (.error e, s')) : Refusal cfg s u (.repay a x) e s' := by
  unfold repay at h
  cases hpool : s.lending.pools a with
  | none =>
    rw [hpool] at h
    cases h
    exact Refusal.noPool rfl hpool
  | some pool =>
    rw [hpool] at h
    obtain ⟨q, hq, h⟩ := Option.bind_eq_some_iff.mp h
    obtain ⟨l, hl, h⟩ := Option.bind_eq_some_iff.mp h
    obtain ⟨b, hb, hl⟩ := Option.bind_eq_some_iff.mp hl
    cases hl
    let t : Touch s u .debt a := ⟨pool, q, b, hpool, hq, hb⟩
    dsimp only at h
    cases hr : b.records (a, u) with
    | none =>
      rw [hr] at h
      cases h
      exact Refusal.noDebt t (Book.accrue_none hb hr)
    | some user =>
      rw [hr] at h
      obtain ⟨o, ho, h⟩ := Option.bind_eq_some_iff.mp h
      cases o with
      | error m =>
        cases h
        exact Refusal.repayment t hr (transfer_error ho)
      | ok assets =>
        obtain ⟨l, _, h⟩ := Option.bind_eq_some_iff.mp h
        obtain ⟨q', _, h⟩ := Option.bind_eq_some_iff.mp h
        cases h

/-- **Every `Err` of a signed call on one's own position.** -/
theorem refusal_of_error (hcall : call.entry.isSome)
    (h : dispatch cfg .release s (.signed u) call = some (.error e, s')) : Refusal cfg s u call e s' := by
  cases call with
  | supply a x => exact supply_refusal h
  | withdraw a x => exact withdraw_refusal h
  | borrow a x => exact borrow_refusal h
  | repay a x => exact repay_refusal h
  | liquidate target payId getId x => cases hcall
  | initPool id c => cases hcall

end Inversion

/-! ## What a refusal leaves -/

/-- The call gets as far as storing the caller's record at the accrued index, and the record stands at another one. -/
def Rewrites (s : Chain A) (u : A) : Call A → Prop
  | .withdraw a _ => ∃ pool q user, AccruesTo s a pool q ∧ s.lending.supplies.records (a, u) = some user ∧
      user.index ≠ q.totalSupplyIndex
  | .borrow a x => ∃ pool q user, AccruesTo s a pool q ∧ x ≤ q.supply - q.debt ∧
      s.lending.debts.records (a, u) = some user ∧ user.index ≠ q.totalDebtIndex
  | .repay a _ => ∃ pool q user, AccruesTo s a pool q ∧ s.lending.debts.records (a, u) = some user ∧
      user.index ≠ q.totalDebtIndex
  | _ => False

theorem Touch.accrued_unique (t : Touch s u side a) {pool q : Pool} (h : AccruesTo s a pool q) : q = t.accrued := by
  have hpool := h.stored
  rw [t.stored] at hpool
  cases hpool
  exact Option.some.inj (h.accrues.symm.trans t.accrues)

theorem Touch.unchanged_iff (t : Touch s u side a) : t.state = s ↔ ¬ ∃ pool q user, AccruesTo s a pool q ∧
    (s.lending.book side).records (a, u) = some user ∧ user.index ≠ q.index side := by
  rw [t.state_eq_iff]
  constructor
  · rintro h ⟨pool, q, user, hacc, hr, hne⟩
    rw [t.accrued_unique hacc] at hne
    exact hne (h user hr)
  · intro h user hr
    by_contra hne
    exact h ⟨t.pool, t.accrued, user, ⟨t.stored, t.accrues⟩, hr, hne⟩

theorem Refusal.unchanged_iff (h : Refusal cfg s u call e s') : s' = s ↔ ¬ Rewrites s u call := by
  cases h with
  | @noPool _ side positive a x entry missing =>
    refine ⟨fun _ hrewrites => ?_, fun _ => rfl⟩
    have hnone : ∀ {pool q}, ¬ AccruesTo s a pool q := by
      intro pool q hacc
      rw [hacc.stored] at missing
      cases missing
    cases call with
    | supply => exact hrewrites
    | withdraw =>
      obtain ⟨_, _, _, hacc, _⟩ := hrewrites
      cases entry
      exact hnone hacc
    | borrow =>
      obtain ⟨_, _, _, hacc, _⟩ := hrewrites
      cases entry
      exact hnone hacc
    | repay =>
      obtain ⟨_, _, _, hacc, _⟩ := hrewrites
      cases entry
      exact hnone hacc
    | liquidate => exact hrewrites
    | initPool => exact hrewrites
  | unfunded => exact ⟨fun _ h => h, fun _ => rfl⟩
  | @illiquid a x pool q acc cash =>
    refine ⟨fun _ hrewrites => ?_, fun _ => rfl⟩
    obtain ⟨pool', q', user, hacc, hcash, _⟩ := hrewrites
    cases acc.stored.symm.trans hacc.stored
    cases acc.accrues.symm.trans hacc.accrues
    exact absurd hcash (BitVec.not_le.mpr cash)
  | noSupply t => exact t.unchanged_iff
  | noDebt t => exact t.unchanged_iff
  | withdrawal t => exact t.unchanged_iff
  | loan t cash =>
    rw [t.unchanged_iff, not_iff_not]
    constructor
    · rintro ⟨pool, q, user, hacc, hr, hne⟩
      have hq := t.accrued_unique hacc
      exact ⟨pool, q, user, hacc, by rw [hq]; exact BitVec.not_lt.mp cash, hr, hne⟩
    · rintro ⟨pool, q, user, hacc, _, hr, hne⟩
      exact ⟨pool, q, user, hacc, hr, hne⟩
  | repayment t => exact t.unchanged_iff

/-- **When a failed call leaves no trace.** A supply, a withdrawal, a loan or a repayment that returns `Err` leaves the
whole storage as it was exactly when it has not rewritten the caller's record at another index. -/
theorem failed_call_unchanged_iff {origin : Origin A} (hcall : call.entry.isSome)
    (h : dispatch cfg .release s origin call = some (.error e, s')) :
    s' = s ↔ ∀ u, origin = .signed u → ¬ Rewrites s u call := by
  cases origin with
  | signed u =>
    rw [(refusal_of_error hcall h).unchanged_iff]
    constructor
    · rintro hclean v ⟨⟩
      exact hclean
    · exact fun hclean => hclean u rfl
  | root =>
    cases call <;> cases h <;> simp
  | none =>
    cases call <;> cases h <;> simp

/-- In the block of its loan user `1` is refused a withdrawal that would leave it below the threshold, and nothing is
written. -/
theorem refused_in_block : ∃ s s' e, play mockConfig .release mockGenesis
      [.advance 1, .call (.signed 1) (.lending (.supply 0 200000)),
        .call (.signed 1) (.lending (.borrow 0 100000))] = some s ∧
    dispatch mockConfig .release s (.signed 1) (.withdraw 0 200000) = some (.error e, s') ∧ s' = s := by
  have hplay : ∃ s s' e, play mockConfig .release mockGenesis
      [.advance 1, .call (.signed 1) (.lending (.supply 0 200000)),
        .call (.signed 1) (.lending (.borrow 0 100000))] = some s ∧
      dispatch mockConfig .release s (.signed 1) (.withdraw 0 200000) = some (.error e, s') ∧
      ¬ Rewrites s 1 (.withdraw 0 200000) := by
    refine ⟨_, _, _, rfl, rfl, ?_⟩
    rintro ⟨pool, q, user, ⟨⟨⟩, ⟨⟩⟩, ⟨⟩, hne⟩
    exact hne rfl
  obtain ⟨s, s', e, hs, hd, hclean⟩ := hplay
  refine ⟨s, s', e, hs, hd, (failed_call_unchanged_iff rfl hd).mpr ?_⟩
  rintro v ⟨⟩
  exact hclean

/-- A million blocks later the same withdrawal is refused, and the record of user `1` has been rewritten. -/
theorem refusal_leaves_trace : ∃ s s' e, play mockConfig .release mockGenesis
      [.advance 1, .call (.signed 1) (.lending (.supply 0 200000)),
        .call (.signed 1) (.lending (.borrow 0 100000)), .advance 1000001] = some s ∧
    dispatch mockConfig .release s (.signed 1) (.withdraw 0 200000) = some (.error e, s') ∧
    s'.lending.supplies.records (0, 1) ≠ s.lending.supplies.records (0, 1) :=
  ⟨_, _, _, rfl, rfl, by decide⟩

end Konomi.Lending
