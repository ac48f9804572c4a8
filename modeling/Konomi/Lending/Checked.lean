import Konomi.Lending.Indexes

/-!
# Runs without overflow

A lending call that returns in the build with overflow checks returns the same in the release build, has accrued its
pools without a wrap (`checked_accrues`), and has added amounts exactly. In every state that such calls reach, no record
is ahead of its pool and both books are in order (`Orderly`, `reached_orderly`).
-/

namespace Konomi.Lending
open Machine

variable {A : Type} [DecidableEq A] {cfg : Config A} {s s' : Chain A} {u : A} {a b : AssetId} {side : Side}
  {pool q : Pool} {call : Call A} {now : BlockNumber}

theorem noWrap_of_checked (h : accrueInterest .checked now pool = some q) : NoWrap now pool := by
  rcases accrueInterest_cases h with ⟨hlast, rfl⟩ | ⟨_, ⟨d⟩⟩
  · exact noWrap_self hlast
  · intro side rate hrate
    have hsame : rateInternal .release pool side = some (d.rate side) :=
      mono_rateInternal pool side Profile.checked_le_release (d.rate_eq side)
    rw [Option.some.inj (hrate.symm.trans hsame), ← (toNat_multiplier rfl (d.factor_eq side)).2]
    exact (d.factor side).toNat_lt

theorem checked_accrues {r : Except DispatchError Unit} (h : dispatch cfg .checked s (.signed u) call = some (r, s'))
    (haccrues : call.accrues s.lending b) (hpool : s.lending.pools b = some pool) :
    ∃ q, accrueInterest .checked s.blockNumber pool = some q := by
  cases call with
  | supply a x | withdraw a x | borrow a x | repay a x =>
    -- each of the four reads its pool and accrues it before anything else
    cases haccrues
    simp only [dispatch, ensureSigned, supply, withdraw, borrow, repay, hpool] at h
    obtain ⟨q, hq, _⟩ := Option.bind_eq_some_iff.mp h
    exact ⟨q, hq⟩
  | liquidate t payId getId x =>
    obtain ⟨hb, hpay, getPool, hget, hcollateral⟩ := haccrues
    obtain ⟨payPool, hpay⟩ := Option.isSome_iff_exists.mp hpay
    obtain ⟨o, ho, _⟩ := Option.bind_eq_some_iff.mp h
    unfold seizure at ho
    simp only [hget, hpay, hcollateral, Bool.true_eq_false, if_false] at ho
    obtain ⟨qp, hqp, ho⟩ := Option.bind_eq_some_iff.mp ho
    obtain ⟨qg, hqg, _⟩ := Option.bind_eq_some_iff.mp ho
    rcases hb with rfl | rfl
    · cases hpool.symm.trans hpay
      exact ⟨qp, hqp⟩
    · cases hpool.symm.trans hget
      exact ⟨qg, hqg⟩
  | initPool id c => exact haccrues.elim

theorem fits_of_checked {r : Except DispatchError Unit}
    (h : dispatch cfg .checked s (.signed u) call = some (r, s')) : call.Fits s := by
  intro b pool haccrues hpool
  obtain ⟨q, hq⟩ := checked_accrues h haccrues hpool
  exact noWrap_of_checked hq

/-- What was added to a position is still there. -/
theorem Posting.added_ne_zero {p : Profile} {x : Balance} (hwraps : p.wraps = false)
    (d : Posting cfg p s u side true a x) : d.value' ≠ 0 := by
  intro hzero
  have hsum : d.value'.toNat = d.value.toNat + d.amount.toNat := toNat_add hwraps d.value'_eq
  have hpos : d.amount.toNat ≠ 0 := fun h0 => d.covered.1 (BitVec.eq_of_toNat_eq h0)
  rw [hzero] at hsum
  simp at hsum
  omega

/-! ## Orderly states -/

/-- No record is ahead of its pool, and both books are in order. -/
structure Orderly (s : Chain A) : Prop where
  paced : Paced s
  books : ∀ side, (s.lending.book side).Ok (bound s side)

omit [DecidableEq A] in
theorem Orderly.listed_iff (h : Orderly s) (hacc : AccruesTo s a pool q) (hwrap : NoWrap s.blockNumber pool)
    {w : Balance} (hw : valueAt .release (q.index side) ((s.lending.book side).records (a, u)) = some w) :
    a ∈ (s.lending.book side).assets u ↔ w ≠ 0 := by
  have hbook := h.books side
  rw [hbook.listed]
  constructor
  · intro hrec
    obtain ⟨user, hr⟩ := Option.isSome_iff_exists.mp hrec
    obtain ⟨i, hi, hle⟩ := hbook.bound u a user hr
    cases hi.symm.trans (h.paced.bound_eq hacc hwrap side)
    rw [hr] at hw
    exact Book.ne_zero_of_toNat (hbook.amount u a user hr) (Book.amount_le_accrued hle hw)
  · intro hne
    by_contra hnone
    rw [Option.not_isSome_iff_eq_none.mp hnone] at hw
    exact hne (Option.some.inj hw).symm

theorem Orderly.dispatch (h : Orderly s) {r : Except DispatchError Unit}
    (hd : Lending.dispatch cfg .checked s (.signed u) call = some (r, s')) (hcall : ∀ id c, call ≠ .initPool id c) :
    Orderly s' := by
  have hfits := fits_of_checked hd
  have hrelease := mono_dispatch cfg s (.signed u) call Profile.checked_le_release hd
  rcases dispatch_cases hrelease with ⟨v, hv, hstep⟩ | ⟨_, rfl⟩ | ⟨id, c, rfl, _⟩
  · cases hv
    refine ⟨h.paced.follows hstep.follows hfits, fun side => ?_⟩
    rw [h.paced.bound_follows hstep.follows hfits]
    have hβ : ∀ {b pool q}, call.accrues s.lending b → s.lending.pools b = some pool →
        accrueInterest .release s.blockNumber pool = some q → ∀ side, bound s side b = some (q.index side).toNat :=
      fun hacc hpool hq => h.paced.bound_eq ⟨hpool, hq⟩ (hfits _ _ hacc hpool)
    cases hstep with
    | refused => exact h.books side
    | touched side' e entry stored accrues book =>
      show ((s.lending.setBook _ side').book side).Ok _
      rw [book_setBook]
      split
      · rename_i hside
        subst hside
        exact (h.books side).accrue (hβ (accrues_of_entry entry) stored accrues side) book
      · exact h.books side
    | posted side' positive entry d =>
      obtain ⟨dc, hdc⟩ := dispatch_posted hd entry
      rw [hdc, dc.result_book]
      split
      · rename_i hside
        subst hside
        have hle := Profile.checked_le_release
        refine (dc.release hle).book_ok (h.books side) (hβ (accrues_of_entry entry) dc.stored ?_ side) ?_
        · exact release_accrues hle dc.accrues
        · rintro rfl
          exact dc.added_ne_zero rfl
      · exact h.books side
    | assessed e d =>
      exact d.books_ok h.books (hβ (d.accrues (Or.inr rfl)) d.get_stored d.get_accrues .supply)
        (hβ (d.accrues (Or.inl rfl)) d.pay_stored d.pay_accrues .debt) side
    | halfway e d =>
      exact d.books_ok h.books (hβ (d.accrues (Or.inr rfl)) d.get_stored d.get_accrues .supply)
        (hβ (d.accrues (Or.inl rfl)) d.pay_stored d.pay_accrues .debt) side
    | settled d =>
      exact d.books_ok h.books (hβ (d.accrues (Or.inr rfl)) d.get_stored d.get_accrues .supply)
        (hβ (d.accrues (Or.inl rfl)) d.pay_stored d.pay_accrues .debt) side
  · exact h
  · exact absurd rfl (hcall id c)

/-! ## Runs -/

/-- What each action of a run has to meet: the lending calls return in the build with overflow checks, and no pool is
made twice. -/
def CheckedStep (cfg : Config A) (s : Chain A) : Action A → Prop
  | .call _ (.lending (.initPool id _)) => s.lending.pools id = none
  | .call origin (.lending call) => (dispatch cfg .checked s origin call).isSome
  | _ => True

theorem genesis_orderly {g : Genesis A} (h : genesis .release g = some s) : Orderly s := by
  refine ⟨genesis_paced h, fun side => ?_⟩
  obtain ⟨_, hsupplies, hdebts, _⟩ := genesis_lending h
  have hempty : (Book.empty : Book A).Ok (bound s side) :=
    ⟨fun u a => by simp [Book.empty], fun u => List.nodup_nil, (fun u a user hr => by cases hr),
      (fun u a user hr => by cases hr)⟩
  cases side with
  | supply =>
    show s.lending.supplies.Ok _
    rw [hsupplies]
    exact hempty
  | debt =>
    show s.lending.debts.Ok _
    rw [hdebts]
    exact hempty

theorem step_orderly {l : Action A} (h : Orderly s) (hok : CheckedStep cfg s l) (hs : step cfg .release s l = some s') :
    Orderly s' := by
  rcases step_cases hs with ⟨n, rfl, hlt, rfl⟩ | ⟨origin, c, r, rfl, hd⟩ | ⟨origin, c, r, rfl, _, _, hl, hblock⟩
  · have hpaced : Paced { s with blockNumber := n } := step_paced (l := .advance n) h.paced trivial hs
    exact ⟨hpaced, fun side => (h.books side).mono fun a i => bound_advance (BitVec.lt_def.mp hlt).le⟩
  · cases c with
    | initPool id can =>
      cases hd
      have hnone : s.lending.pools id = none := by cases origin <;> exact hok
      have hnew : PacedStep s (.call origin (.lending (.initPool id can))) := by cases origin <;> exact hnone
      have hpaced : Paced { s with lending := _initPool s.blockNumber s.lending id can } := step_paced h.paced hnew hs
      refine ⟨hpaced, fun side => ?_⟩
      have hbook : (_initPool s.blockNumber s.lending id can).book side = s.lending.book side := book_commit ..
      rw [hbook]
      exact (h.books side).mono fun a i hi => ⟨i, bound_init hnone hi, le_refl _⟩
    | _ =>
      have hchecked := (mono_dispatch cfg s origin _).eq_of_isSome Profile.checked_le_release hd hok
      rcases dispatch_cases hd with ⟨u, rfl, _⟩ | ⟨_, rfl⟩ | ⟨_, _, ⟨⟩, _⟩
      · exact h.dispatch hchecked (by rintro _ _ ⟨⟩)
      · exact h
  · have hfollows : Follows (fun _ => False) s s' := follows_of_lending hl hblock
    refine ⟨h.paced.follows hfollows (fun _ _ hf => hf.elim), fun side => ?_⟩
    rw [h.paced.bound_follows hfollows (fun _ _ hf => hf.elim), hl]
    exact h.books side

/-- **Every state that is reached without overflow is orderly.** -/
theorem reached_orderly (h : Reached cfg (CheckedStep cfg) s) : Orderly s :=
  h.invariant (fun _ _ => genesis_orderly) (fun _ _ _ => step_orderly)

end Konomi.Lending
