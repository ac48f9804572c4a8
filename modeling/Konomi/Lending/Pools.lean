import Konomi.Lending.Views

/-!
# What a call leaves in the storage of the pallet

`Follows P s s'` : every pool of `s'` is the one of `s`, or that one accrued to the current block with other totals;
every record of `s'` is one of `s`, or stands at the index of such an accrued pool, also where the pool itself has not
been stored. Only pools of assets in `P` are accrued. Every signed call does this for the pools it accrues
(`Step.follows`), whatever it returns.

`reached_last`, `reached_standard` and `reached_threshold` are what every run keeps: pools were last updated at the
current block or before it and have the factors of `_init_pool`, and the liquidation threshold is one.
-/

namespace Konomi.Lending
open Machine

variable {A : Type} [DecidableEq A] {cfg : Config A} {s s' t : Chain A} {u v : A} {a b : AssetId} {side : Side}
  {pool q : Pool} {call : Call A}

/-- The assets of which a signed call accrues the pools. A liquidation looks at both pools before it accrues one. -/
def Call.accrues (l : Lending A) : Call A → AssetId → Prop
  | .supply a _, b => b = a
  | .withdraw a _, b => b = a
  | .borrow a _, b => b = a
  | .repay a _, b => b = a
  | .liquidate _ payId getId _, b => (b = payId ∨ b = getId) ∧ (l.pools payId).isSome ∧
      ∃ pool, l.pools getId = some pool ∧ pool.canBeCollateral = true
  | .initPool _ _, _ => False

omit [DecidableEq A] in
theorem accrues_of_entry {l : Lending A} {positive : Bool} {x : Balance}
    (entry : call.entry = some (side, positive, a, x)) : call.accrues l a := by
  cases call <;> cases entry <;> rfl

theorem Assessment.accrues {payId getId : AssetId} {x : Balance} (d : Assessment .release s u payId getId)
    (hb : b = payId ∨ b = getId) : (Call.liquidate u payId getId x).accrues s.lending b :=
  ⟨hb, by rw [d.pay_stored]; rfl, d.getPool, d.get_stored, d.collateral⟩

/-- The stored pool of an asset, and that pool at the current block. -/
structure AccruesTo (s : Chain A) (b : AssetId) (pool q : Pool) : Prop where
  stored : s.lending.pools b = some pool
  accrues : accrueInterest .release s.blockNumber pool = some q

/-- The pools and the records of `s'` come from those of `s` by accruals of pools in `P`. -/
structure Follows (P : AssetId → Prop) (s s' : Chain A) : Prop where
  block : s'.blockNumber = s.blockNumber
  threshold : s'.lending.liquidationThreshold = s.lending.liquidationThreshold
  pools : ∀ b, s'.lending.pools b = s.lending.pools b ∨ P b ∧ ∃ pool q q', AccruesTo s b pool q ∧
    s'.lending.pools b = some q' ∧ q' = { q with supply := q'.supply, debt := q'.debt }
  records : ∀ side b v user, (s'.lending.book side).records (b, v) = some user →
    (s.lending.book side).records (b, v) = some user ∨
      P b ∧ ∃ pool q, AccruesTo s b pool q ∧ user.index = q.index side

/-! ## Calls -/

section Calls
variable {P : AssetId → Prop}

omit [DecidableEq A] in
theorem follows_of_lending (hlending : s'.lending = s.lending) (hblock : s'.blockNumber = s.blockNumber) :
    Follows P s s' := by
  refine ⟨hblock, by rw [hlending], fun b => Or.inl (by rw [hlending]), fun side b v user hr => Or.inl ?_⟩
  rwa [hlending] at hr

theorem follows_of_touched (hblock : s'.blockNumber = s.blockNumber)
    (hthreshold : s'.lending.liquidationThreshold = s.lending.liquidationThreshold)
    (hpools : s'.lending.pools = s.lending.pools)
    (h : ∀ side, s'.lending.book side = s.lending.book side ∨ ∃ a u pool q, P a ∧ AccruesTo s a pool q ∧
      (s.lending.book side).accrue .release (q.index side) a u = some (s'.lending.book side)) : Follows P s s' := by
  refine ⟨hblock, hthreshold, fun b => Or.inl (by rw [hpools]), fun side b v user hr => ?_⟩
  rcases h side with hsame | ⟨a, u, pool, q, hP, hacc, hbook⟩
  · rw [hsame] at hr
    exact Or.inl hr
  · by_cases hk : (b, v) = (a, u)
    · obtain ⟨rfl, rfl⟩ := Prod.mk.inj hk
      exact Or.inr ⟨hP, pool, q, hacc, (Book.accrue_record hbook hr).2.1⟩
    · rw [Book.accrue_records_of_ne hbook hk] at hr
      exact Or.inl hr

theorem record_of_put {bk : Book A} {I : FixedU128} {m : Balance} {user : Position}
    (h : (bk.put I a u m).records (b, v) = some user) :
    bk.records (b, v) = some user ∨ b = a ∧ user.index = I := by
  rw [Book.put_records] at h
  rcases stored_cases h with ⟨hk, hnew⟩ | ⟨_, hold⟩
  · split at hnew
    · cases hnew
      exact Or.inr ⟨(Prod.mk.inj hk).1, rfl⟩
    · cases hnew
  · exact Or.inl hold

theorem Posting.follows {positive : Bool} {x : Balance} (d : Posting cfg .release s u side positive a x) (hP : P a) :
    Follows P s d.result := by
  have hacc : AccruesTo s a d.pool d.accrued := ⟨d.stored, d.accrues⟩
  refine ⟨rfl, by cases side <;> rfl, fun b => ?_, fun side' b v user hr => ?_⟩
  · rw [d.result_pools]
    by_cases hb : b = a
    · subst hb
      refine Or.inr ⟨hP, d.pool, d.accrued, _, hacc, Function.update_self .., ?_⟩
      cases side <;> rfl
    · exact Or.inl (Function.update_of_ne hb ..)
  · rw [d.result_book] at hr
    split at hr
    · rename_i hside
      subst hside
      rw [d.book'_records] at hr
      rcases record_of_put hr with hold | ⟨rfl, hindex⟩
      · exact Or.inl hold
      · exact Or.inr ⟨hP, d.pool, d.accrued, hacc, hindex⟩
    · exact Or.inl hr

theorem Settlement.follows {target : A} {payId getId : AssetId} {x : Balance}
    (d : Settlement cfg .release s u target payId getId x) (hP : ∀ b, b = payId ∨ b = getId → P b) :
    Follows P s d.result := by
  refine ⟨rfl, rfl, fun b => ?_, fun side b v user hr => ?_⟩
  · by_cases hb : b = payId ∨ b = getId
    · obtain ⟨pool, q, hpool, hq, hq', _⟩ := d.pools_of_mem hb
      exact Or.inr ⟨hP b hb, pool, q, q, ⟨hpool, hq⟩, hq', rfl⟩
    · exact Or.inl (d.pools_of_not_mem hb)
  · cases side with
    | supply =>
      rcases record_of_put hr with hold | ⟨rfl, hindex⟩
      · exact Or.inl hold
      · exact Or.inr ⟨hP _ (Or.inr rfl), d.getPool, d.getAccrued, ⟨d.get_stored, d.get_accrues⟩, hindex⟩
    | debt =>
      rcases record_of_put hr with hold | ⟨rfl, hindex⟩
      · exact Or.inl hold
      · exact Or.inr ⟨hP _ (Or.inl rfl), d.payPool, d.payAccrued, ⟨d.pay_stored, d.pay_accrues⟩, hindex⟩

theorem Assessment.follows {target : A} {payId getId : AssetId} (d : Assessment .release s target payId getId)
    (hP : ∀ b, b = payId ∨ b = getId → P b) (hlending : s'.lending = d.lending)
    (hblock : s'.blockNumber = s.blockNumber) : Follows P s s' := by
  refine follows_of_touched hblock (by rw [hlending]; rfl) (by rw [hlending]; rfl) fun side => Or.inr ?_
  cases side with
  | supply =>
    refine ⟨getId, target, d.getPool, d.getAccrued, hP _ (Or.inr rfl), ⟨d.get_stored, d.get_accrues⟩, ?_⟩
    rw [hlending]
    exact d.supplies_eq
  | debt =>
    refine ⟨payId, target, d.payPool, d.payAccrued, hP _ (Or.inl rfl), ⟨d.pay_stored, d.pay_accrues⟩, ?_⟩
    rw [hlending]
    exact d.debts_eq

/-- **Every signed call follows the storage it finds.** -/
theorem Step.follows {r : Except DispatchError Unit} (h : Step cfg .release s u call r s') :
    Follows (call.accrues s.lending) s s' := by
  cases h with
  | refused => exact follows_of_lending rfl rfl
  | @touched _ side positive a x pool accrued bk e entry stored accrues book =>
    refine follows_of_touched rfl (by cases side <;> rfl) (pools_setBook ..) fun side' => ?_
    by_cases hside : side' = side
    · subst hside
      refine Or.inr ⟨a, u, pool, accrued, accrues_of_entry entry, ⟨stored, accrues⟩, ?_⟩
      rw [book, book_setBook, if_pos rfl]
    · exact Or.inl (by rw [book_setBook, if_neg hside])
  | posted side positive entry d => exact d.follows (accrues_of_entry entry)
  | assessed e d => exact d.follows (fun b => d.accrues) rfl rfl
  | halfway e d => exact d.follows (fun b => d.accrues) rfl rfl
  | settled d => exact d.follows (fun b => d.accrues)

end Calls

/-! ## Runs -/

/-- What every action does to the storage of the pallet: a later block, a signed call, a new pool, or nothing. -/
theorem step_storage {l : Action A} (h : step cfg .release s l = some s') :
    (∃ n, l = .advance n ∧ s.blockNumber < n ∧ s' = { s with blockNumber := n }) ∨
    (∃ u call r, l = .call (.signed u) (.lending call) ∧ Step cfg .release s u call r s') ∨
    (∃ origin id c, l = .call origin (.lending (.initPool id c)) ∧
      s' = { s with lending := _initPool s.blockNumber s.lending id c }) ∨
    (s'.lending = s.lending ∧ s'.blockNumber = s.blockNumber) := by
  rcases step_cases h with ⟨n, rfl, hlt, rfl⟩ | ⟨origin, c, r, rfl, hd⟩ | ⟨origin, c, r, rfl, _, _, hl, hblock⟩
  · exact Or.inl ⟨n, rfl, hlt, rfl⟩
  · rcases dispatch_cases hd with ⟨u, rfl, hstep⟩ | ⟨_, rfl⟩ | ⟨id, can, rfl, _, rfl⟩
    · exact Or.inr (Or.inl ⟨u, c, r, rfl, hstep⟩)
    · exact Or.inr (Or.inr (Or.inr ⟨rfl, rfl⟩))
    · exact Or.inr (Or.inr (Or.inl ⟨origin, id, can, rfl, rfl⟩))
  · exact Or.inr (Or.inr (Or.inr ⟨hl, hblock⟩))

/-- A property of a stored pool that is established by `_init_pool` and kept by accruals, by changes of the totals and
by the passing of blocks holds of every pool in every state that is reached. -/
theorem Reached.pools {ok : Chain A → Action A → Prop} {I : BlockNumber → Pool → Prop}
    (hnew : ∀ now id c, I now (newPool now id c)) (hlater : ∀ now n pool, now < n → I now pool → I n pool)
    (haccrued : ∀ now pool q, I now pool → accrueInterest .release now pool = some q → I now q)
    (htotals : ∀ now (q : Pool) supply debt, I now q → I now { q with supply := supply, debt := debt })
    (h : Reached cfg ok s) : ∀ a pool, s.lending.pools a = some pool → I s.blockNumber pool := by
  apply h.invariant
  · intro g s hs a pool hpool
    obtain ⟨hblock, _, _, hpools⟩ := genesis_lending hs
    rw [hpools a pool hpool, hblock]
    exact hnew 0 a true
  · intro s l s' hI _ hstep b pool' hpool'
    rcases step_storage hstep with
      ⟨n, rfl, hlt, rfl⟩ | ⟨u, call, r, rfl, hcall⟩ | ⟨origin, id, c, rfl, rfl⟩ | ⟨hl, hblock⟩
    · exact hlater _ _ _ hlt (hI b pool' hpool')
    · have hfollows := hcall.follows
      rw [hfollows.block]
      rcases hfollows.pools b with hsame | ⟨_, pool, q, q', hacc, hq', htotal⟩
      · exact hI b pool' (hsame ▸ hpool')
      · cases hpool'.symm.trans hq'
        rw [htotal]
        exact htotals _ _ _ _ (haccrued _ _ _ (hI b pool hacc.stored) hacc.accrues)
    · rcases stored_cases hpool' with ⟨_, hnewPool⟩ | ⟨_, hold⟩
      · cases hnewPool
        exact hnew _ _ _
      · exact hI b pool' hold
    · rw [hl] at hpool'
      rw [hblock]
      exact hI b pool' hpool'

/-- **Pools are never updated in the future.** -/
theorem reached_last {ok : Chain A → Action A → Prop} (h : Reached cfg ok s) (hpool : s.lending.pools a = some pool) :
    pool.lastUpdated.toNat ≤ s.blockNumber.toNat := by
  refine Reached.pools (I := fun now pool => pool.lastUpdated.toNat ≤ now.toNat) ?_ ?_ ?_ ?_ h a pool hpool
  · exact fun now id c => le_refl _
  · exact fun now n pool hlt hle => hle.trans (BitVec.lt_def.mp hlt).le
  · intro now pool q _ hq
    rw [accrueInterest_lastUpdated hq]
  · exact fun now q supply debt hle => hle

omit [DecidableEq A] in
theorem genesisPools_threshold {ids : List AssetId} : ∀ l : Lending A,
    (genesisPools l ids).liquidationThreshold = l.liquidationThreshold := by
  induction ids with
  | nil => exact fun l => rfl
  | cons id ids ih => exact fun l => ih _

/-- **No call sets the liquidation threshold.** -/
theorem reached_threshold {ok : Chain A → Action A → Prop} (h : Reached cfg ok s) :
    s.lending.liquidationThreshold = Fixed.one := by
  refine Reached.invariant (I := fun s => s.lending.liquidationThreshold = Fixed.one) (fun g s hs => ?_)
    (fun s l s' hI _ hstep => ?_) h
  · obtain ⟨assets, _, hs⟩ := Option.bind_eq_some_iff.mp hs
    cases hs
    exact genesisPools_threshold _
  · rcases step_storage hstep with ⟨n, rfl, _, rfl⟩ | ⟨u, call, r, rfl, hcall⟩ | ⟨origin, id, c, rfl, rfl⟩ | ⟨hl, _⟩
    · exact hI
    · exact hcall.follows.threshold.trans hI
    · exact hI
    · rw [hl]
      exact hI

/-- The factors of `_init_pool`. -/
structure Standard (q : Pool) : Prop where
  safeFactor : q.safeFactor = Fixed.ofRational 7 10
  closeFactor : q.closeFactor = Fixed.one
  discountFactor : q.discountFactor = Fixed.ofRational 95 100
  utilizationFactor : q.utilizationFactor = Fixed.ofRational 385 10000000000
  initialInterestRate : q.initialInterestRate = Fixed.ofRational 385 100000000000

theorem Standard.accrued (h : Standard pool) {now : BlockNumber} (hq : accrueInterest .release now pool = some q) :
    Standard q := by
  obtain ⟨hutil, hinit, hclose, hdiscount, hsafe⟩ := accrueInterest_frame hq
  exact ⟨hsafe.trans h.safeFactor, hclose.trans h.closeFactor, hdiscount.trans h.discountFactor,
    hutil.trans h.utilizationFactor, hinit.trans h.initialInterestRate⟩

/-- **Every pool has the factors of `_init_pool`.** -/
theorem reached_standard {ok : Chain A → Action A → Prop} (h : Reached cfg ok s)
    (hpool : s.lending.pools a = some pool) : Standard pool := by
  refine Reached.pools (I := fun _ pool => Standard pool) ?_ ?_ ?_ ?_ h a pool hpool
  · exact fun now id c => ⟨rfl, rfl, rfl, rfl, rfl⟩
  · exact fun now n pool _ hpool => hpool
  · exact fun now pool q hpool hq => hpool.accrued hq
  · exact fun now q supply debt h =>
      ⟨h.safeFactor, h.closeFactor, h.discountFactor, h.utilizationFactor, h.initialInterestRate⟩

end Konomi.Lending
