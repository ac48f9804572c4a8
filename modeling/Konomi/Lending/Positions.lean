import Konomi.Lending.Views

/-!
# Positions and lists of assets

A book keeps, for every account, the records of its positions and the list of their assets. `Book.Consistent` says
that the two agree. The records are kept at an index that is at most a bound `β` of their pool, so that an accrual
never rounds a position to nothing (`amount_le_accrued`); `Book.Ok β` carries both facts and is kept by every write
(`Ok.accrue`, `Ok.put`, `Ok.put_enlist`).

What breaks the agreement is a supply or a loan that takes a position to exactly `2 ^ 128`: the sum wraps to zero, the
record is removed, and the asset is put on the list afterwards. `Keeps` excludes it, and `step_indexed` shows that
nothing else does as long as no multiplier of an accrual wraps.
-/

namespace Konomi
open Machine

variable {A : Type} [DecidableEq A]

/-! ## Books -/

/-- The list of an account has no duplicates and names exactly its records, which are not zero and whose pools
exist. -/
structure Book.Consistent (pools : AssetId → Option Pool) (b : Book A) : Prop where
  listed : ∀ u a, a ∈ b.assets u ↔ (b.records (a, u)).isSome
  nodup : ∀ u, (b.assets u).Nodup
  amount : ∀ u a user, b.records (a, u) = some user → user.amount ≠ 0
  pooled : ∀ u a, (b.records (a, u)).isSome → (pools a).isSome

namespace Book

/-- A book whose records are not zero and stand at an index within the bound of their asset. -/
structure Ok (β : AssetId → Option Nat) (b : Book A) : Prop where
  listed : ∀ u a, a ∈ b.assets u ↔ (b.records (a, u)).isSome
  nodup : ∀ u, (b.assets u).Nodup
  amount : ∀ u a user, b.records (a, u) = some user → user.amount ≠ 0
  bound : ∀ u a user, b.records (a, u) = some user → ∃ i, β a = some i ∧ user.index.toNat ≤ i

variable {β β' : AssetId → Option Nat} {b b' : Book A} {p : Profile} {I : FixedU128} {a : AssetId} {u : A}
  {v : Balance}

omit [DecidableEq A] in
theorem Ok.mono (h : Ok β b) (hβ : ∀ a i, β a = some i → ∃ i', β' a = some i' ∧ i ≤ i') : Ok β' b := by
  refine ⟨h.listed, h.nodup, h.amount, fun u a user hr => ?_⟩
  obtain ⟨i, hi, hle⟩ := h.bound u a user hr
  obtain ⟨i', hi', hle'⟩ := hβ a i hi
  exact ⟨i', hi', hle.trans hle'⟩

omit [DecidableEq A] in
theorem amount_le_accrued {user : Position} (hle : user.index.toNat ≤ I.toNat) (h : user.accrued p I = some v) :
    user.amount.toNat ≤ v.toNat := by
  obtain ⟨hne, hv⟩ := toNat_accrued h
  have hself : accruedTo user.index.toNat user.index.toNat user.amount.toNat = user.amount.toNat := by
    rw [accruedTo, rounded_mul 128 _ (Nat.pos_of_ne_zero hne), rounded_mul 128 _ accuracy_pos]
  have hlt := user.amount.isLt
  rw [hv]
  exact le_min (hself.symm.trans_le (accruedTo_mono hne hle _)) (by omega)

omit [DecidableEq A] in
theorem ne_zero_of_toNat {x y : Balance} (hx : x ≠ 0) (h : x.toNat ≤ y.toNat) : y ≠ 0 := by
  rintro rfl
  exact hx (BitVec.eq_of_toNat_eq (Nat.le_zero.mp h))

theorem update_cases {r : Option Position} {a' : AssetId} {u' : A} {user : Position}
    (h : Function.update b.records (a, u) r (a', u') = some user) :
    (a' = a ∧ r = some user) ∨ b.records (a', u') = some user := by
  rcases stored_cases h with ⟨hk, hr⟩ | ⟨_, hr⟩
  · exact Or.inl ⟨(Prod.mk.inj hk).1, hr⟩
  · exact Or.inr hr

theorem Ok.overwrite (h : Ok β b) (hβ : β a = some I.toNat) (hrec : (b.records (a, u)).isSome) (hv : v ≠ 0) :
    Ok β { b with records := Function.update b.records (a, u) (some ⟨v, I⟩) } := by
  refine ⟨fun u' a' => ?_, h.nodup, fun u' a' user hr => ?_, fun u' a' user hr => ?_⟩
  · show a' ∈ b.assets u' ↔ (Function.update b.records (a, u) (some ⟨v, I⟩) (a', u')).isSome
    rw [h.listed]
    by_cases hk : (a', u') = (a, u)
    · cases hk
      rw [Function.update_self]
      exact ⟨fun _ => rfl, fun _ => hrec⟩
    · rw [Function.update_of_ne hk]
  · rcases update_cases hr with ⟨rfl, ⟨⟩⟩ | hr
    · exact hv
    · exact h.amount u' a' user hr
  · rcases update_cases hr with ⟨rfl, ⟨⟩⟩ | hr
    · exact ⟨I.toNat, hβ, le_refl _⟩
    · exact h.bound u' a' user hr

theorem Ok.accrue (h : Ok β b) (hβ : β a = some I.toNat) (hb : b.accrue p I a u = some b') : Ok β b' := by
  obtain ⟨v, hv, ⟨_, rfl⟩ | ⟨hsome, rfl⟩⟩ := accrue_cases hb
  · exact h
  · refine h.overwrite hβ hsome ?_
    obtain ⟨user, huser⟩ := Option.isSome_iff_exists.mp hsome
    rw [huser] at hv
    obtain ⟨i, hi, hle⟩ := h.bound u a user huser
    cases hi.symm.trans hβ
    exact ne_zero_of_toNat (h.amount u a user huser) (amount_le_accrued hle hv)

theorem Ok.put_records (h : Ok β b) (hβ : β a = some I.toNat) {u' : A} {a' : AssetId} {user : Position}
    (hr : (b.put I a u v).records (a', u') = some user) :
    user.amount ≠ 0 ∧ ∃ i, β a' = some i ∧ user.index.toNat ≤ i := by
  rw [Book.put_records] at hr
  rcases update_cases hr with ⟨rfl, hnew⟩ | hr
  · split at hnew
    · cases hnew
      exact ⟨‹_›, I.toNat, hβ, le_refl _⟩
    · cases hnew
  · exact ⟨h.amount u' a' user hr, h.bound u' a' user hr⟩

/-- A position that existed is written: a value of zero removes the record and the asset. -/
theorem Ok.put (h : Ok β b) (hβ : β a = some I.toNat) (hrec : (b.records (a, u)).isSome) :
    Ok β (b.put I a u v) := by
  refine ⟨fun u' a' => ?_, nodup_put h.nodup, fun u' a' user hr => (h.put_records hβ hr).1,
    fun u' a' user hr => (h.put_records hβ hr).2⟩
  rw [mem_put, Book.put_records, h.listed]
  by_cases hk : (a', u') = (a, u)
  · obtain ⟨rfl, rfl⟩ := Prod.mk.inj hk
    rw [Function.update_self]
    by_cases hv : v = 0 <;> simp [hv, hrec]
  · rw [Function.update_of_ne hk]
    simp [hk]

theorem Ok.put_enlist (h : Ok β b) (hβ : β a = some I.toNat) (hv : v ≠ 0) : Ok β ((b.put I a u v).enlist a u) := by
  refine ⟨fun u' a' => ?_, nodup_enlist (nodup_put h.nodup), fun u' a' user hr => ?_, fun u' a' user hr => ?_⟩
  · rw [mem_enlist, mem_put, enlist_records, Book.put_records, h.listed]
    by_cases hk : (a', u') = (a, u)
    · rw [hk, Function.update_self, if_pos hv]
      simp
    · rw [Function.update_of_ne hk]
      simp [hk]
  · rw [enlist_records] at hr
    exact (h.put_records hβ hr).1
  · rw [enlist_records] at hr
    exact (h.put_records hβ hr).2

end Book

namespace Lending

variable {cfg : Config A} {s s' : Chain A} {u : A} {a : AssetId} {pool q : Pool} {now n : BlockNumber} {side : Side}

/-! ## The bound of an index -/

/-- The rate of a side, or zero where its computation panics. -/
def rateNat (pool : Pool) (side : Side) : Nat := ((rateInternal .release pool side).map Fixed.toNat).getD 0

/-- The index that an accrual at block `now` reaches. -/
def indexBound (now : BlockNumber) (side : Side) (pool : Pool) : Nat :=
  rounded 128 ((pool.index side).toNat * (accuracy + rateNat pool side * (now.toNat - pool.lastUpdated.toNat)))
    accuracy

theorem indexBound_mono (hle : now.toNat ≤ n.toNat) : indexBound now side pool ≤ indexBound n side pool := by
  refine rounded_mono accuracy_pos
    (Nat.mul_le_mul_left _ (Nat.add_le_add_left (Nat.mul_le_mul_left _ ?_) _))
  omega

theorem indexBound_self (h : pool.lastUpdated = now) : indexBound now side pool = (pool.index side).toNat := by
  rw [indexBound, h, Nat.sub_self, Nat.mul_zero, Nat.add_zero]
  exact rounded_mul_right 128 _ accuracy_pos

/-- **An accrual reaches the bound of the index.** -/
theorem index_accrued (hlast : pool.lastUpdated.toNat ≤ now.toNat) (hwrap : NoWrap now pool)
    (hq : accrueInterest .release now pool = some q) : (q.index side).toNat = indexBound now side pool := by
  rcases accrueInterest_cases hq with ⟨hlast, rfl⟩ | ⟨_, ⟨d⟩⟩
  · exact (indexBound_self hlast).symm
  · have hrate : rateNat pool side = (d.rate side).toNat := by
      rw [rateNat, d.rate_eq]
      rfl
    rw [d.toNat_index, toNat_multiplier_of_fits hlast (hwrap side _ (d.rate_eq side)) (d.factor_eq side), indexBound,
      hrate]

/-! ## Steps -/

/-- The bounds of all pools. -/
def bound (s : Chain A) (side : Side) (a : AssetId) : Option Nat :=
  (s.lending.pools a).map (indexBound s.blockNumber side)

omit [DecidableEq A] in
/-- The bounds grow with the block, whether or not an accrual at that block would wrap. -/
theorem bound_advance {i : Nat} (hle : s.blockNumber.toNat ≤ n.toNat) (h : bound s side a = some i) :
    ∃ i', bound { s with blockNumber := n } side a = some i' ∧ i ≤ i' := by
  obtain ⟨pool, hpool, rfl⟩ := Option.map_eq_some_iff.mp h
  exact ⟨_, Option.map_eq_some_iff.mpr ⟨pool, hpool, rfl⟩, indexBound_mono hle⟩

omit [DecidableEq A] in
theorem bound_init {i : Nat} {id : AssetId} {c : Bool} (hnone : s.lending.pools id = none)
    (h : bound s side a = some i) :
    bound { s with lending := _initPool s.blockNumber s.lending id c } side a = some i := by
  obtain ⟨pool, hpool, rfl⟩ := Option.map_eq_some_iff.mp h
  have ha : a ≠ id := by
    rintro rfl
    rw [hnone] at hpool
    cases hpool
  exact Option.map_eq_some_iff.mpr ⟨pool, (Function.update_of_ne ha ..).trans hpool, rfl⟩

/-- Every stored pool can be accrued without a wrap, and both books are in order. -/
structure Indexed (s : Chain A) : Prop where
  last : ∀ a pool, s.lending.pools a = some pool → pool.lastUpdated.toNat ≤ s.blockNumber.toNat
  noWrap : ∀ a pool, s.lending.pools a = some pool → NoWrap s.blockNumber pool
  books : ∀ side, (s.lending.book side).Ok (bound s side)

omit [DecidableEq A] in
theorem Indexed.bound_eq (h : Indexed s) (hpool : s.lending.pools a = some pool)
    (hq : accrueInterest .release s.blockNumber pool = some q) (side : Side) :
    bound s side a = some (q.index side).toNat := by
  rw [bound, hpool, Option.map_some, index_accrued (h.last a pool hpool) (h.noWrap a pool hpool) hq]

/-- A supply or a loan does not take the accrued position to exactly `2 ^ 128`. -/
def Keeps (cfg : Config A) (s : Chain A) (u : A) (call : Call A) : Prop :=
  ∀ r : Ready cfg s u call, r.positive = true → r.value.toNat + r.x.toNat ≠ 2 ^ 128

/-- What each action of a run has to meet: no multiplier wraps at a new block, no pool is made twice, and a supply or a
loan keeps its position. -/
def IndexedStep (cfg : Config A) (s : Chain A) : Action A → Prop
  | .advance n => ∀ a pool, s.lending.pools a = some pool → NoWrap n pool
  | .call _ (.lending (.initPool id _)) => s.lending.pools id = none
  | .call (.signed u) (.lending call) => Keeps cfg s u call
  | _ => True

omit [DecidableEq A] in
theorem Indexed.commit (h : Indexed s) (hblock : s'.blockNumber = s.blockNumber)
    (hpools : ∀ b, s'.lending.pools b = s.lending.pools b ∨ ∃ pool q q', s.lending.pools b = some pool ∧
      accrueInterest .release s.blockNumber pool = some q ∧ s'.lending.pools b = some q' ∧
      q'.lastUpdated = q.lastUpdated ∧ ∀ side, q'.index side = q.index side)
    (hbooks : ∀ side, (s'.lending.book side).Ok (bound s side)) : Indexed s' := by
  have hnew : ∀ b pool, s'.lending.pools b = some pool →
      s.lending.pools b = some pool ∨ pool.lastUpdated = s.blockNumber := by
    intro b pool hpool
    rcases hpools b with hsame | ⟨pool₀, q, q', _, hq, hq', hlast, _⟩
    · exact Or.inl (hsame ▸ hpool)
    · cases hpool.symm.trans hq'
      exact Or.inr (hlast.trans (accrueInterest_lastUpdated hq))
  have hbound : ∀ side, bound s' side = bound s side := by
    intro side
    funext b
    rcases hpools b with hsame | ⟨pool₀, q, q', hpool₀, hq, hq', hlast, hindex⟩
    · rw [bound, bound, hsame, hblock]
    · rw [h.bound_eq hpool₀ hq, bound, hq', Option.map_some, hblock,
        indexBound_self (hlast.trans (accrueInterest_lastUpdated hq)), hindex]
  refine ⟨fun b pool hpool => ?_, fun b pool hpool => ?_, fun side => by rw [hbound]; exact hbooks side⟩
  · rw [hblock]
    rcases hnew b pool hpool with hold | hlast
    · exact h.last b pool hold
    · rw [hlast]
  · rw [hblock]
    rcases hnew b pool hpool with hold | hlast
    · exact h.noWrap b pool hold
    · exact noWrap_self hlast

theorem Indexed.touched (h : Indexed s) (ht : Touched .release s s' side) :
    (s'.lending.book side).Ok (bound s side) := by
  rcases ht with hsame | ⟨a, u, pool, q, hpool, hq, hbook⟩
  · rw [hsame]
    exact h.books side
  · exact (h.books side).accrue (h.bound_eq hpool hq side) hbook

theorem Posting.value_ne_zero {p : Profile} {x : Balance} (d : Posting cfg p s u side false a x) : d.value ≠ 0 := by
  have hle := d.amount_le_value
  intro hzero
  rw [hzero] at hle
  exact d.covered.1 (BitVec.eq_of_toNat_eq (Nat.le_zero.mp (BitVec.le_def.mp hle)))

theorem Posting.recorded {p : Profile} {x : Balance} (d : Posting cfg p s u side false a x) :
    ((s.lending.book side).records (a, u)).isSome := isSome_of_value d.value_eq d.value_ne_zero

/-- The book of a call stays in order, unless the call takes a position to zero by adding to it. -/
theorem Posting.book_ok {β : AssetId → Option Nat} {positive : Bool} {x : Balance}
    (d : Posting cfg .release s u side positive a x) (h : (s.lending.book side).Ok β)
    (hβ : β a = some (d.accrued.index side).toNat) (hne : positive = true → d.value' ≠ 0) : d.book'.Ok β := by
  cases positive with
  | false => exact h.put hβ d.recorded
  | true => exact h.put_enlist hβ (hne rfl)

theorem Assessment.books_ok {β : Side → AssetId → Option Nat} {t : A} {payId getId : AssetId}
    (d : Assessment .release s t payId getId) (h : ∀ side, (s.lending.book side).Ok (β side))
    (hget : β .supply getId = some d.getAccrued.totalSupplyIndex.toNat)
    (hpay : β .debt payId = some d.payAccrued.totalDebtIndex.toNat) : ∀ side, (d.lending.book side).Ok (β side)
  | .supply => (h .supply).accrue hget d.supplies_eq
  | .debt => (h .debt).accrue hpay d.debts_eq

theorem Settlement.books_ok {β : Side → AssetId → Option Nat} {t : A} {payId getId : AssetId} {x : Balance}
    (d : Settlement cfg .release s u t payId getId x) (h : ∀ side, (s.lending.book side).Ok (β side))
    (hget : β .supply getId = some d.getAccrued.totalSupplyIndex.toNat)
    (hpay : β .debt payId = some d.payAccrued.totalDebtIndex.toNat) :
    ∀ side, (d.result.lending.book side).Ok (β side)
  | .supply => by
    obtain ⟨user, hr⟩ := Option.isSome_iff_exists.mp d.supplied_some
    exact (h .supply).put hget (Book.accrue_record d.supplies_eq hr).2.2
  | .debt => by
    obtain ⟨user, hr⟩ := Option.isSome_iff_exists.mp d.owed_some
    exact (h .debt).put hpay (Book.accrue_record d.debts_eq hr).2.2

theorem Posting.indexed {call : Call A} {positive : Bool} {x : Balance}
    (entry : call.entry = some (side, positive, a, x)) (d : Posting cfg .release s u side positive a x)
    (hkeeps : Keeps cfg s u call) (h : Indexed s) : Indexed d.result := by
  refine h.commit rfl (fun b => ?_) (fun side' => ?_)
  · by_cases hb : b = a
    · subst hb
      refine Or.inr ⟨d.pool, d.accrued, _, d.stored, d.accrues, by rw [d.result_pools, Function.update_self], ?_, ?_⟩
      · exact lastUpdated_setTotal ..
      · exact index_setTotal _ _ _
    · exact Or.inl (by rw [d.result_pools, Function.update_of_ne hb])
  · have hβ := h.bound_eq d.stored d.accrues side
    rw [d.result_book]
    split
    · rename_i hside
      subst hside
      refine d.book_ok (h.books side') hβ fun hpositive hzero => ?_
      subst hpositive
      -- a sum of zero is a sum of exactly `2 ^ 128`, since the amount is not zero
      have hne : d.value.toNat + x.toNat ≠ 2 ^ 128 := hkeeps (d.ready entry) rfl
      have hsum : d.value' = d.value + d.amount := add_eq d.value'_eq
      have hamount : d.amount = x := d.amount_eq
      have hx : x ≠ 0 := hamount ▸ d.covered.1
      rw [hzero, hamount] at hsum
      have hmod : (d.value.toNat + x.toNat) % 2 ^ 128 = 0 := by
        rw [← BitVec.toNat_add, ← hsum]
        rfl
      have hpos : 0 < x.toNat := Nat.pos_of_ne_zero fun h0 => hx (BitVec.eq_of_toNat_eq h0)
      have hv := d.value.isLt
      have hxlt := x.isLt
      omega
    · exact h.books side'

theorem Settlement.indexed {t : A} {payId getId : AssetId} {x : Balance}
    (d : Settlement cfg .release s u t payId getId x) (h : Indexed s) : Indexed d.result := by
  refine h.commit rfl (fun b => ?_) (d.books_ok h.books (h.bound_eq d.get_stored d.get_accrues .supply)
    (h.bound_eq d.pay_stored d.pay_accrues .debt))
  by_cases hb : b = payId ∨ b = getId
  · obtain ⟨pool, q, hpool, hq, hq', _⟩ := d.pools_of_mem hb
    exact Or.inr ⟨pool, q, q, hpool, hq, hq', rfl, fun _ => rfl⟩
  · exact Or.inl (d.pools_of_not_mem hb)

theorem genesis_indexed {g : Genesis A} (h : genesis .release g = some s) : Indexed s := by
  obtain ⟨_, hsupplies, hdebts, _⟩ := genesis_lending h
  have hlast := genesis_lastUpdated h
  refine ⟨fun a pool hpool => by rw [hlast a pool hpool], fun a pool hpool => noWrap_self (hlast a pool hpool), ?_⟩
  have hempty : ∀ β, (Book.empty : Book A).Ok β := fun β =>
    ⟨fun u a => by simp [Book.empty], fun u => List.nodup_nil, (fun u a user hr => by cases hr),
      (fun u a user hr => by cases hr)⟩
  rintro (_ | _)
  · show s.lending.supplies.Ok _
    rw [hsupplies]
    exact hempty _
  · show s.lending.debts.Ok _
    rw [hdebts]
    exact hempty _

theorem step_indexed {l : Action A} (h : Indexed s) (hok : IndexedStep cfg s l) (hs : step cfg .release s l = some s') :
    Indexed s' := by
  rcases step_cases hs with ⟨block, rfl, hlt, rfl⟩ | ⟨origin, c, r, rfl, hd⟩ | ⟨origin, c, r, rfl, _, _, hl, hblock⟩
  · have hle := (BitVec.lt_def.mp hlt).le
    exact ⟨fun a pool hpool => (h.last a pool hpool).trans hle, hok,
      fun side => (h.books side).mono fun a i => bound_advance hle⟩
  · rcases dispatch_cases hd with ⟨u, rfl, hstep⟩ | ⟨_, rfl⟩ | ⟨id, can, rfl, _, rfl⟩
    · cases hstep with
      | refused => exact h
      | touched side e entry stored accrues book =>
        refine h.commit rfl (fun b => Or.inl (congrFun (pools_setBook ..) b)) (fun side' => ?_)
        exact h.touched (touched_setBook stored accrues book side')
      | posted side positive entry d =>
        have hkeeps : Keeps cfg s u c := by
          cases c with
          | initPool id can => cases entry
          | _ => exact hok
        exact d.indexed entry hkeeps h
      | assessed e d => exact h.commit rfl (fun _ => Or.inl rfl) (fun side => h.touched (d.touched rfl side))
      | halfway e d => exact h.commit rfl (fun _ => Or.inl rfl) (fun side => h.touched (d.touched rfl side))
      | settled d => exact d.indexed h
    · exact h
    · -- a pool for an asset that had none
      have hnone : s.lending.pools id = none := by cases origin <;> exact hok
      have hcases : ∀ a pool, Function.update s.lending.pools id (some (newPool s.blockNumber id can)) a = some pool →
          s.lending.pools a = some pool ∨ pool.lastUpdated = s.blockNumber := by
        intro a pool hpool
        rcases stored_cases hpool with ⟨_, ⟨⟩⟩ | ⟨_, hold⟩
        · exact Or.inr rfl
        · exact Or.inl hold
      refine ⟨fun a pool hpool => ?_, fun a pool hpool => ?_, fun side => ?_⟩
      · rcases hcases a pool hpool with hold | hlast
        · exact h.last a pool hold
        · exact le_of_eq (congrArg BitVec.toNat hlast)
      · rcases hcases a pool hpool with hold | hlast
        · exact h.noWrap a pool hold
        · exact noWrap_self hlast
      · have hbook : ((_initPool s.blockNumber s.lending id can).book side) = s.lending.book side := book_commit ..
        rw [hbook]
        exact (h.books side).mono fun a i hi => ⟨i, bound_init hnone hi, le_refl _⟩
  · refine h.commit hblock (fun b => Or.inl (by rw [hl])) (fun side => ?_)
    rw [hl]
    exact h.books side

/-! ## Runs -/

omit [DecidableEq A] in
theorem Indexed.consistent (h : Indexed s) (side : Side) :
    (s.lending.book side).Consistent s.lending.pools := by
  have hbook := h.books side
  refine ⟨hbook.listed, hbook.nodup, hbook.amount, fun u a hr => ?_⟩
  obtain ⟨user, hr⟩ := Option.isSome_iff_exists.mp hr
  obtain ⟨i, hi, _⟩ := hbook.bound u a user hr
  obtain ⟨pool, hpool, _⟩ := Option.map_eq_some_iff.mp hi
  rw [hpool]
  rfl

/-- **Positions and lists agree.** In every state reached by actions that meet their conditions, both books are
consistent: each list names exactly the records of its account, once, every record has an amount, and its pool
exists. -/
theorem positions_consistent {t : Chain A} (h : Reached cfg (IndexedStep cfg) t) :
    t.lending.supplies.Consistent t.lending.pools ∧ t.lending.debts.Consistent t.lending.pools := by
  have hindexed : Indexed t := h.invariant (fun g s => genesis_indexed) (fun s l s' => step_indexed)
  exact ⟨hindexed.consistent .supply, hindexed.consistent .debt⟩

/-- A supply, a loan and a withdrawal that is refused after it has rewritten the record, on the mock runtime. -/
theorem positions_consistent_mock : ∃ t, Reached mockConfig (IndexedStep mockConfig) t ∧
    t.lending.supplies.Consistent t.lending.pools := by
  obtain ⟨s₀, hs₀⟩ : ∃ s, genesis .release mockGenesis = some s := ⟨_, rfl⟩
  have hnew : IndexedStep mockConfig s₀ (.advance 1) := by
    intro a pool hpool
    rw [(genesis_lending hs₀).2.2.2 a pool hpool]
    exact (newPool_tame 0 a true).noWrap
  obtain ⟨s₁, s₂, s₃, s₄, h₁, hok₂, h₂, hok₃, h₃, hok₄, h₄⟩ : ∃ s₁ s₂ s₃ s₄ : Chain (Fin 4),
      step mockConfig .release s₀ (.advance 1) = some s₁ ∧
      IndexedStep mockConfig s₁ (.call (.signed 1) (.lending (.supply 0 200000))) ∧
      step mockConfig .release s₁ (.call (.signed 1) (.lending (.supply 0 200000))) = some s₂ ∧
      IndexedStep mockConfig s₂ (.call (.signed 1) (.lending (.borrow 0 100000))) ∧
      step mockConfig .release s₂ (.call (.signed 1) (.lending (.borrow 0 100000))) = some s₃ ∧
      IndexedStep mockConfig s₃ (.call (.signed 1) (.lending (.withdraw 0 200000))) ∧
      step mockConfig .release s₃ (.call (.signed 1) (.lending (.withdraw 0 200000))) = some s₄ := by
    cases hs₀
    refine ⟨_, _, _, _, rfl, ?_, rfl, ?_, rfl, ?_, rfl⟩
    · rintro ⟨side, positive, a, x, pool, q, value, ⟨⟩, ⟨⟩, ⟨⟩, ⟨⟩, _⟩ _
      dsimp only
      decide
    · rintro ⟨side, positive, a, x, pool, q, value, ⟨⟩, ⟨⟩, ⟨⟩, ⟨⟩, _⟩ _
      dsimp only
      decide
    · rintro ⟨side, positive, a, x, pool, q, value, ⟨⟩, _⟩ ⟨⟩
  have hreached : Reached mockConfig (IndexedStep mockConfig) s₄ :=
    ⟨mockGenesis, s₀, hs₀, (((Run.refl.tail hnew h₁).tail hok₂ h₂).tail hok₃ h₃).tail hok₄ h₄⟩
  exact ⟨s₄, hreached, (positions_consistent hreached).1⟩

/-- An account that owns all of a `u128` supplies 10, borrows one, and supplies the rest: its position of `2 ^ 128`
wraps to nothing, and the asset stays on its list. -/
theorem listed_without_record : ∃ s : Chain (Fin 4),
    play mockConfig .release ⟨1, [(1, 340282366920938463463374607431768211455#128, 1)], 0, [0]⟩
      [.advance 1, .call (.signed 1) (.lending (.supply 0 10)), .call (.signed 1) (.lending (.borrow 0 1)),
        .call (.signed 1) (.lending (.supply 0 340282366920938463463374607431768211446#128))] = some s ∧
    ¬ s.lending.supplies.Consistent s.lending.pools := by
  refine ⟨_, rfl, fun h => ?_⟩
  exact absurd ((h.listed 1 0).mp (by decide)) (by decide)

end Lending

end Konomi
