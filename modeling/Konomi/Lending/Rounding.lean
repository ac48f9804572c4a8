import Konomi.Lending.Pools

/-!
# Positions as shares of an index

A position is worth its share `amount / index` of an index. What the pallet computes is at most that, as long as neither
of its two quotients is rounded up past it (`BelowShare`); an index that is multiplied is at most its exact product, as
long as that is not rounded up (`IndexBelow`). Both are rounded down while the products are in the word
(`belowShare_of_fits`, `indexBelow_of_fits`).

`RoundsDown s side n` says both of the whole side at block `n`. Calls do not change it: what they store stands at the
index of the block (`RoundsDown.follows`). So it is a condition on the blocks of a run.
-/

namespace Konomi.Lending
open Machine

variable {A : Type} [DecidableEq A] {s s' : Chain A} {u : A} {a : AssetId} {pool q : Pool} {now n : BlockNumber}
  {side : Side} {J : FixedU128} {v : Balance}

/-- The share of a position. -/
def share : Option Position → ℚ
  | some user => user.amount.toNat / user.index.toNat
  | none => 0

theorem share_nonneg (r : Option Position) : 0 ≤ share r := by
  cases r with
  | none => exact le_refl _
  | some user => exact div_nonneg (Nat.cast_nonneg _) (Nat.cast_nonneg _)

theorem share_put (b : Book A) (J : FixedU128) (a : AssetId) (u : A) (v : Balance) :
    share ((b.put J a u v).records (a, u)) = (v.toNat : ℚ) / J.toNat := by
  rw [Book.put_records, Function.update_self]
  split
  · rfl
  · rename_i hzero
    rw [not_not.mp hzero]
    simp [share]

/-! ## Values below their shares -/

/-- At the index `J` a position is worth at most its share. -/
def BelowShare (J : FixedU128) : Option Position → Prop
  | some user => accruedTo J.toNat user.index.toNat user.amount.toNat * user.index.toNat ≤ user.amount.toNat * J.toNat
  | none => True

instance (J : FixedU128) : DecidablePred (BelowShare J)
  | some _ => inferInstanceAs (Decidable (_ ≤ _))
  | none => isTrue trivial

theorem belowShare_of_fits {user : Position} (hratio : J.toNat * accuracy < 2 ^ 128)
    (hproduct : J.toNat * accuracy / user.index.toNat * user.amount.toNat < 2 ^ 128) : BelowShare J (some user) := by
  show accruedTo _ _ _ * _ ≤ _
  rw [accruedTo, rounded_of_lt hratio, rounded_of_lt hproduct]
  refine Nat.le_of_mul_le_mul_left (?_ : accuracy * _ ≤ accuracy * _) accuracy_pos
  calc accuracy * (J.toNat * accuracy / user.index.toNat * user.amount.toNat / accuracy * user.index.toNat)
      = accuracy * (J.toNat * accuracy / user.index.toNat * user.amount.toNat / accuracy) * user.index.toNat := by ring
    _ ≤ J.toNat * accuracy / user.index.toNat * user.amount.toNat * user.index.toNat :=
        Nat.mul_le_mul_right _ (Nat.mul_div_le _ _)
    _ = J.toNat * accuracy / user.index.toNat * user.index.toNat * user.amount.toNat := by ring
    _ ≤ J.toNat * accuracy * user.amount.toNat := Nat.mul_le_mul_right _ (Nat.div_mul_le_self _ _)
    _ = accuracy * (user.amount.toNat * J.toNat) := by ring

theorem belowShare_self {user : Position} (h : user.index = J) : BelowShare J (some user) := by
  show accruedTo _ _ _ * _ ≤ _
  rw [h]
  refine Nat.mul_le_mul_right _ ?_
  rcases Nat.eq_zero_or_pos J.toNat with hzero | hpos
  · rw [accruedTo, hzero, Nat.zero_mul, rounded_zero, Nat.zero_mul, rounded_zero]
    exact Nat.zero_le _
  · rw [accruedTo, rounded_mul 128 _ hpos, rounded_mul 128 _ accuracy_pos]

theorem belowShare_of_zero {r : Option Position} (h : share r = 0) : BelowShare J r := by
  cases r with
  | none => trivial
  | some user =>
    show accruedTo _ _ _ * _ ≤ _
    rcases div_eq_zero_iff.mp h with hzero | hzero
    · rw [Nat.cast_eq_zero.mp hzero, accruedTo, Nat.mul_zero, rounded_zero, Nat.zero_mul]
      exact Nat.zero_le _
    · rw [Nat.cast_eq_zero.mp hzero, Nat.mul_zero]
      exact Nat.zero_le _

theorem value_le_share {r : Option Position} (hbelow : BelowShare J r) (h : valueAt .release J r = some v) :
    (v.toNat : ℚ) ≤ J.toNat * share r := by
  cases r with
  | none =>
    cases h
    simp [share]
  | some user =>
    obtain ⟨hne, hv⟩ := toNat_accrued h
    have hpos : (0 : ℚ) < user.index.toNat := by exact_mod_cast Nat.pos_of_ne_zero hne
    have hle : v.toNat * user.index.toNat ≤ J.toNat * user.amount.toNat := by
      rw [hv, Nat.mul_comm J.toNat]
      exact (Nat.mul_le_mul_right _ (min_le_left _ _)).trans hbelow
    rw [share, ← mul_div_assoc, le_div_iff₀ hpos]
    exact_mod_cast hle

theorem div_le_share {r : Option Position} (hbelow : BelowShare J r) (h : valueAt .release J r = some v) :
    (v.toNat : ℚ) / J.toNat ≤ share r := by
  by_cases hJ : J.toNat = 0
  · rw [hJ, Nat.cast_zero, div_zero]
    exact share_nonneg r
  · rw [div_le_iff₀ (by exact_mod_cast Nat.pos_of_ne_zero hJ), mul_comm]
    exact value_le_share hbelow h

theorem share_accrue_le {p : Profile} {b b' : Book A} (hbelow : BelowShare J (b.records (a, u))) (hp : p ≤ .release)
    (h : b.accrue p J a u = some b') (k : AssetId × A) : share (b'.records k) ≤ share (b.records k) := by
  by_cases hk : k = (a, u)
  · subst hk
    obtain ⟨v, hv, ⟨_, rfl⟩ | ⟨_, rfl⟩⟩ := Book.accrue_cases h
    · exact le_rfl
    · show share (Function.update b.records (a, u) _ (a, u)) ≤ _
      rw [Function.update_self]
      exact div_le_share hbelow (mono_valueAt _ _ hp hv)
  · rw [Book.accrue_records_of_ne h (show (k.1, k.2) ≠ (a, u) from hk)]

theorem share_put_le {b : Book A} {v' : Balance} (hbelow : BelowShare J (b.records (a, u)))
    (hv : valueAt .release J (b.records (a, u)) = some v) (hle : v'.toNat ≤ v.toNat) (k : AssetId × A) :
    share ((b.put J a u v').records k) ≤ share (b.records k) := by
  by_cases hk : k = (a, u)
  · subst hk
    rw [share_put]
    refine le_trans ?_ (div_le_share hbelow hv)
    gcongr
  · rw [Book.put_records_of_ne b J v' (show (k.1, k.2) ≠ (a, u) from hk)]

/-! ## Indexes below their products -/

/-- At block `n` the index of a side is at most its exact product. -/
def IndexBelow (pool : Pool) (side : Side) (n : BlockNumber) : Prop :=
  ∀ rate, rateInternal .release pool side = some rate →
    accuracy * rounded 128 ((pool.index side).toNat *
      (accuracy + rate.toNat * (n.toNat - pool.lastUpdated.toNat))) accuracy ≤
    (pool.index side).toNat * (accuracy + rate.toNat * (n.toNat - pool.lastUpdated.toNat))

theorem indexBelow_of_fits (h : ∀ rate, rateInternal .release pool side = some rate →
    (pool.index side).toNat * (accuracy + rate.toNat * (n.toNat - pool.lastUpdated.toNat)) < 2 ^ 128) :
    IndexBelow pool side n := by
  intro rate hrate
  rw [rounded_of_lt (h rate hrate)]
  exact Nat.mul_div_le _ _

theorem indexBelow_of_one (h : pool.index side = Fixed.one) : IndexBelow pool side n := by
  intro rate _
  rw [h, Fixed.toNat_one accuracy_lt, rounded_mul 128 _ accuracy_pos]

theorem indexBelow_self (h : pool.lastUpdated = n) : IndexBelow pool side n := by
  intro rate _
  rw [h, Nat.sub_self, Nat.mul_zero, Nat.add_zero, Nat.mul_comm _ accuracy, rounded_mul 128 _ accuracy_pos]

/-! ## A side that is rounded down -/

/-- At block `n` neither an index of the side nor a position at it is rounded up. -/
def RoundsDown (s : Chain A) (side : Side) (n : BlockNumber) : Prop :=
  ∀ a pool, s.lending.pools a = some pool → IndexBelow pool side n ∧
    ∀ q, accrueInterest .release n pool = some q → ∀ u, BelowShare (q.index side) ((s.lending.book side).records (a, u))

omit [DecidableEq A] in
/-- **Calls do not change what is rounded down.** -/
theorem RoundsDown.follows {P : AssetId → Prop} (h : RoundsDown s side s.blockNumber) (hf : Follows P s s') :
    RoundsDown s' side s'.blockNumber := by
  intro b pool' hpool'
  rw [hf.block]
  -- a record of the new state is an old one, or stands at the index of the block
  have hrecords : ∀ {pool q}, s.lending.pools b = some pool → accrueInterest .release s.blockNumber pool = some q →
      ∀ v, BelowShare (q.index side) ((s'.lending.book side).records (b, v)) := by
    intro pool q hpool hq v
    cases hr : (s'.lending.book side).records (b, v) with
    | none => trivial
    | some user =>
      rcases hf.records side b v user hr with hold | ⟨_, pool₁, q₁, ⟨hpool₁, hq₁⟩, hindex⟩
      · rw [← hold]
        exact (h b pool hpool).2 q hq v
      · cases hpool.symm.trans hpool₁
        cases hq.symm.trans hq₁
        exact belowShare_self hindex
  rcases hf.pools b with hsame | ⟨_, pool, q, q', ⟨hpool, hq⟩, hq', htotals⟩
  · rw [hsame] at hpool'
    exact ⟨(h b pool' hpool').1, fun q hq => hrecords hpool' hq⟩
  · cases hpool'.symm.trans hq'
    have hlast : pool'.lastUpdated = s.blockNumber := by
      rw [htotals]
      exact (accrueInterest_lastUpdated hq :)
    refine ⟨indexBelow_self hlast, fun q₁ hq₁ => ?_⟩
    rw [accrueInterest_self hlast] at hq₁
    cases hq₁
    have hindex : pool'.index side = q.index side := by
      rw [htotals]
      cases side <;> rfl
    rw [hindex]
    exact hrecords hpool hq

omit [DecidableEq A] in
theorem RoundsDown.congr (h : RoundsDown s side s.blockNumber) (hlending : s'.lending = s.lending)
    (hblock : s'.blockNumber = s.blockNumber) : RoundsDown s' side s'.blockNumber := by
  intro a pool hpool
  rw [hblock, hlending]
  exact h a pool (by rwa [← hlending])

omit [DecidableEq A] in
theorem RoundsDown.of_others (h : RoundsDown s side n) (changed : List AssetId)
    (hpools : ∀ b, b ∉ changed → s'.lending.pools b = s.lending.pools b)
    (hrecords : ∀ b u, b ∉ changed → (s'.lending.book side).records (b, u) = (s.lending.book side).records (b, u))
    (hchanged : ∀ b ∈ changed, ∀ pool, s'.lending.pools b = some pool → IndexBelow pool side n ∧ ∀ q,
      accrueInterest .release n pool = some q → ∀ u, BelowShare (q.index side) ((s'.lending.book side).records (b, u))) :
    RoundsDown s' side n := by
  intro b pool hpool
  by_cases hb : b ∈ changed
  · exact hchanged b hb pool hpool
  · rw [hpools b hb] at hpool
    obtain ⟨hindex, hbelow⟩ := h b pool hpool
    refine ⟨hindex, fun q hq u => ?_⟩
    rw [hrecords b u hb]
    exact hbelow q hq u

omit [DecidableEq A] in
theorem roundsDown_of_empty (hindex : ∀ a pool, s.lending.pools a = some pool → pool.index side = Fixed.one)
    (hrecords : ∀ k, (s.lending.book side).records k = none) (n : BlockNumber) : RoundsDown s side n := by
  intro a pool hpool
  refine ⟨indexBelow_of_one (hindex a pool hpool), fun q _ u => ?_⟩
  rw [hrecords]
  trivial

theorem genesis_roundsDown {g : Genesis A} (h : genesis .release g = some s) (side : Side) (n : BlockNumber) :
    RoundsDown s side n := by
  obtain ⟨_, hsupplies, hdebts, hpools⟩ := genesis_lending h
  refine roundsDown_of_empty (fun a pool hpool => ?_) (fun k => ?_) n
  · rw [hpools a pool hpool]
    cases side <;> rfl
  · cases side with
    | supply => exact congrFun (congrArg Book.records hsupplies) k
    | debt => exact congrFun (congrArg Book.records hdebts) k

end Konomi.Lending
