import Konomi.Assets.Moves

/-!
# Books of positions

`Book.put` writes a value at an index. An update of a position, with or without an accrual before it, is a `put` of
the adjusted value (`update_eq_put`, `accrue_update_eq_put`); an accrual writes the value a position already has
(`accrue_cases`), so it changes no value at that index (`valueAt_accrue`).

`Side` names the two books of the pallet. What holds of both is stated once for a side.
-/

namespace Konomi
open Machine

variable {A : Type} [DecidableEq A] {p : Profile} {b b' b'' : Book A} {I : FixedU128} {a a' : AssetId} {u u' : A}
  {m v w : Balance} {positive : Bool}

/-! ## Values -/

omit [DecidableEq A] in
theorem accuracy_pos : 0 < accuracy := by decide

omit [DecidableEq A] in
theorem accuracy_lt : accuracy < 2 ^ 128 := by decide

theorem accrued_self (p : Profile) (I : FixedU128) (v : Balance) :
    Position.accrued p I ⟨v, I⟩ = if I.toNat = 0 then none else some v := by
  unfold Position.accrued
  dsimp only
  split
  · rw [Fixed.div, if_pos ‹_›]
    rfl
  · rw [Fixed.div_self accuracy_lt ‹_›]
    exact Fixed.one_mulInt accuracy_lt v

theorem valueAt_self (h : valueAt p I (some ⟨v, I⟩) = some w) : w = v ∧ I.toNat ≠ 0 := by
  rw [valueAt, accrued_self] at h
  split at h
  · cases h
  · exact ⟨(Option.some.inj h).symm, ‹_›⟩

/-- What `n` units at the index `J` are at the index `I`, before a clamp. -/
def accruedTo (I J n : Nat) : Nat := rounded 128 (rounded 128 (I * accuracy) J * n) accuracy

omit [DecidableEq A] in
theorem accruedTo_mono {I I' J : Nat} (hJ : J ≠ 0) (h : I ≤ I') (n : Nat) : accruedTo I J n ≤ accruedTo I' J n :=
  rounded_mono accuracy_pos (Nat.mul_le_mul_right n
    (rounded_mono (Nat.pos_of_ne_zero hJ) (Nat.mul_le_mul_right accuracy h)))

theorem toNat_accrued {user : Position} (h : user.accrued p I = some v) : user.index.toNat ≠ 0 ∧
    v.toNat = min (accruedTo I.toNat user.index.toNat user.amount.toNat) (2 ^ 128 - 1) := by
  obtain ⟨ratio, hratio, h⟩ := Option.bind_eq_some_iff.mp h
  obtain ⟨hne, hratio⟩ := Fixed.toNat_div hratio
  rw [Fixed.toNat_mulInt h, hratio]
  exact ⟨hne, rfl⟩

theorem index_ne_zero {r : Option Position} (h : valueAt p I r = some v) (hv : v ≠ 0) : I.toNat ≠ 0 := by
  intro hI
  apply hv
  cases r with
  | none => exact (Option.some.inj h).symm
  | some user =>
    apply BitVec.eq_of_toNat_eq
    rw [(toNat_accrued h).2, hI]
    simp [accruedTo]

theorem isSome_of_value {r : Option Position} (h : valueAt p I r = some v) (hv : v ≠ 0) : r.isSome := by
  cases r with
  | none => exact absurd (Option.some.inj h).symm hv
  | some user => rfl

theorem adjust_zero (p : Profile) (m : Balance) : adjust p true 0 m = some m := by
  have hlt : (0 : Balance).toNat + m.toNat < 2 ^ 128 := by simpa using m.isLt
  rw [adjust, if_pos rfl, add_isSome_of_lt hlt]
  simp

theorem toNat_adjust (hp : p.wraps = false) (h : adjust p positive v m = some w) :
    (w.toNat : Int) = v.toNat + if positive then (m.toNat : Int) else -m.toNat := by
  cases positive with
  | true =>
    have := toNat_add hp h
    simp only [if_true]
    omega
  | false =>
    have := toNat_sub hp h
    simp only [Bool.false_eq_true, if_false]
    omega

theorem toNat_adjust_add (h : adjust p true v m = some w) (hfit : v.toNat + m.toNat < 2 ^ 128) :
    w.toNat = v.toNat + m.toNat := by
  rw [show w = v + m from add_eq h, BitVec.toNat_add, Nat.mod_eq_of_lt hfit]

theorem toNat_adjust_sub (h : adjust p false v m = some w) (hle : m.toNat ≤ v.toNat) :
    w.toNat = v.toNat - m.toNat := by
  rw [show w = v - m from sub_eq h, BitVec.toNat_sub_of_le (BitVec.le_def.mpr hle)]

/-! ## Writing a value -/

/-- Store the value `v` at the index `I`; a value of zero removes the position and its asset from the list. -/
def Book.put (b : Book A) (I : FixedU128) (a : AssetId) (u : A) (v : Balance) : Book A :=
  if v ≠ 0 then { b with records := Function.update b.records (a, u) (some ⟨v, I⟩) }
  else
    { records := Function.update b.records (a, u) none
      assets := Function.update b.assets u ((b.assets u).filter (· ≠ a)) }

namespace Book

theorem put_records (b : Book A) (I : FixedU128) (a : AssetId) (u : A) (v : Balance) :
    (b.put I a u v).records = Function.update b.records (a, u) (if v ≠ 0 then some ⟨v, I⟩ else none) := by
  unfold put
  split <;> rfl

theorem put_records_of_ne (b : Book A) (I : FixedU128) (v : Balance) (h : (a', u') ≠ (a, u)) :
    (b.put I a u v).records (a', u') = b.records (a', u') := by
  rw [put_records, Function.update_of_ne h]

@[simp] theorem enlist_records (b : Book A) (a : AssetId) (u : A) : (b.enlist a u).records = b.records := by
  unfold enlist
  split <;> rfl

/-- Only a value of zero takes an asset off a list. -/
theorem mem_put : a' ∈ (b.put I a u v).assets u' ↔ a' ∈ b.assets u' ∧ (v = 0 → (a', u') ≠ (a, u)) := by
  unfold put
  split
  · rename_i hv
    exact ⟨fun h => ⟨h, fun h0 => absurd h0 hv⟩, fun h => h.1⟩
  · rename_i hv
    show a' ∈ Function.update b.assets u ((b.assets u).filter (· ≠ a)) u' ↔ _
    by_cases hu : u' = u
    · subst hu
      simp [not_not.mp hv]
    · rw [Function.update_of_ne hu]
      simp [hu]

theorem mem_enlist : a' ∈ (b.enlist a u).assets u' ↔ a' ∈ b.assets u' ∨ (a', u') = (a, u) := by
  unfold enlist
  split
  · rename_i hmem
    refine ⟨Or.inl, fun h => h.elim id fun he => ?_⟩
    obtain ⟨rfl, rfl⟩ := Prod.mk.inj he
    exact hmem
  · show a' ∈ Function.update b.assets u (b.assets u ++ [a]) u' ↔ _
    by_cases hu : u' = u
    · subst hu
      simp
    · rw [Function.update_of_ne hu]
      simp [hu]

theorem nodup_put (h : ∀ u, (b.assets u).Nodup) (u' : A) : ((b.put I a u v).assets u').Nodup := by
  unfold put
  split
  · exact h u'
  · show (Function.update b.assets u ((b.assets u).filter (· ≠ a)) u').Nodup
    by_cases hu : u' = u
    · subst hu
      rw [Function.update_self]
      exact (h u').filter _
    · rw [Function.update_of_ne hu]
      exact h u'

theorem nodup_enlist (h : ∀ u, (b.assets u).Nodup) (u' : A) : ((b.enlist a u).assets u').Nodup := by
  unfold enlist
  split
  · exact h u'
  · rename_i hnew
    show (Function.update b.assets u (b.assets u ++ [a]) u').Nodup
    by_cases hu : u' = u
    · subst hu
      rw [Function.update_self, List.nodup_append]
      refine ⟨h u', List.nodup_singleton a, fun x hx y hy => ?_⟩
      rw [List.mem_singleton.mp hy]
      rintro rfl
      exact hnew hx
    · rw [Function.update_of_ne hu]
      exact h u'

theorem valueAt_put (h : valueAt p I ((b.put I a u v).records (a, u)) = some w) : w = v := by
  rw [put_records, Function.update_self] at h
  split at h
  · exact (valueAt_self h).1
  · rename_i h0
    rw [not_not.mp h0]
    exact (Option.some.inj h).symm

/-- A record that is rewritten first does not matter. -/
theorem put_of_records {r : Option Position} :
    Book.put { b with records := Function.update b.records (a, u) r } I a u v = b.put I a u v := by
  unfold put
  split <;> simp

theorem update_eq_put (h : b.update p I a u m positive = some b') (hm : m ≠ 0)
    (hrec : positive = true ∨ (b.records (a, u)).isSome) :
    ∃ v v', valueAt p I (b.records (a, u)) = some v ∧ adjust p positive v m = some v' ∧ b' = b.put I a u v' := by
  unfold update at h
  cases hr : b.records (a, u) with
  | none =>
    rw [hr] at h hrec
    have hpos : positive = true := by simpa using hrec
    subst hpos
    simp only [hm, ne_eq, not_false_eq_true, if_true, Option.some.injEq] at h
    refine ⟨0, m, rfl, adjust_zero p m, ?_⟩
    rw [put, if_pos hm, h]
  | some user =>
    rw [hr] at h
    obtain ⟨v, hv, h⟩ := Option.bind_eq_some_iff.mp h
    obtain ⟨v', hv', h⟩ := Option.bind_eq_some_iff.mp h
    refine ⟨v, v', hv, hv', ?_⟩
    unfold put
    split at h
    · rw [if_pos ‹_›]
      exact (Option.some.inj h).symm
    · rw [if_neg ‹_›]
      exact (Option.some.inj h).symm

theorem accrue_cases (h : b.accrue p I a u = some b') :
    ∃ v, valueAt p I (b.records (a, u)) = some v ∧
      ((b.records (a, u) = none ∧ b' = b) ∨
        ((b.records (a, u)).isSome ∧
          b' = { b with records := Function.update b.records (a, u) (some ⟨v, I⟩) })) := by
  unfold accrue at h
  cases hr : b.records (a, u) with
  | none =>
    rw [hr] at h
    cases h
    exact ⟨0, rfl, Or.inl ⟨rfl, rfl⟩⟩
  | some user =>
    rw [hr] at h
    obtain ⟨v, hv, h⟩ := Option.bind_eq_some_iff.mp h
    cases h
    exact ⟨v, hv, Or.inr ⟨rfl, rfl⟩⟩

theorem accrue_records_of_ne (h : b.accrue p I a u = some b') (hne : (a', u') ≠ (a, u)) :
    b'.records (a', u') = b.records (a', u') := by
  obtain ⟨v, _, ⟨_, rfl⟩ | ⟨_, rfl⟩⟩ := accrue_cases h
  · rfl
  · exact Function.update_of_ne hne _ _

/-- The record an accrual leaves is worth what it was. -/
theorem accrue_record {user : Position} (h : b.accrue p I a u = some b') (hr : b'.records (a, u) = some user) :
    valueAt p I (b.records (a, u)) = some user.amount ∧ user.index = I ∧ (b.records (a, u)).isSome := by
  obtain ⟨v, hv, ⟨hnone, rfl⟩ | ⟨hsome, rfl⟩⟩ := accrue_cases h
  · rw [hnone] at hr
    cases hr
  · change Function.update b.records (a, u) (some ⟨v, I⟩) (a, u) = some user at hr
    rw [Function.update_self] at hr
    cases hr
    exact ⟨hv, rfl, hsome⟩

theorem accrue_none (h : b.accrue p I a u = some b') (hr : b'.records (a, u) = none) : b.records (a, u) = none := by
  obtain ⟨v, _, ⟨hnone, _⟩ | ⟨_, rfl⟩⟩ := accrue_cases h
  · exact hnone
  · change Function.update b.records (a, u) (some ⟨v, I⟩) (a, u) = none at hr
    rw [Function.update_self] at hr
    cases hr

theorem valueAt_accrue (h : b.accrue p I a u = some b') (hv : valueAt p I (b.records (a', u')) = some v)
    (hw : valueAt p I (b'.records (a', u')) = some w) : w = v := by
  by_cases hne : (a', u') = (a, u)
  · cases hne
    obtain ⟨x, hx, ⟨_, rfl⟩ | ⟨_, rfl⟩⟩ := accrue_cases h
    · rw [hw] at hv
      exact Option.some.inj hv
    · rw [hx] at hv
      cases hv
      change valueAt p I (Function.update b.records (a, u) (some ⟨_, I⟩) (a, u)) = some w at hw
      rw [Function.update_self] at hw
      exact (valueAt_self hw).1
  · rw [accrue_records_of_ne h hne, hv] at hw
    exact (Option.some.inj hw).symm

/-- An accrual before an update at the same index changes nothing. -/
theorem accrue_update_eq_put (h : b.accrue p I a u = some b') (h' : b'.update p I a u m positive = some b'')
    (hm : m ≠ 0) (hrec : positive = true ∨ (b'.records (a, u)).isSome) :
    ∃ v v', valueAt p I (b.records (a, u)) = some v ∧ adjust p positive v m = some v' ∧ b'' = b.put I a u v' := by
  obtain ⟨w, v', hw, hv', rfl⟩ := update_eq_put h' hm hrec
  obtain ⟨v, hv, _⟩ := accrue_cases h
  have hwv : w = v := valueAt_accrue h hv hw
  subst hwv
  refine ⟨w, v', hv, hv', ?_⟩
  obtain ⟨_, _, ⟨_, rfl⟩ | ⟨_, rfl⟩⟩ := accrue_cases h
  · rfl
  · exact put_of_records

theorem update_self (hr : b.records (a, u) = some ⟨v, I⟩) (hI : I.toNat ≠ 0) (hv' : adjust p positive v m = some w) :
    b.update p I a u m positive = some (b.put I a u w) := by
  unfold Book.update put
  rw [hr]
  dsimp only
  rw [accrued_self, if_neg hI, Option.bind_eq_bind, Option.bind_some, hv', Option.bind_some]
  split <;> rfl

theorem accrue_eq (hrec : (b.records (a, u)).isSome) (hv : valueAt p I (b.records (a, u)) = some v) :
    b.accrue p I a u = some { b with records := Function.update b.records (a, u) (some ⟨v, I⟩) } := by
  obtain ⟨user, hr⟩ := Option.isSome_iff_exists.mp hrec
  rw [hr] at hv
  unfold Book.accrue
  rw [hr]
  exact Option.bind_eq_some_iff.mpr ⟨v, hv, rfl⟩

/-! ## What a call writes -/

/-- What a call writes to the book of its side. -/
def post (b : Book A) (I : FixedU128) (a : AssetId) (u : A) (v : Balance) (positive : Bool) : Book A :=
  let b := b.put I a u v
  if positive then b.enlist a u else b

/-- What becomes of the list of the account. -/
def listAfter {α : Type} [DecidableEq α] (a : α) (v : Balance) (positive : Bool) (l : List α) : List α :=
  let l := if v ≠ 0 then l else l.filter (· ≠ a)
  if positive ∧ a ∉ l then l ++ [a] else l

theorem put_eq (b : Book A) (I : FixedU128) (a : AssetId) (u : A) (v : Balance) :
    b.put I a u v =
      { records := Function.update b.records (a, u) (if v ≠ 0 then some ⟨v, I⟩ else none)
        assets := Function.update b.assets u (if v ≠ 0 then b.assets u else (b.assets u).filter (· ≠ a)) } := by
  unfold put
  split
  · rw [Function.update_eq_self]
  · rfl

theorem enlist_eq (b : Book A) (a : AssetId) (u : A) :
    b.enlist a u =
      { b with assets := Function.update b.assets u (if a ∉ b.assets u then b.assets u ++ [a] else b.assets u) } := by
  unfold enlist
  by_cases hmem : a ∈ b.assets u
  · rw [if_pos hmem, if_neg (not_not.mpr hmem), Function.update_eq_self]
  · rw [if_neg hmem, if_pos hmem]

theorem post_eq (b : Book A) (I : FixedU128) (a : AssetId) (u : A) (v : Balance) (positive : Bool) :
    b.post I a u v positive =
      { records := Function.update b.records (a, u) (if v ≠ 0 then some ⟨v, I⟩ else none)
        assets := Function.update b.assets u (listAfter a v positive (b.assets u)) } := by
  unfold post
  dsimp only
  cases positive with
  | false =>
    rw [if_neg (by decide), put_eq]
    simp [listAfter]
  | true =>
    rw [if_pos rfl, enlist_eq, put_eq]
    simp [listAfter]

end Book

/-! ## The two sides -/

/-- The two books of the pallet. -/
inductive Side where
  | supply
  | debt
  deriving DecidableEq

/-- The total of a side. -/
def Pool.total (q : Pool) : Side → Balance
  | .supply => q.supply
  | .debt => q.debt

def Pool.setTotal (q : Pool) (t : Balance) : Side → Pool
  | .supply => { q with supply := t }
  | .debt => { q with debt := t }

def Pool.index (q : Pool) : Side → FixedU128
  | .supply => q.totalSupplyIndex
  | .debt => q.totalDebtIndex

namespace Lending

def book (l : Lending A) : Side → Book A
  | .supply => l.supplies
  | .debt => l.debts

def setBook (l : Lending A) (b : Book A) : Side → Lending A
  | .supply => { l with supplies := b }
  | .debt => { l with debts := b }

def indexNow (p : Profile) (now : BlockNumber) (pool : Pool) : Side → Option FixedU128
  | .supply => supplyIndexNow p now pool
  | .debt => debtIndexNow p now pool

/-- `get_user_supply_with_interest` and `get_user_debt_with_interest`. -/
def view (p : Profile) (s : Chain A) (assetId : AssetId) (user : A) : Side → Option Balance
  | .supply => getUserSupplyWithInterest p s assetId user
  | .debt => getUserDebtWithInterest p s assetId user

omit [DecidableEq A] in
theorem view_eq (p : Profile) (s : Chain A) (a : AssetId) (u : A) (side : Side) :
    view p s a u side = match s.lending.pools a with
      | some pool => indexNow p s.blockNumber pool side >>= fun I =>
          valueAt p I ((s.lending.book side).records (a, u))
      | none => some 0 := by
  cases side <;> rfl

omit [DecidableEq A] in
@[simp] theorem book_setBook (l : Lending A) (b : Book A) (side side' : Side) :
    (l.setBook b side).book side' = if side' = side then b else l.book side' := by
  cases side <;> cases side' <;> rfl

omit [DecidableEq A] in
@[simp] theorem pools_setBook (l : Lending A) (b : Book A) (side : Side) : (l.setBook b side).pools = l.pools := by
  cases side <;> rfl

omit [DecidableEq A] in
@[simp] theorem book_commit (l : Lending A) (q : Pool) (a : AssetId) (side : Side) :
    (l.commit q a).book side = l.book side := by
  cases side <;> rfl

@[simp] theorem total_setTotal (q : Pool) (t : Balance) (side side' : Side) :
    (q.setTotal t side).total side' = if side' = side then t else q.total side' := by
  cases side <;> cases side' <;> rfl

@[simp] theorem index_setTotal (q : Pool) (t : Balance) (side side' : Side) :
    (q.setTotal t side).index side' = q.index side' := by
  cases side <;> cases side' <;> rfl

@[simp] theorem lastUpdated_setTotal (q : Pool) (t : Balance) (side : Side) :
    (q.setTotal t side).lastUpdated = q.lastUpdated := by
  cases side <;> rfl

end Lending
end Konomi
