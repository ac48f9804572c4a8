import Konomi.Lending.Views

/-!
# Calls of different users in one block

A call on one's own position accrues the pool of its asset, and stores it. A call of another user that follows in the
same block finds a pool that is not accrued again, with the same indexes (`Posting.later_accrued`), and its own record
as it was. It therefore has the position, the amount and the new value that it would have had alone (`later_value`,
`later_amount`), and only the total of the pool is another one. What the two calls write are sums of amounts, and lists
and records of different accounts: the order does not matter (`calls_commute`).
-/

namespace Konomi
open Machine

variable {A : Type} [DecidableEq A]

/-! ## Books -/

namespace Book
variable {a a' : AssetId} {u u' : A} {v v' : Balance} {I I' : FixedU128} {positive positive' : Bool}

theorem post_comm (b : Book A) (h : u ≠ u') :
    (b.post I a u v positive).post I' a' u' v' positive' = (b.post I' a' u' v' positive').post I a u v positive := by
  have hkey : (a, u) ≠ (a', u') := fun e => h (Prod.mk.inj e).2
  rw [post_eq _ I' a', post_eq _ I a, post_eq _ I a, post_eq _ I' a']
  dsimp only
  rw [Function.update_of_ne h, Function.update_of_ne h.symm, Function.update_comm hkey, Function.update_comm h]

end Book

namespace Lending
open Assets

omit [DecidableEq A] in
theorem ext_book {l l' : Lending A} (hbook : ∀ side, l.book side = l'.book side) (hpools : l.pools = l'.pools)
    (hthreshold : l.liquidationThreshold = l'.liquidationThreshold) : l = l' := by
  have hsupplies := hbook .supply
  have hdebts := hbook .debt
  cases l
  cases l'
  simp_all [book]

/-- An adjustment in the release build. -/
def adjusted (positive : Bool) (t m : Balance) : Balance := if positive then t + m else t - m

theorem adjust_release (positive : Bool) (t m : Balance) :
    adjust .release positive t m = some (adjusted positive t m) := by
  cases positive with
  | false => exact sub_release
  | true => exact add_release

theorem adjusted_comm (positive positive' : Bool) (t m n : Balance) :
    adjusted positive' (adjusted positive t m) n = adjusted positive (adjusted positive' t n) m := by
  unfold adjusted
  split <;> split <;> bv_omega

/-! ## The later call -/

variable {cfg : Config A} {s s' : Chain A} {u v : A} {side side' : Side} {positive positive' : Bool} {a b : AssetId}
  {x y : Balance}

namespace Posting

theorem total'_adjusted (d : Posting cfg .release s u side positive a x) :
    d.total' = adjusted positive (d.accrued.total side) d.amount :=
  Option.some.inj (d.total'_eq.symm.trans (adjust_release _ _ _))

theorem accrued_eq (d : Posting cfg .release s u side positive a x) (e : Posting cfg .release s v side' positive' a y) :
    d.accrued = e.accrued := by
  have hpool := Option.some.inj (d.stored.symm.trans e.stored)
  have hd := d.accrues
  rw [hpool, e.accrues] at hd
  exact (Option.some.inj hd).symm

/-- After a call on the same asset the pool is as that call stored it; otherwise it accrues as before. -/
theorem later_accrued (d : Posting cfg .release s u side positive a x)
    (e : Posting cfg .release s v side' positive' b y) (e' : Posting cfg .release d.result v side' positive' b y) :
    e'.accrued = if b = a then e.accrued.setTotal d.total' side else e.accrued := by
  have hstored := e'.stored
  have haccrues : accrueInterest .release s.blockNumber e'.pool = some e'.accrued := e'.accrues
  rw [d.result_pools] at hstored
  split
  · rename_i hb
    subst hb
    rw [Function.update_self] at hstored
    rw [← Option.some.inj hstored] at haccrues
    rw [d.accrues_after] at haccrues
    rw [← d.accrued_eq e]
    exact (Option.some.inj haccrues).symm
  · rename_i hb
    rw [Function.update_of_ne hb, e.stored] at hstored
    rw [← Option.some.inj hstored, e.accrues] at haccrues
    exact (Option.some.inj haccrues).symm

theorem later_index (d : Posting cfg .release s u side positive a x) (e : Posting cfg .release s v side' positive' b y)
    (e' : Posting cfg .release d.result v side' positive' b y) (sd : Side) :
    e'.accrued.index sd = e.accrued.index sd := by
  rw [d.later_accrued e e']
  split
  · exact index_setTotal ..
  · rfl

theorem later_value (d : Posting cfg .release s u side positive a x) (e : Posting cfg .release s v side' positive' b y)
    (e' : Posting cfg .release d.result v side' positive' b y) (h : u ≠ v) : e'.value = e.value := by
  have hvalue := e'.value_eq
  have hrec : (d.result.lending.book side').records (b, v) = (s.lending.book side').records (b, v) :=
    d.records_other fun hsame => h hsame.2.1.symm
  rw [d.later_index e e', hrec, e.value_eq] at hvalue
  exact (Option.some.inj hvalue).symm

theorem later_amount (d : Posting cfg .release s u side positive a x) (e : Posting cfg .release s v side' positive' b y)
    (e' : Posting cfg .release d.result v side' positive' b y) (h : u ≠ v) : e'.amount = e.amount := by
  rw [e'.amount_eq, e.amount_eq, d.later_value e e' h]

theorem later_value' (d : Posting cfg .release s u side positive a x) (e : Posting cfg .release s v side' positive' b y)
    (e' : Posting cfg .release d.result v side' positive' b y) (h : u ≠ v) : e'.value' = e.value' := by
  have hvalue' := e'.value'_eq
  rw [d.later_value e e' h, d.later_amount e e' h, e.value'_eq] at hvalue'
  exact (Option.some.inj hvalue').symm

theorem later_book' (d : Posting cfg .release s u side positive a x) (e : Posting cfg .release s v side' positive' b y)
    (e' : Posting cfg .release d.result v side' positive' b y) (h : u ≠ v) :
    e'.book' = (d.result.lending.book side').post (e.accrued.index side') b v e.value' positive' := by
  rw [← d.later_index e e', ← d.later_value' e e' h]
  rfl

/-! ## Both orders -/

section Orders
variable (d : Posting cfg .release s u side positive a x) (e : Posting cfg .release s v side' positive' b y)
  (e' : Posting cfg .release d.result v side' positive' b y) (d' : Posting cfg .release e.result u side positive a x)

theorem assets_comm (h : u ≠ v) : e'.assets = d'.assets := by
  have he' : d.assets.transfer .release (payer cfg v side' positive') b (payee cfg v side' positive') e.amount =
      some (.ok e'.assets) := by
    rw [← d.later_amount e e' h]
    exact e'.pays
  have hd' : e.assets.transfer .release (payer cfg u side positive) a (payee cfg u side positive) d.amount =
      some (.ok d'.assets) := by
    rw [← e.later_amount d d' h.symm]
    exact d'.pays
  exact transfer_comm d.pays he' e.pays hd'

theorem book_comm (h : u ≠ v) (sd : Side) : e'.result.lending.book sd = d'.result.lending.book sd := by
  rw [e'.result_book, d'.result_book, d.later_book' e e' h, e.later_book' d d' h.symm, d.result_book, e.result_book,
    d.result_book, e.result_book]
  by_cases hside : sd = side
  · by_cases hside' : sd = side'
    · subst hside
      subst hside'
      simp only [if_true]
      exact Book.post_comm _ h
    · have hne : side ≠ side' := fun e => hside' (hside.trans e)
      rw [if_neg hside', if_pos hside, if_pos hside, if_neg hne]
      rfl
  · by_cases hside' : sd = side'
    · have hne : side' ≠ side := fun e => hside (hside'.trans e)
      rw [if_pos hside', if_neg hside, if_neg hne, if_pos hside']
      rfl
    · rw [if_neg hside', if_neg hside, if_neg hside, if_neg hside']

/-- The pool of the later call is the accrued one with the total that the earlier call has stored on one asset. -/
theorem pools_comm (h : u ≠ v) : e'.result.lending.pools = d'.result.lending.pools := by
  rw [e'.result_pools, d'.result_pools, d.result_pools, e.result_pools, e'.total'_adjusted, d'.total'_adjusted,
    d.later_amount e e' h, e.later_amount d d' h.symm, d.later_accrued e e', e.later_accrued d d']
  by_cases hab : b = a
  · subst hab
    rw [if_pos rfl, if_pos rfl, Function.update_idem, Function.update_idem, d.total'_adjusted, e.total'_adjusted,
      d.accrued_eq e]
    cases side <;> cases side' <;> simp only [Pool.setTotal, Pool.total]
    · rw [adjusted_comm]
    · rw [adjusted_comm]
  · rw [if_neg hab, if_neg (Ne.symm hab), ← e.total'_adjusted, ← d.total'_adjusted]
    exact Function.update_comm (Ne.symm hab) _ _ _

theorem results_comm (h : u ≠ v) : e'.result = d'.result := by
  have hlending : e'.result.lending = d'.result.lending := by
    refine ext_book (book_comm d e e' d' h) (pools_comm d e e' d' h) ?_
    cases side <;> cases side' <;> rfl
  calc e'.result = { s with assets := e'.assets, lending := e'.result.lending } := rfl
    _ = { s with assets := d'.assets, lending := d'.result.lending } := by rw [assets_comm d e e' d' h, hlending]

end Orders

end Posting

/-- **Calls of different users in one block commute**: of two calls among supply, withdraw, borrow and repay that return
`Ok` in both orders, both orders end in the same storage. -/
theorem calls_commute {c c' : Call A} {s₁ s₁₂ s₂ s₂₁ : Chain A} (hne : u ≠ v) (hc : c.entry.isSome)
    (hc' : c'.entry.isSome) (h₁ : dispatch cfg .release s (.signed u) c = some (.ok (), s₁))
    (h₁₂ : dispatch cfg .release s₁ (.signed v) c' = some (.ok (), s₁₂))
    (h₂ : dispatch cfg .release s (.signed v) c' = some (.ok (), s₂))
    (h₂₁ : dispatch cfg .release s₂ (.signed u) c = some (.ok (), s₂₁)) : s₁₂ = s₂₁ := by
  obtain ⟨⟨side, positive, a, x⟩, entry⟩ := Option.isSome_iff_exists.mp hc
  obtain ⟨⟨side', positive', b, y⟩, entry'⟩ := Option.isSome_iff_exists.mp hc'
  obtain ⟨d, rfl⟩ := dispatch_posted h₁ entry
  obtain ⟨e', rfl⟩ := dispatch_posted h₁₂ entry'
  obtain ⟨e, rfl⟩ := dispatch_posted h₂ entry'
  obtain ⟨d', rfl⟩ := dispatch_posted h₂₁ entry
  exact Posting.results_comm d e e' d' hne

/-- In a block in which the pool of asset `0` has yet to accrue, user `1` withdraws from it and user `2` borrows. -/
theorem calls_commute_mock : ∃ s s₁ s₁₂ s₂ s₂₁, play mockConfig .release mockGenesis
      [.advance 1, .call (.signed 1) (.lending (.supply 0 100000)), .call (.signed 2) (.lending (.supply 1 100000)),
        .call (.signed 2) (.lending (.borrow 0 10000)), .advance 1001] = some s ∧
    dispatch mockConfig .release s (.signed 1) (.withdraw 0 100) = some (.ok (), s₁) ∧
    dispatch mockConfig .release s₁ (.signed 2) (.borrow 0 300) = some (.ok (), s₁₂) ∧
    dispatch mockConfig .release s (.signed 2) (.borrow 0 300) = some (.ok (), s₂) ∧
    dispatch mockConfig .release s₂ (.signed 1) (.withdraw 0 100) = some (.ok (), s₂₁) ∧ s₁₂ = s₂₁ := by
  obtain ⟨s, s₁, s₁₂, s₂, s₂₁, hs, h₁, h₁₂, h₂, h₂₁⟩ : ∃ s s₁ s₁₂ s₂ s₂₁, play mockConfig .release mockGenesis
      [.advance 1, .call (.signed 1) (.lending (.supply 0 100000)), .call (.signed 2) (.lending (.supply 1 100000)),
        .call (.signed 2) (.lending (.borrow 0 10000)), .advance 1001] = some s ∧
      dispatch mockConfig .release s (.signed 1) (.withdraw 0 100) = some (.ok (), s₁) ∧
      dispatch mockConfig .release s₁ (.signed 2) (.borrow 0 300) = some (.ok (), s₁₂) ∧
      dispatch mockConfig .release s (.signed 2) (.borrow 0 300) = some (.ok (), s₂) ∧
      dispatch mockConfig .release s₂ (.signed 1) (.withdraw 0 100) = some (.ok (), s₂₁) :=
    ⟨_, _, _, _, _, rfl, rfl, rfl, rfl, rfl⟩
  exact ⟨s, s₁, s₁₂, s₂, s₂₁, hs, h₁, h₁₂, h₂, h₂₁, calls_commute (by decide) rfl rfl h₁ h₁₂ h₂ h₂₁⟩

end Lending

end Konomi
