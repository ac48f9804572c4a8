import Konomi.Lib.Reserves
import Konomi.Blocks

/-!
# What payments do to balances

Without wrapping, a payment takes its amount from its payer and gives it to its payee (`make_exact`). A list of payments
that all settle (each is covered in its turn, or is of nothing) adds up (`pay_exact`); of any list, an account loses at
most what it was to pay (`pay_le`). Where holdings are conserved the release build makes the same payments
(`pay_checked`).
-/

namespace Konomi.Swap
open Machine Assets

variable {A : Type} [DecidableEq A]

/-- What a payment takes from the holdings of `j` by `w`. -/
def Payment.debit (t : Payment A) (j : AssetId) (w : A) : Nat :=
  if t.id = j ∧ t.payer = w then t.amount.toNat else 0

/-- What a payment gives to the holdings of `j` by `w`. -/
def Payment.credit (t : Payment A) (j : AssetId) (w : A) : Nat :=
  if t.id = j ∧ t.payee = w then t.amount.toNat else 0

def debits (ts : List (Payment A)) (j : AssetId) (w : A) : Nat := (ts.map (·.debit j w)).sum

def credits (ts : List (Payment A)) (j : AssetId) (w : A) : Nat := (ts.map (·.credit j w)).sum

@[simp] theorem debits_nil (j : AssetId) (w : A) : debits [] j w = 0 := rfl

@[simp] theorem credits_nil (j : AssetId) (w : A) : credits [] j w = 0 := rfl

@[simp] theorem debits_cons (t : Payment A) (ts : List (Payment A)) (j : AssetId) (w : A) :
    debits (t :: ts) j w = t.debit j w + debits ts j w := by simp [debits]

@[simp] theorem credits_cons (t : Payment A) (ts : List (Payment A)) (j : AssetId) (w : A) :
    credits (t :: ts) j w = t.credit j w + credits ts j w := by simp [credits]

/-- A payment that is made, or is of nothing. -/
def Settled (t : Payment A) (made : Bool) : Prop := made = true ∨ t.amount = 0

/-- Each payment is covered by its payer's balance when its turn comes, or is of nothing. -/
def SettledInOrder (p : Profile) : Assets A → List (Payment A) → Prop
  | _, [] => True
  | st, t :: ts => (t.amount = 0 ∧ SettledInOrder p st ts) ∨
      (t.Covered st ∧ ∀ st', t.make p st = some (.ok st') → SettledInOrder p st' ts)

section Pay
variable {p : Profile} {st st' : Assets A} {t : Payment A} {ts : List (Payment A)} {done : List Bool}

theorem debit_of_zero (h : t.amount = 0) (j : AssetId) (w : A) : t.debit j w = 0 := by
  simp [Payment.debit, h]

theorem credit_of_zero (h : t.amount = 0) (j : AssetId) (w : A) : t.credit j w = 0 := by
  simp [Payment.credit, h]

/-- The payments settle exactly when each is covered in its turn or is of nothing. -/
theorem pay_settled_iff : ∀ {ts : List (Payment A)} {st st' : Assets A} {done : List Bool},
    pay p st ts = some (done, st') → (List.Forall₂ Settled ts done ↔ SettledInOrder p st ts)
  | [], st, st', done, h => by
    rw [(pay_nil h).1]
    simp [SettledInOrder]
  | t :: ts, st, st', done, h => by
    rcases pay_cons h with ⟨hc, done', hpay, rfl⟩ | ⟨hc, st₁, done', hmake, hpay, rfl⟩
    · simp [SettledInOrder, Settled, hc, pay_settled_iff hpay]
    · have hne : t.amount ≠ 0 := hc.1
      have hsame : ∀ st₂, t.make p st = some (.ok st₂) → st₂ = st₁ := by
        intro st₂ h₂
        rw [hmake] at h₂
        exact (Except.ok.inj (Option.some.inj h₂)).symm
      simp only [List.forall₂_cons, Settled, true_or, true_and, SettledInOrder, hne, false_and, false_or, hc,
        pay_settled_iff hpay]
      exact ⟨fun hall st₂ h₂ => hsame st₂ h₂ ▸ hall, fun hall => hall st₁ hmake⟩

omit [DecidableEq A] in
theorem zero_or_covered_iff : t.amount = 0 ∨ t.Covered st ↔ t.amount ≤ st.balances (t.id, t.payer) := by
  constructor
  · rintro (h0 | hc)
    · bv_omega
    · exact hc.2
  · intro hle
    by_cases h0 : t.amount = 0
    · exact Or.inl h0
    · exact Or.inr ⟨h0, hle⟩

theorem settled_one_iff : SettledInOrder p st [t] ↔ t.amount ≤ st.balances (t.id, t.payer) := by
  simp only [SettledInOrder, and_true, implies_true]
  exact zero_or_covered_iff

theorem settled_cons_iff {st₁ : Assets A} (h : pay p st [t] = some (done, st₁)) :
    SettledInOrder p st (t :: ts) ↔ t.amount ≤ st.balances (t.id, t.payer) ∧ SettledInOrder p st₁ ts := by
  rcases pay_cons h with ⟨hc, done', hnil, _⟩ | ⟨hc, st₂, done', hmake, hnil, _⟩
  · rw [(pay_nil hnil).2, ← zero_or_covered_iff]
    simp only [SettledInOrder, hc, false_and, or_false]
  · have hle : t.amount ≤ st.balances (t.id, t.payer) := hc.2
    have hne : t.amount ≠ 0 := hc.1
    have hsame : ∀ st₃, t.make p st = some (.ok st₃) → st₃ = st₂ := by
      intro st₃ h₃
      rw [hmake] at h₃
      exact (Except.ok.inj (Option.some.inj h₃)).symm
    rw [(pay_nil hnil).2]
    simp only [SettledInOrder, hne, false_and, false_or, hc, true_and, hle]
    exact ⟨fun hall => hall st₂ hmake, fun hall st₃ h₃ => hsame st₃ h₃ ▸ hall⟩

theorem settled_of_all (h : pay .release st ts = some (done, st')) (hall : ∀ d ∈ done, d = true) :
    List.Forall₂ Settled ts done := by
  rw [pay_settled_iff h]
  have hcovered : ∀ {ts : List (Payment A)} {st : Assets A}, CoveredInOrder st ts → SettledInOrder .release st ts := by
    intro ts
    induction ts with
    | nil => exact fun _ => trivial
    | cons t ts ih => exact fun h => Or.inr ⟨h.1, fun st' hmake => ih (h.2 st' hmake)⟩
  exact hcovered ((pay_all_iff h).mp hall)

/-- **A payment takes its amount from its payer and gives it to its payee.** -/
theorem make_exact (hp : p.wraps = false) (h : t.make p st = some (.ok st')) (j : AssetId) (w : A) :
    st'.holdings j w + t.debit j w = st.holdings j w + t.credit j w := by
  have hc := (transfer_ok h).1
  unfold Payment.debit Payment.credit
  by_cases hj : t.id = j
  · subst hj
    rw [holdings_transfer h (credit_fits hp h)]
    simpa using Ledger.move_add hc.le w
  · rw [holdings_transfer_other h (Ne.symm hj)]
    simp [hj]

theorem pay_exact (hp : p.wraps = false) (j : AssetId) (w : A) :
    ∀ {ts : List (Payment A)} {st : Assets A} {done : List Bool}, pay p st ts = some (done, st') →
      List.Forall₂ Settled ts done → st'.holdings j w + debits ts j w = st.holdings j w + credits ts j w
  | [], st, done, h, _ => by
    rw [(pay_nil h).2]
    simp
  | t :: ts, st, done, h, hset => by
    rcases pay_cons h with ⟨hc, done', hpay, rfl⟩ | ⟨hc, st₁, done', hmake, hpay, rfl⟩
    · obtain ⟨hfirst, hrest⟩ := List.forall₂_cons.mp hset
      have hzero : t.amount = 0 := hfirst.resolve_left (by simp)
      rw [debits_cons, credits_cons, debit_of_zero hzero, credit_of_zero hzero, Nat.zero_add, Nat.zero_add]
      exact pay_exact hp j w hpay hrest
    · have hrest := pay_exact hp j w hpay (List.forall₂_cons.mp hset).2
      have hfirst := make_exact hp hmake j w
      rw [debits_cons, credits_cons]
      omega

/-- Whether they settle or not, payments take from an account at most what it was to pay. -/
theorem pay_le (hp : p.wraps = false) (j : AssetId) (w : A) :
    ∀ {ts : List (Payment A)} {st : Assets A} {done : List Bool}, pay p st ts = some (done, st') →
      st.holdings j w ≤ st'.holdings j w + debits ts j w
  | [], st, done, h => by
    rw [(pay_nil h).2]
    simp
  | t :: ts, st, done, h => by
    rw [debits_cons]
    rcases pay_cons h with ⟨hc, done', hpay, rfl⟩ | ⟨hc, st₁, done', hmake, hpay, rfl⟩
    · have hrest := pay_le hp j w hpay
      omega
    · have hrest := pay_le hp j w hpay
      have hfirst := make_exact hp hmake j w
      omega

/-- Each payment is within a ledger `f` from which only the payments before it are taken. -/
def Funded (f : AssetId → A → Nat) : List (Payment A) → Prop
  | [] => True
  | t :: ts => t.amount.toNat ≤ f t.id t.payer ∧ Funded (fun j w => f j w - t.debit j w) ts

theorem settled_of_funded (hp : p.wraps = false) :
    ∀ {ts : List (Payment A)} {st : Assets A} {f : AssetId → A → Nat}, (∀ j w, f j w ≤ st.holdings j w) →
      Funded f ts → SettledInOrder p st ts
  | [], _, _, _, _ => trivial
  | t :: ts, st, f, hf, hfund => by
    obtain ⟨hfirst, hrest⟩ := hfund
    by_cases hzero : t.amount = 0
    · refine Or.inl ⟨hzero, settled_of_funded hp (fun j w => ?_) hrest⟩
      exact (Nat.sub_le _ _).trans (hf j w)
    · refine Or.inr ⟨⟨hzero, BitVec.le_def.mpr (hfirst.trans (hf _ _))⟩, fun st' hmake => ?_⟩
      refine settled_of_funded hp (fun j w => ?_) hrest
      have hexact := make_exact hp hmake j w
      have hle := hf j w
      omega

/-- **Payments within what their payers hold add up.** -/
theorem pay_funded (hp : p.wraps = false) (h : pay p st ts = some (done, st')) (hfund : Funded st.holdings ts)
    (j : AssetId) (w : A) : st'.holdings j w + debits ts j w = st.holdings j w + credits ts j w := by
  refine pay_exact hp j w h ((pay_settled_iff h).mpr ?_)
  exact settled_of_funded hp (fun _ _ => le_rfl) hfund

theorem pay_frame (h : pay p st ts = some (done, st')) :
    ∃ balances, st' = { st with balances := balances } := (pay_moves h).frame

theorem pay_inherent (h : pay p st ts = some (done, st')) : st'.inherentAsset = st.inherentAsset := by
  obtain ⟨balances, rfl⟩ := pay_frame h
  rfl

variable [Fintype A]

omit [DecidableEq A] [Fintype A] in
theorem holdings_pos {j : AssetId} {w : A} (h : st.balances (j, w) ≠ 0) : 0 < st.holdings j w := by
  unfold holdings
  bv_omega

/-- Nobody holds all of a `u128` of an asset of which someone else holds some. -/
theorem not_covered_max {u e : A} {j : AssetId} (hst : Conserved st) (hue : u ≠ e) (he : 0 < st.holdings j e) :
    ¬ st.Covered u j (BitVec.allOnes 128) := by
  intro hc
  have hpair := hst.pair_lt j hue
  have hle := hc.le
  have hmax : (BitVec.allOnes 128).toNat = 2 ^ 128 - 1 := by simp
  omega

theorem pay_checked : ∀ {ts : List (Payment A)} {st : Assets A} {q : List Bool × Assets A}, Conserved st →
    pay .release st ts = some q → pay .checked st ts = some q
  | [], _, _, _, h => h
  | t :: ts, st, q, hst, h => by
    obtain ⟨r, hr, h⟩ := Option.bind_eq_some_iff.mp h
    have hchecked : t.make .checked st = some r :=
      (mono_transfer _ _ _ _ _).eq_of_isSome Profile.checked_le_release hr (transfer_checked hst _ _ _ _)
    refine Option.bind_eq_some_iff.mpr ⟨r, hchecked, ?_⟩
    cases r with
    | error e =>
      obtain ⟨q', hq', h⟩ := Option.bind_eq_some_iff.mp h
      exact Option.bind_eq_some_iff.mpr ⟨q', pay_checked hst hq', h⟩
    | ok st₁ =>
      obtain ⟨q', hq', h⟩ := Option.bind_eq_some_iff.mp h
      exact Option.bind_eq_some_iff.mpr ⟨q', pay_checked (transfer_conserved hst hr) hq', h⟩

end Pay

end Konomi.Swap
