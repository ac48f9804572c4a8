import Konomi.Lending.RoundTrip
import Konomi.Lending.Withdrawals

/-!
# Leaving the market

An account that holds what it owes can pay every one of its debts in one block, asset by asset (`debts_exit`). Each
repayment is clamped to the accrued debt, so it is made in full, removes the record and takes the asset off the list;
the debts in other assets are what they were. An account without debts is not liquidated.
-/

namespace Konomi.Lending
open Machine Assets

variable {A : Type} [DecidableEq A] {cfg : Config A} {s s' : Chain A} {u : A} {a b : AssetId} {owed : Balance}

/-- A repayment of all that `u` owes of `a`. -/
def repayAll (u : A) (a : AssetId) : Action A := .call (.signed u) (.lending (.repay a (BitVec.allOnes 128)))

/-- `u` owes some of `a`, and holds it. -/
structure Payable (s : Chain A) (u : A) (a : AssetId) (owed : Balance) : Prop where
  accrues : ∃ pool q, AccruesTo s a pool q
  view_eq : getUserDebtWithInterest .release s a u = some owed
  ne_zero : owed ≠ 0
  held : owed ≤ s.assets.balances (a, u)

/-- What the repayments of the assets in `l` leave. -/
structure Repaid (u : A) (l : List AssetId) (s t : Chain A) : Prop where
  list : t.lending.debts.assets u = (s.lending.debts.assets u).filter (· ∉ l)
  gone : ∀ a ∈ l, t.lending.debts.records (a, u) = none
  kept : ∀ a, a ∉ l → t.lending.debts.records (a, u) = s.lending.debts.records (a, u)
  paid : ∀ a ∈ l, ∀ owed, getUserDebtWithInterest .release s a u = some owed →
    t.assets.balances (a, u) = s.assets.balances (a, u) - owed
  unpaid : ∀ a, a ∉ l → t.assets.balances (a, u) = s.assets.balances (a, u)

omit [DecidableEq A] in
theorem Repaid.nil (u : A) (s : Chain A) : Repaid u [] s s where
  list := (List.filter_eq_self.mpr fun _ _ => by simp).symm
  gone := fun _ h => by cases h
  kept := fun _ _ => rfl
  paid := fun _ h => by cases h
  unpaid := fun _ _ => rfl

theorem transferred_all (owed : Balance) : transferred false owed (BitVec.allOnes 128) = owed := by
  unfold transferred
  rw [if_neg Bool.false_ne_true]
  split
  · rfl
  · rename_i hge
    refine BitVec.eq_of_toNat_eq ?_
    rw [BitVec.lt_def, BitVec.toNat_allOnes] at hge
    rw [BitVec.toNat_allOnes]
    have hfits : owed.toNat < 2 ^ 128 := owed.isLt
    omega

theorem Payable.posting (h : Payable s u a owed) :
    ∃ d : Posting cfg .release s u .debt false a (BitVec.allOnes 128), d.amount = owed ∧ d.value' = 0 := by
  obtain ⟨pool, q, hacc⟩ := h.accrues
  have hvalue : valueAt .release (q.index .debt) ((s.lending.book .debt).records (a, u)) = some owed :=
    view_value hacc.stored hacc.accrues h.view_eq
  obtain ⟨st, hst⟩ := transfer_of_covered (b := cfg.accountId) ⟨h.ne_zero, h.held⟩
  exact ⟨{
    pool := pool
    accrued := q
    value := owed
    amount := owed
    value' := 0
    total' := q.total .debt - owed
    assets := st
    stored := hacc.stored
    accrues := hacc.accrues
    value_eq := hvalue
    amount_eq := (transferred_all owed).symm
    pays := hst
    value'_eq := sub_release.trans (congrArg some (BitVec.sub_self owed))
    total'_eq := sub_release
    checks := fun h => by cases h }, rfl, rfl⟩

namespace Posting
variable {x : Balance} (d : Posting cfg .release s u .debt false a x)
include d

theorem cleared (hzero : d.value' = 0) : d.result.lending.debts.records (a, u) = none ∧
    d.result.lending.debts.assets u = (s.lending.debts.assets u).filter (· ≠ a) := by
  have hbook : d.result.lending.debts = s.lending.debts.put (d.accrued.index .debt) a u d.value' := d.result_book .debt
  rw [hbook, hzero]
  exact ⟨Function.update_self .., Function.update_self ..⟩

theorem debt_other (hb : b ≠ a) :
    getUserDebtWithInterest .release d.result b u = getUserDebtWithInterest .release s b u := by
  have hpool : d.result.lending.pools b = s.lending.pools b := by rw [d.result_pools, Function.update_of_ne hb]
  have hrec : (d.result.lending.book .debt).records (b, u) = (s.lending.book .debt).records (b, u) :=
    d.records_other fun hsame => hb hsame.1
  exact view_congr s d.result rfl hpool hrec

theorem balance_other (hb : b ≠ a) : d.result.assets.balances (b, u) = s.assets.balances (b, u) :=
  transfer_other d.pays (fun he => hb (Prod.mk.inj he).1) fun he => hb (Prod.mk.inj he).1

theorem payable_other (hb : b ≠ a) (h : Payable s u b owed) : Payable d.result u b owed := by
  have hpool : d.result.lending.pools b = s.lending.pools b := by rw [d.result_pools, Function.update_of_ne hb]
  obtain ⟨pool, q, hacc⟩ := h.accrues
  refine ⟨⟨pool, q, hpool.trans hacc.stored, hacc.accrues⟩, (d.debt_other hb).trans h.view_eq, h.ne_zero, ?_⟩
  rw [d.balance_other hb]
  exact h.held

end Posting

theorem Repaid.cons {t : Chain A} {l : List AssetId} (ha : a ∉ l) (hu : u ≠ cfg.accountId)
    (d : Posting cfg .release s u .debt false a (BitVec.allOnes 128)) (hzero : d.value' = 0)
    (hview : getUserDebtWithInterest .release s a u = some d.amount) (h : Repaid u l d.result t) :
    Repaid u (a :: l) s t where
  list := by
    rw [h.list, (d.cleared hzero).2, List.filter_filter]
    refine List.filter_congr fun b _ => ?_
    simp [not_or, Bool.and_comm]
  gone := by
    intro b hb
    rcases List.mem_cons.mp hb with rfl | hb
    · rw [h.kept b ha]
      exact (d.cleared hzero).1
    · exact h.gone b hb
  kept := by
    intro b hb
    obtain ⟨hba, hbl⟩ := not_or.mp (mt List.mem_cons.mpr hb)
    have hother : (d.result.lending.book .debt).records (b, u) = (s.lending.book .debt).records (b, u) :=
      d.records_other fun hsame => hba hsame.1
    exact (h.kept b hbl).trans hother
  paid := by
    intro b hb owed hb'
    rcases List.mem_cons.mp hb with rfl | hbl
    · cases hview.symm.trans hb'
      rw [h.unpaid b ha]
      exact payer_after d.pays hu
    · have hba : b ≠ a := fun he => ha (he ▸ hbl)
      rw [h.paid b hbl owed ((d.debt_other hba).trans hb'), d.balance_other hba]
  unpaid := by
    intro b hb
    obtain ⟨hba, hbl⟩ := not_or.mp (mt List.mem_cons.mpr hb)
    rw [h.unpaid b hbl, d.balance_other hba]

/-- Debts in different assets are repaid one after the other. -/
theorem repay_list (hu : u ≠ cfg.accountId) {l : List AssetId} (hl : l.Nodup) :
    ∀ {s : Chain A}, (∀ a ∈ l, ∃ owed, Payable s u a owed) →
      ∃ t, exec (step cfg .release) s (l.map (repayAll u)) = some t ∧ Repaid u l s t := by
  induction l with
  | nil => exact fun _ => ⟨_, rfl, Repaid.nil u _⟩
  | cons a l ih =>
    intro s h
    obtain ⟨ha, hl⟩ := List.nodup_cons.mp hl
    obtain ⟨owed, hpayable⟩ := h a List.mem_cons_self
    obtain ⟨d, rfl, hzero⟩ : ∃ d : Posting cfg .release s u .debt false a (BitVec.allOnes 128),
      d.amount = owed ∧ d.value' = 0 := hpayable.posting
    have hrest : ∀ b ∈ l, ∃ owed, Payable d.result u b owed := by
      intro b hb
      obtain ⟨owed, hb'⟩ := h b (List.mem_cons_of_mem a hb)
      exact ⟨owed, d.payable_other (fun he => ha (he ▸ hb)) hb'⟩
    obtain ⟨t, ht, hrepaid⟩ := ih hl hrest
    have hstep : step cfg .release s (repayAll u a) = some d.result :=
      Option.map_eq_some_iff.mpr ⟨_, d.repay_eq, rfl⟩
    exact ⟨t, Option.bind_eq_some_iff.mpr ⟨_, hstep, ht⟩, hrepaid.cons ha hu d hzero hpayable.view_eq⟩

omit [DecidableEq A] in
theorem view_unlisted {side : Side} (hrec : (s.lending.book side).records (a, u) = none)
    (h : view .release s a u side = some owed) : owed = 0 := by
  rw [view_eq, hrec] at h
  split at h
  · obtain ⟨I, _, h⟩ := Option.bind_eq_some_iff.mp h
    exact (Option.some.inj h).symm
  · exact (Option.some.inj h).symm

omit [DecidableEq A] in
theorem healthy_of_no_debts (h : s.lending.debts.assets u = []) : Healthy s u := by
  intro info required hinfo hrequired
  rw [converted_debt_zero h hinfo, mulInt_release, worth_zero] at hrequired
  cases hrequired
  exact BitVec.le_def.mpr (Nat.zero_le _)

/-- **A solvent borrower can leave the market.** If an account has pools and tokens for all it owes, and no debt on its
list is worth nothing, then repaying its assets in any order, within the block, ends every debt: no record and no asset
is left on the list, each balance is lower by the debt the view showed before, and the account is not liquidated. -/
theorem debts_exit {l : List AssetId} (hs : Reached cfg (fun _ _ => True) s) (hu : u ≠ cfg.accountId)
    (hl : l.Perm (s.lending.debts.assets u)) (howed : ∀ a ∈ s.lending.debts.assets u, ∃ owed, Payable s u a owed) :
    ∃ t, exec (step cfg .release) s (l.map (repayAll u)) = some t ∧ t.lending.debts.assets u = [] ∧
      (∀ a, t.lending.debts.records (a, u) = none) ∧
      (∀ a owed, getUserDebtWithInterest .release s a u = some owed →
        t.assets.balances (a, u) = s.assets.balances (a, u) - owed) ∧ NotLiquidatable cfg t u := by
  have hlisted : s.lending.debts.Listed := reached_listed hs .debt
  obtain ⟨t, ht, hrepaid⟩ : ∃ t, exec (step cfg .release) s (l.map (repayAll u)) = some t ∧ Repaid u l s t :=
    repay_list hu (hl.nodup_iff.mpr (hlisted.nodup u)) fun a ha => howed a (hl.mem_iff.mp ha)
  have hlist : t.lending.debts.assets u = [] := by
    rw [hrepaid.list]
    refine List.filter_eq_nil_iff.mpr fun a ha => ?_
    simp [hl.mem_iff.mpr ha]
  have hnone : ∀ a ∉ l, s.lending.debts.records (a, u) = none := by
    intro a ha
    by_contra hsome
    exact ha (hl.mem_iff.mpr (hlisted.listed u a (Option.isSome_iff_ne_none.mpr hsome)))
  refine ⟨t, ht, hlist, fun a => ?_, fun a owed hview => ?_, (healthy_of_no_debts hlist).notLiquidatable⟩
  · by_cases ha : a ∈ l
    · exact hrepaid.gone a ha
    · exact (hrepaid.kept a ha).trans (hnone a ha)
  · by_cases ha : a ∈ l
    · exact hrepaid.paid a ha owed hview
    · have hzero : owed = 0 := view_unlisted (show (s.lending.book .debt).records (a, u) = none from hnone a ha) hview
      rw [hrepaid.unpaid a ha, hzero]
      exact (BitVec.sub_zero _).symm

/-- User `2` owes some of both assets for four million blocks, and repays them in the order `1`, `0`. -/
theorem debts_exit_mock : ∃ s t owed, Reached mockConfig (fun _ _ => True) s ∧ s.lending.debts.assets 2 = [0, 1] ∧
    getUserDebtWithInterest .release s 0 2 = some owed ∧ (10000 : Balance) < owed ∧
    exec (step mockConfig .release) s [repayAll 2 1, repayAll 2 0] = some t ∧ t.lending.debts.assets 2 = [] ∧
    t.assets.balances (0, 2) = s.assets.balances (0, 2) - owed ∧ NotLiquidatable mockConfig t 2 := by
  have hplay : ∃ s₀ s pool₀ q₀ pool₁ q₁ owed₀ owed₁, genesis .release mockGenesis = some s₀ ∧
      exec (guarded (step mockConfig .release) (fun _ _ => True)) s₀
        [.advance 1, .call (.signed 1) (.lending (.supply 0 100000)), .call (.signed 2) (.lending (.supply 1 100000)),
          .call (.signed 2) (.lending (.borrow 0 10000)), .call (.signed 2) (.lending (.borrow 1 1000)),
          .advance 4000001] = some s ∧
      s.lending.debts.assets 2 = [0, 1] ∧ s.lending.pools 0 = some pool₀ ∧
      accrueInterest .release s.blockNumber pool₀ = some q₀ ∧ s.lending.pools 1 = some pool₁ ∧
      accrueInterest .release s.blockNumber pool₁ = some q₁ ∧
      getUserDebtWithInterest .release s 0 2 = some owed₀ ∧ getUserDebtWithInterest .release s 1 2 = some owed₁ ∧
      ((10000 : Balance) < owed₀ ∧ owed₀ ≤ s.assets.balances (0, 2)) ∧
      owed₁ ≠ 0 ∧ owed₁ ≤ s.assets.balances (1, 2) :=
    ⟨_, _, _, _, _, _, _, _, rfl, rfl, rfl, rfl, rfl, rfl, rfl, rfl, rfl, by decide, by decide, by decide⟩
  obtain ⟨s₀, s, pool₀, q₀, pool₁, q₁, owed₀, owed₁, hs₀, hs, hlist, hpool₀, hq₀, hpool₁, hq₁, hview₀, hview₁,
    ⟨hgrown, hheld₀⟩, hne₁, hheld₁⟩ := hplay
  have hreached : Reached mockConfig (fun _ _ => True) s := ⟨mockGenesis, s₀, hs₀, run_of_exec hs⟩
  have hpayable : ∀ a ∈ s.lending.debts.assets 2, ∃ owed, Payable s 2 a owed := by
    rw [hlist]
    intro a ha
    rcases List.mem_pair.mp ha with rfl | rfl
    · have hne₀ : owed₀ ≠ 0 := Book.ne_zero_of_toNat (by decide : (1 : Balance) ≠ 0) (le_trans (by decide) hgrown.le)
      exact ⟨owed₀, ⟨pool₀, q₀, hpool₀, hq₀⟩, hview₀, hne₀, hheld₀⟩
    · exact ⟨owed₁, ⟨pool₁, q₁, hpool₁, hq₁⟩, hview₁, hne₁, hheld₁⟩
  obtain ⟨t, ht, hcleared, _, hpaid, hhealthy⟩ := debts_exit (l := [1, 0]) hreached (by decide : (2 : Fin 4) ≠ 0)
    (by rw [hlist]; exact List.Perm.swap 0 1 []) hpayable
  exact ⟨s, t, owed₀, hreached, hlist, hview₀, hgrown, ht, hcleared, hpaid 0 owed₀ hview₀, hhealthy⟩

end Konomi.Lending
