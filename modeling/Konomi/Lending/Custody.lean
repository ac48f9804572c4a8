import Konomi.Lending.Accrual

/-!
# Custody

`Backed cfg s` : of every pool's asset the pallet account holds at least `supply - debt`. A call on a position moves
tokens and one total by the same amount (`Posting.backed`), and nobody else can take tokens from the pallet
(`others_backed`). An accrual that is stored credits the suppliers and charges the borrowers; the invariant needs what is
credited to be covered by what is charged and by what the pallet holds beyond `supply - debt` (`CreditCovered`). It is
while the grown supply is a product in the word (`Tame.creditCovered`). Past it the totals are rounded to the nearest,
and one unit may be credited that nobody was charged (`uncovered_credit`).
-/

namespace Konomi.Lending
open Machine Assets

variable {A : Type} [DecidableEq A] {cfg : Config A} {s s' : Chain A} {u : A} {a : AssetId} {pool q : Pool}

/-- Of every pool's asset the pallet holds at least what was supplied and not lent. -/
def Backed (cfg : Config A) (s : Chain A) : Prop :=
  ∀ a pool, s.lending.pools a = some pool →
    pool.supply.toNat ≤ pool.debt.toNat + s.assets.holdings a cfg.accountId

/-! ## Credits and charges -/

/-- What an accrual at block `n` credits to suppliers is at most what it charges to borrowers and `extra`. The rates are
those of the stored pool. -/
def CreditCovered (pool : Pool) (n : BlockNumber) (extra : Nat) : Prop :=
  ∀ supplyRate debtRate, supplyRateInternal .release pool = some supplyRate →
    debtRateInternal .release pool = some debtRate →
    interest pool.supply.toNat supplyRate.toNat (n.toNat - pool.lastUpdated.toNat) ≤
      interest pool.debt.toNat debtRate.toNat (n.toNat - pool.lastUpdated.toNat) + extra

/-- Without saturation it is a condition on the accrued totals. -/
theorem creditCovered_iff {now : BlockNumber} {extra : Nat} (h : accrueInterest .strict now pool = some q) :
    CreditCovered pool now extra ↔ q.supply.toNat + pool.debt.toNat ≤ pool.supply.toNat + q.debt.toNat + extra := by
  by_cases hlast : pool.lastUpdated = now
  · rw [accrueInterest_self hlast] at h
    cases h
    refine iff_of_true (fun supplyRate debtRate _ _ => ?_) (by omega)
    rw [hlast, Nat.sub_self, interest_zero_blocks, interest_zero_blocks]
    exact Nat.zero_le _
  · obtain ⟨supplyRate, debtRate, hsr, hdr, _, hsupply, hdebt⟩ := accrued_totals hlast h
    have hsr := mono_supplyRateInternal pool Profile.strict_le_release hsr
    have hdr := mono_debtRateInternal pool Profile.strict_le_release hdr
    constructor
    · intro hcovered
      have hle := hcovered _ _ hsr hdr
      omega
    · intro hle supplyRate' debtRate' hsr' hdr'
      cases hsr.symm.trans hsr'
      cases hdr.symm.trans hdr'
      omega

/-- What is credited in a block is no more than what is charged, before the totals are rounded, while both rates are
products in the word. -/
theorem supplyRate_mul_le {supplyRate debtRate : FixedU128} (hdebt : pool.debt.toNat ≤ pool.supply.toNat)
    (hword : pool.debt.toNat * accuracy < 2 ^ 128) (hrate : debtRate.toNat * accuracy < 2 ^ 128)
    (hsr : supplyRateInternal .release pool = some supplyRate) (hdr : debtRateInternal .release pool = some debtRate) :
    pool.supply.toNat * supplyRate.toNat ≤ pool.debt.toNat * debtRate.toNat := by
  unfold supplyRateInternal at hsr
  split at hsr
  · rename_i hzero
    rw [hzero]
    simp
  · obtain ⟨ratio, hratio, hsr⟩ := Option.bind_eq_some_iff.mp hsr
    obtain ⟨rate, hrate', hsr⟩ := Option.bind_eq_some_iff.mp hsr
    cases hrate'.symm.trans hdr
    have hratio_le := ratio_le_one hdebt hratio
    obtain ⟨hne, hratio⟩ := Fixed.toNat_fromRational hratio
    have hratio_mul : ratio.toNat * pool.supply.toNat ≤ pool.debt.toNat * accuracy := by
      refine (Nat.mul_le_mul_right _ (hratio.trans_le (min_le_left _ _))).trans ?_
      rw [rounded_of_lt hword]
      exact Nat.div_mul_le_self _ _
    have hrate_mul : accuracy * supplyRate.toNat ≤ debtRate.toNat * ratio.toNat := by
      rw [Fixed.toNat_mul hsr, rounded_of_lt ((Nat.mul_le_mul_left _ hratio_le).trans_lt hrate)]
      exact Nat.mul_div_le _ _
    refine Nat.le_of_mul_le_mul_left (?_ : accuracy * _ ≤ accuracy * _) accuracy_pos
    calc accuracy * (pool.supply.toNat * supplyRate.toNat) = accuracy * supplyRate.toNat * pool.supply.toNat := by ring
      _ ≤ debtRate.toNat * ratio.toNat * pool.supply.toNat := Nat.mul_le_mul_right _ hrate_mul
      _ = debtRate.toNat * (ratio.toNat * pool.supply.toNat) := by ring
      _ ≤ debtRate.toNat * (pool.debt.toNat * accuracy) := Nat.mul_le_mul_left _ hratio_mul
      _ = accuracy * (pool.debt.toNat * debtRate.toNat) := by ring

/-- **Suppliers are credited no more than borrowers are charged while the grown supply is a product in the word.** -/
theorem creditCovered_of_word {n : BlockNumber} (hdebt : pool.debt.toNat ≤ pool.supply.toNat)
    (hrate : ∀ rate, debtRateInternal .release pool = some rate → rate.toNat * accuracy < 2 ^ 128)
    (hfits : ∀ rate, supplyRateInternal .release pool = some rate →
      (accuracy + rate.toNat * (n.toNat - pool.lastUpdated.toNat)) * pool.supply.toNat < 2 ^ 128) :
    CreditCovered pool n 0 := by
  intro supplyRate debtRate hsr hdr
  have hfit := hfits supplyRate hsr
  have hword : pool.debt.toNat * accuracy < 2 ^ 128 := by
    refine lt_of_le_of_lt ?_ hfit
    rw [Nat.mul_comm]
    exact Nat.mul_le_mul (Nat.le_add_right _ _) hdebt
  rw [interest_of_fits hfit, Nat.add_zero]
  refine le_trans (Nat.div_le_div_right (Nat.mul_le_mul_right _ ?_)) (Nat.le_add_right _ _)
  exact supplyRate_mul_le hdebt hword (hrate debtRate hdr) hsr hdr

theorem Tame.creditCovered {n : BlockNumber} (h : Tame pool)
    (hfits : ∀ rate, supplyRateInternal .release pool = some rate →
      (accuracy + rate.toNat * (n.toNat - pool.lastUpdated.toNat)) * pool.supply.toNat < 2 ^ 128) :
    CreditCovered pool n 0 := by
  refine creditCovered_of_word h.debt_le (fun rate hrate => ?_) hfits
  exact (Nat.mul_le_mul_right accuracy (h.debtRate hrate).2).trans_lt (by decide)

/-- What the pallet holds of an asset beyond the cash of its pool. -/
def surplus (cfg : Config A) (s : Chain A) (a : AssetId) (pool : Pool) : Nat :=
  pool.debt.toNat + s.assets.holdings a cfg.accountId - pool.supply.toNat

/-- The accrual that a call on a position stores is covered. -/
def Funded (cfg : Config A) (s : Chain A) (u : A) (call : Call A) : Prop :=
  ∀ r : Ready cfg s u call, CreditCovered r.pool s.blockNumber (surplus cfg s r.a r.pool)

theorem Posting.holdings {side : Side} {positive : Bool} {x : Balance}
    (d : Posting cfg .strict s u side positive a x) (hu : u ≠ cfg.accountId) :
    (d.assets.holdings a cfg.accountId : Int) = s.assets.holdings a cfg.accountId +
      if inflow side positive then (d.amount.toNat : Int) else -d.amount.toNat := by
  have hpays := d.pays
  have hledger := holdings_transfer hpays (credit_fits rfl hpays)
  have hcovered : d.amount.toNat ≤ s.assets.holdings a (payer cfg u side positive) := BitVec.le_def.mp d.covered.2
  rw [hledger]
  unfold payer at hcovered ⊢
  unfold payee
  by_cases hin : inflow side positive = true
  · simp only [if_pos hin]
    rw [Ledger.move_payee hu.symm]
    omega
  · simp only [if_neg hin] at hcovered ⊢
    rw [Ledger.move_payer hu.symm]
    omega

theorem Posting.accrued_growth {call : Call A} {side : Side} {positive : Bool} {x : Balance}
    (entry : call.entry = some (side, positive, a, x)) (d : Posting cfg .strict s u side positive a x)
    (hfunded : Funded cfg s u call) :
    d.accrued.supply.toNat + d.pool.debt.toNat ≤
      d.pool.supply.toNat + d.accrued.debt.toNat + surplus cfg s a d.pool := by
  have hcovered : s.assets.Covered (payer cfg u side positive) a (transferred positive d.value x) := by
    rw [← d.amount_eq]
    exact d.covered
  refine (creditCovered_iff d.accrues).mp (hfunded ⟨side, positive, a, x, d.pool, d.accrued, d.value, entry, d.stored,
    ?_, ?_, hcovered⟩)
  · exact mono_accrueInterest _ _ Profile.strict_le_release d.accrues
  · exact mono_valueAt _ _ Profile.strict_le_release d.value_eq

/-- A call on a position moves the pallet's tokens and one total of the pool by the same amount. -/
theorem Posting.backed {call : Call A} {side : Side} {positive : Bool} {x : Balance}
    (entry : call.entry = some (side, positive, a, x)) (d : Posting cfg .strict s u side positive a x)
    (hfunded : Funded cfg s u call) (hu : u ≠ cfg.accountId) (h : Backed cfg s) : Backed cfg d.result := by
  intro b pool hpool
  rw [d.result_pools] at hpool
  show pool.supply.toNat ≤ pool.debt.toNat + d.assets.holdings b cfg.accountId
  by_cases hb : b = a
  · subst hb
    rw [Function.update_self] at hpool
    cases hpool
    have hbefore := h b d.pool d.stored
    have hgrowth := d.accrued_growth entry hfunded
    unfold surplus at hgrowth
    have hheld := d.holdings hu
    have htotal := toNat_adjust rfl d.total'_eq
    cases side with
    | supply =>
      change (d.total'.toNat : Int) = d.accrued.supply.toNat + _ at htotal
      show d.total'.toNat ≤ d.accrued.debt.toNat + _
      cases positive <;> simp only [inflow, Bool.false_eq_true, if_true, if_false] at hheld htotal <;> omega
    | debt =>
      change (d.total'.toNat : Int) = d.accrued.debt.toNat + _ at htotal
      show d.accrued.supply.toNat ≤ d.total'.toNat + _
      cases positive <;>
        simp only [inflow, Bool.not_true, Bool.not_false, Bool.false_eq_true, if_true, if_false] at hheld htotal <;>
        omega
  · rw [Function.update_of_ne hb] at hpool
    rw [holdings_transfer_other d.pays hb]
    exact h b pool hpool

/-! ## Runs -/

/-- The actions of the custody argument: everything but liquidations, not signed by the pallet. -/
def Custodial (cfg : Config A) : Action A → Prop
  | .advance _ => True
  | .call _ (.lending (.liquidate _ _ _ _)) => False
  | .call origin _ => origin ≠ .signed cfg.accountId

instance (cfg : Config A) : DecidablePred (Custodial cfg)
  | .advance _ => isTrue trivial
  | .call _ (.lending (.liquidate _ _ _ _)) => isFalse id
  | .call _ (.lending (.supply _ _)) => inferInstanceAs (Decidable (_ ≠ _))
  | .call _ (.lending (.withdraw _ _)) => inferInstanceAs (Decidable (_ ≠ _))
  | .call _ (.lending (.borrow _ _)) => inferInstanceAs (Decidable (_ ≠ _))
  | .call _ (.lending (.repay _ _)) => inferInstanceAs (Decidable (_ ≠ _))
  | .call _ (.lending (.initPool _ _)) => inferInstanceAs (Decidable (_ ≠ _))
  | .call _ (.assets _) => inferInstanceAs (Decidable (_ ≠ _))
  | .call _ (.swap _) => inferInstanceAs (Decidable (_ ≠ _))

/-- A custodial action in which no operation wraps or saturates. -/
def CustodyStep (cfg : Config A) (s : Chain A) (l : Action A) : Prop :=
  Custodial cfg l ∧ (step cfg .strict s l).isSome

instance (cfg : Config A) (s : Chain A) (l : Action A) : Decidable (CustodyStep cfg s l) :=
  inferInstanceAs (Decidable (_ ∧ _))

/-- Such an action whose credit is covered. -/
def FundedStep (cfg : Config A) (s : Chain A) (l : Action A) : Prop :=
  CustodyStep cfg s l ∧ match l with
    | .call (.signed u) (.lending call) => Funded cfg s u call
    | _ => True

theorem genesis_backed {g : Genesis A} (h : genesis .release g = some s) : Backed cfg s := by
  intro a pool hpool
  rw [(genesis_lending h).2.2.2 a pool hpool]
  exact Nat.zero_le _

theorem others_backed {origin : Origin A} {call : Konomi.Call A} {r : Except DispatchError Unit}
    (hexchange : ∀ i j, cfg.makeExchangeAddress i j ≠ cfg.accountId) (horigin : origin ≠ .signed cfg.accountId)
    (hcall : ∀ c, call ≠ .lending c) (h : Konomi.dispatch cfg .strict s origin call = some (r, s'))
    (hlending : s'.lending = s.lending) (hb : Backed cfg s) : Backed cfg s' := by
  have hheld : ∀ id, s.assets.holdings id cfg.accountId ≤ s'.assets.holdings id cfg.accountId := by
    cases call with
    | assets c => exact fun id => dispatch_holdings_le (fun hm hu => hm.holdings_le rfl hu id) h horigin
    | swap c =>
      refine fun id => (Swap.swap_moves h).1.holdings_le rfl ?_ id
      rintro (hsigned | ⟨i, j, hij⟩)
      · exact horigin hsigned
      · exact hexchange i j hij.symm
    | lending c => exact absurd rfl (hcall c)
  intro a pool hpool
  rw [hlending] at hpool
  have := hb a pool hpool
  have := hheld a
  omega

theorem step_backed {l : Action A} (hexchange : ∀ i j, cfg.makeExchangeAddress i j ≠ cfg.accountId)
    (hb : Backed cfg s) (hok : FundedStep cfg s l) (h : step cfg .strict s l = some s') : Backed cfg s' := by
  obtain ⟨⟨hl, _⟩, hfunded⟩ := hok
  rcases step_cases h with ⟨block, rfl, _, rfl⟩ | ⟨origin, c, r, rfl, hd⟩ | ⟨origin, c, r, rfl, hc, hd, hlending, _⟩
  · exact hb
  · rcases dispatch_cases hd with ⟨u, rfl, hstep⟩ | ⟨_, rfl⟩ | ⟨id, can, rfl, _, rfl⟩
    · cases hstep with
      | refused => exact hb
      | touched side e entry stored accrues book =>
        intro a pool hpool
        rw [pools_setBook] at hpool
        exact hb a pool hpool
      | posted side positive entry d =>
        have hu : u ≠ cfg.accountId := by
          rintro rfl
          cases c with
          | liquidate t payId getId x => exact hl
          | _ => exact hl rfl
        exact d.backed entry hfunded hu hb
      | assessed => exact hl.elim
      | halfway => exact hl.elim
      | settled => exact hl.elim
    · exact hb
    · intro a pool hpool
      rcases stored_cases hpool with ⟨rfl, hnew⟩ | ⟨_, hold⟩
      · cases hnew
        exact Nat.zero_le _
      · exact hb a pool hold
  · have horigin : origin ≠ .signed cfg.accountId := by
      cases c with
      | lending c => exact absurd rfl (hc c)
      | _ => exact hl
    exact others_backed hexchange horigin hc hd hlending hb

end Konomi.Lending
