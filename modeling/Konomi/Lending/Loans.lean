import Konomi.Lending.Refusals

/-!
# Which loans and withdrawals are refused

`loan_refused_iff` says of every loan whether it is refused. It is valued by itself, in whole units of account as
`saturating_mul_int` computes them, and added to the debt by a plain sum. So a loan that is worth nothing in whole units
needs no collateral (`uncollateralised_refused_iff`), and one that takes the sum past `2 ^ 128` is granted to an account
that can be liquidated (`frozen_iff`). A withdrawal is never granted to such an account: what is subtracted from the
converted supply is part of it (`withdrawn_le`).
-/

namespace Konomi.Lending
open Machine Assets

variable {A : Type} [DecidableEq A] {cfg : Config A} {s s' : Chain A} {u : A} {a : AssetId} {x : Balance}
  {info : Balance × Balance × Balance} {r : Except DispatchError Unit} {pool q : Pool}

/-- The pool has the cash for a loan and the pallet the tokens. -/
def Lendable (cfg : Config A) (s : Chain A) (a : AssetId) (x : Balance) : Prop :=
  ∃ pool q, AccruesTo s a pool q ∧ x ≤ q.supply - q.debt ∧ s.assets.Covered cfg.accountId a x

theorem Posting.loan_passed (d : Posting cfg .release s u .debt true a x)
    (hinfo : getUserInfo .release s u = some info) :
    Lendable cfg s a x ∧
      worth s.lending.liquidationThreshold (info.2.2 + worth (s.assets.getRate a) x) ≤ info.2.1 := by
  obtain ⟨touched, cash, hbook, hcash, hliquid, info₁, value, owed, required, hinfo₁, hvalue, howed, hrequired,
    hpassed⟩ := d.checks rfl
  have hamount : d.amount = x := d.amount_eq
  let t : Touch s u .debt a := ⟨d.pool, d.accrued, touched, d.stored, d.accrues, hbook⟩
  cases hinfo.symm.trans (t.getUserInfo_eq hinfo₁)
  rw [hamount] at hvalue hliquid
  have hcovered := d.covered
  rw [hamount] at hcovered
  refine ⟨⟨d.pool, d.accrued, ⟨d.stored, d.accrues⟩, ?_, hcovered⟩, ?_⟩
  · rw [← sub_eq hcash]
    exact BitVec.not_lt.mp hliquid
  · rw [mulInt_release] at hvalue hrequired
    rw [Option.some.inj hvalue, ← add_eq howed]
    exact BitVec.not_lt.mp (Option.some.inj hrequired ▸ hpassed)

/-- **Every loan that returns is refused or granted by the same three checks.** -/
theorem loan_refused_iff (hinfo : getUserInfo .release s u = some info)
    (h : dispatch cfg .release s (.signed u) (.borrow a x) = some (r, s')) :
    (∃ e, r = .error e) ↔ (Lendable cfg s a x →
      info.2.1 < worth s.lending.liquidationThreshold (info.2.2 + worth (s.assets.getRate a) x)) := by
  constructor
  · rintro ⟨e, rfl⟩ ⟨pool, q, hacc, hcash, hcovered⟩
    cases refusal_of_error rfl h with
    | noPool entry missing =>
      cases entry
      rw [hacc.stored] at missing
      cases missing
    | illiquid acc cash =>
      cases acc.stored.symm.trans hacc.stored
      cases acc.accrues.symm.trans hacc.accrues
      exact absurd hcash (BitVec.not_le.mpr cash)
    | loan t cash info_eq fails =>
      cases hinfo.symm.trans (t.getUserInfo_eq info_eq)
      rcases fails with ⟨_, hbelow⟩ | ⟨_, huncovered⟩
      · exact hbelow
      · exact absurd hcovered huncovered
  · intro hbelow
    cases r with
    | error e => exact ⟨e, rfl⟩
    | ok =>
      obtain ⟨d, _⟩ := dispatch_posted h rfl
      obtain ⟨hlendable, hpassed⟩ := d.loan_passed hinfo
      exact absurd hpassed (BitVec.not_le.mpr (hbelow hlendable))

/-! ## Loans without collateral -/

/-- **Which loans an account without supplies is refused.** In every reachable state, a loan of an account whose
converted supply is zero returns `Err` exactly when the loan and the debts of the account are worth something, each as
`saturating_mul_int` computes it, or the pool or the pallet cannot pay it out. -/
theorem uncollateralised_refused_iff (hs : Reached cfg (fun _ _ => True) s)
    (hinfo : getUserInfo .release s u = some info) (hzero : info.2.1 = 0)
    (h : dispatch cfg .release s (.signed u) (.borrow a x) = some (r, s')) :
    (∃ e, r = .error e) ↔ (Lendable cfg s a x → info.2.2 + worth (s.assets.getRate a) x ≠ 0) := by
  rw [loan_refused_iff hinfo h, reached_threshold hs, worth_one, hzero]
  refine imp_congr_right fun _ => ?_
  constructor
  · intro hpos h0
    rw [h0] at hpos
    exact absurd hpos (by decide)
  · intro hne
    bv_omega

/-- User `2` has supplied nothing and asks for 10 of asset `0` at the price 2. -/
theorem uncollateralised_refused_mock : ∃ s r s', Reached mockConfig (fun _ _ => True) s ∧
    getUserInfo .release s 2 = some (0, 0, 0) ∧
    dispatch mockConfig .release s (.signed 2) (.borrow 0 10) = some (r, s') ∧ ∃ e, r = .error e := by
  obtain ⟨s₀, s, r, s', hs₀, hs, hinfo, hprice, hd⟩ : ∃ s₀ s r s', genesis .release mockGenesis = some s₀ ∧
      exec (guarded (step mockConfig .release) (fun _ _ => True)) s₀
        [.call (.signed 1) (.lending (.supply 0 100000)),
          .call .root (.assets (.setPrice 0 ⟨2000000000000000000⟩))] = some s ∧
      getUserInfo .release s 2 = some (0, 0, 0) ∧ s.assets.getRate 0 = ⟨2000000000000000000⟩ ∧
      dispatch mockConfig .release s (.signed 2) (.borrow 0 10) = some (r, s') :=
    ⟨_, _, _, _, rfl, rfl, rfl, rfl, rfl⟩
  have hreached : Reached mockConfig (fun _ _ => True) s := ⟨mockGenesis, s₀, hs₀, run_of_exec hs⟩
  refine ⟨s, r, s', hreached, hinfo, hd, (uncollateralised_refused_iff hreached hinfo rfl hd).mpr fun _ => ?_⟩
  rw [hprice]
  decide

/-- At the price 1/2 one unit of asset `0` is worth nothing, and user `2` borrows it without any supply. -/
theorem loan_without_collateral : ∃ s s', play mockConfig .release mockGenesis
      [.call (.signed 1) (.lending (.supply 0 100000)),
        .call .root (.assets (.setPrice 0 ⟨500000000000000000⟩))] = some s ∧
    s.assets.getRate 0 = ⟨500000000000000000⟩ ∧ s.lending.supplies.assets 2 = [] ∧
    getUserInfo .release s 2 = some (0, 0, 0) ∧
    dispatch mockConfig .release s (.signed 2) (.borrow 0 1) = some (.ok (), s') :=
  ⟨_, _, rfl, rfl, rfl, rfl, rfl⟩

/-! ## Accounts that can be liquidated -/

/-- What the converted supply loses in a withdrawal. -/
def WithdrawnCovered (s : Chain A) (u : A) (info : Balance × Balance × Balance) : Call A → Prop
  | .withdraw a x => ∀ (t : Touch s u .supply a) user factor, t.book.records (a, u) = some user →
      (s.assets.getRate a).mul t.accrued.safeFactor = some factor →
      (worth factor (transferred false user.amount x)).toNat ≤ info.2.1.toNat
  | _ => True

theorem transferred_le (v x : Balance) : (transferred false v x).toNat ≤ v.toNat := by
  simp only [transferred, Bool.false_eq_true, if_false]
  split
  · exact le_refl _
  · rename_i h
    exact BitVec.le_def.mp (BitVec.not_lt.mp h)

/-- The record that is accrued in storage is listed, and its view is the stored amount. -/
theorem Touch.listed_view (t : Touch s u .supply a) (hs : AllListed s) (hinfo : getUserInfo .release s u = some info)
    {user : Position} {factor : FixedU128} (hr : t.book.records (a, u) = some user)
    (hfactor : (s.assets.getRate a).mul t.accrued.safeFactor = some factor) :
    ∃ n, view .release s a u .supply = some n ∧ weight s a .supply = some factor ∧ n = user.amount := by
  obtain ⟨hvalue, _, hsome⟩ := Book.accrue_record t.touches hr
  obtain ⟨n, _, hn, _⟩ := (info_total hinfo .supply).1 a ((hs .supply).listed u a hsome)
  refine ⟨n, hn, Option.bind_eq_some_iff.mpr ⟨t.pool, t.stored, ?_⟩, ?_⟩
  · rw [← (accrueInterest_frame t.accrues).2.2.2.2]
    exact hfactor
  · exact Option.some.inj ((view_value t.stored t.accrues hn).symm.trans hvalue)

/-- **The subtraction of a withdrawal does not underflow**: the converted supply counts the record. -/
theorem withdrawn_le (hs : AllListed s) (hinfo : getUserInfo .checked s u = some info) (t : Touch s u .supply a)
    {user : Position} {factor : FixedU128} (hr : t.book.records (a, u) = some user)
    (hfactor : (s.assets.getRate a).mul t.accrued.safeFactor = some factor) :
    (worth factor (transferred false user.amount x)).toNat ≤ info.2.1.toNat := by
  have hmem : a ∈ (s.lending.book .supply).assets u :=
    (hs .supply).listed u a (Book.accrue_record t.touches hr).2.2
  have hrelease : getUserInfo .release s u = some info := mono_getUserInfo s u Profile.checked_le_release hinfo
  obtain ⟨n, hview, hweight, hn⟩ := t.listed_view hs hrelease hr hfactor
  calc (worth factor (transferred false user.amount x)).toNat
      ≤ (worth factor user.amount).toNat := worth_mono _ (transferred_le _ _)
    _ = (counted s u .supply a).toNat := by rw [counted_eq hview hweight, hn]
    _ ≤ info.2.1.toNat := counted_le Profile.checked_le_release rfl hinfo hmem

theorem Posting.withdrawal_passed (d : Posting cfg .release s u .supply false a x) :
    ∃ (t : Touch s u .supply a) (user : Position) (info : Balance × Balance × Balance) (factor : FixedU128),
      t.book.records (a, u) = some user ∧ getUserInfo .release s u = some info ∧
      (s.assets.getRate a).mul t.accrued.safeFactor = some factor ∧
      worth s.lending.liquidationThreshold info.2.2 ≤
        info.2.1 - worth factor (transferred false user.amount x) := by
  obtain ⟨touched, cash, hbook, _, _, info, factor, value, left, required, hinfo, hfactor, hvalue, hleft, hrequired,
    hpassed⟩ := d.checks rfl
  let t : Touch s u .supply a := ⟨d.pool, d.accrued, touched, d.stored, d.accrues, hbook⟩
  obtain ⟨user, hr⟩ : ∃ user, touched.records (a, u) = some user := by
    by_contra hnone
    have hrec := d.recorded
    rw [Book.accrue_none hbook (Option.eq_none_iff_forall_ne_some.mpr fun user hr => hnone ⟨user, hr⟩)] at hrec
    cases hrec
  have hamount : d.amount = transferred false user.amount x := by
    have hval := (Book.accrue_record hbook hr).1
    rw [d.value_eq] at hval
    rw [d.amount_eq, Option.some.inj hval]
  refine ⟨t, user, info, factor, hr, t.getUserInfo_eq hinfo, hfactor, ?_⟩
  rw [mulInt_release] at hvalue hrequired
  rw [← hamount, Option.some.inj hvalue, ← sub_eq hleft]
  exact BitVec.not_lt.mp (Option.some.inj hrequired ▸ hpassed)

/-- A loan whose value takes the plain sum of `borrow` past `2 ^ 128`, to a sum that the collateral covers. -/
def WrapsPast (cfg : Config A) (s : Chain A) (info : Balance × Balance × Balance) : Call A → Prop
  | .borrow a x => Lendable cfg s a x ∧
      2 ^ 128 ≤ info.2.2.toNat + (worth (s.assets.getRate a) x).toNat ∧
      worth s.lending.liquidationThreshold (info.2.2 + worth (s.assets.getRate a) x) ≤ info.2.1
  | _ => False

omit [DecidableEq A] in
theorem below_of_fits (hliq : info.2.1 < worth s.lending.liquidationThreshold info.2.2) {v : Balance}
    (hfits : info.2.2.toNat + v.toNat < 2 ^ 128) :
    info.2.1 < worth s.lending.liquidationThreshold (info.2.2 + v) := by
  rw [BitVec.lt_def] at hliq ⊢
  refine lt_of_lt_of_le hliq (worth_mono _ ?_)
  rw [BitVec.toNat_add, Nat.mod_eq_of_lt hfits]
  exact Nat.le_add_right _ _

/-- **An account that can be liquidated is frozen, up to a wrap.** In every reachable state in which the sums of
`get_user_info` do not overflow, every withdrawal of such an account returns `Err` and subtracts no more than there
is; a loan returns `Err` exactly when its value does not take the sum of `borrow` past `2 ^ 128` to one that passes. -/
theorem frozen_iff {call : Call A} (hs : Reached cfg (fun _ _ => True) s)
    (hinfo : getUserInfo .checked s u = some info) (hliq : info.2.1 < worth s.lending.liquidationThreshold info.2.2)
    (hcall : (∃ a x, call = .withdraw a x) ∨ ∃ a x, call = .borrow a x)
    (h : dispatch cfg .release s (.signed u) call = some (r, s')) :
    ((∃ e, r = .error e) ∧ WithdrawnCovered s u info call) ↔ ¬ WrapsPast cfg s info call := by
  have hlisted := reached_listed hs
  have hrelease : getUserInfo .release s u = some info := mono_getUserInfo s u Profile.checked_le_release hinfo
  rcases hcall with ⟨a, x, rfl⟩ | ⟨a, x, rfl⟩
  · refine ⟨fun _ hf => hf, fun _ => ⟨?_, fun t user factor hr hfactor => withdrawn_le hlisted hinfo t hr hfactor⟩⟩
    cases r with
    | error e => exact ⟨e, rfl⟩
    | ok =>
      obtain ⟨d, _⟩ := dispatch_posted h rfl
      -- the check passed although it subtracts from a converted supply that was too low
      obtain ⟨t, user, info₁, factor, hr, hinfo₁, hfactor, hpassed⟩ := d.withdrawal_passed
      cases hrelease.symm.trans hinfo₁
      have hle := withdrawn_le (x := x) hlisted hinfo t hr hfactor
      rw [BitVec.le_def, BitVec.toNat_sub_of_le (BitVec.le_def.mpr hle)] at hpassed
      rw [BitVec.lt_def] at hliq
      omega
  · rw [loan_refused_iff hrelease h]
    constructor
    · rintro ⟨hbelow, _⟩ ⟨hlendable, _, hpassed⟩
      exact absurd hpassed (BitVec.not_le.mpr (hbelow hlendable))
    · intro hwraps
      refine ⟨fun hlendable => ?_, trivial⟩
      by_contra hpassed
      have hpassed := BitVec.not_lt.mp hpassed
      by_cases hfits : info.2.2.toNat + (worth (s.assets.getRate a) x).toNat < 2 ^ 128
      · exact absurd hpassed (BitVec.not_le.mpr (below_of_fits hliq hfits))
      · exact hwraps ⟨hlendable, not_lt.mp hfits, hpassed⟩

/-- The borrower supplies 10 of asset `1` at the price 60 and borrows 420 of asset `0` at the price 1; then the price of
asset `0` rises a little. The lender has issued asset `2` and supplied 10^19 of it at the price 10^20. -/
def risingPrice (lender borrower : A) : List (Action A) :=
  [.call (.signed lender) (.lending (.supply 0 100000)), .call (.signed borrower) (.lending (.supply 1 10)),
    .call .root (.assets (.setPrice 0 ⟨1000000000000000000⟩)), .call (.signed borrower) (.lending (.borrow 0 420)),
    .call .root (.assets (.setPrice 0 ⟨1002500000000000000⟩)),
    .call (.signed lender) (.assets (.issue 100000000000000000000)),
    .call (.signed lender) (.lending (.initPool 2 true)),
    .call .root (.assets (.setPrice 2 ⟨100000000000000000000000000000000000000⟩)),
    .call (.signed lender) (.lending (.supply 2 10000000000000000000))]

/-- The debt of user `2` is worth 421 and its converted supply 420: it is refused a withdrawal. -/
theorem frozen_mock : ∃ s r s', Reached mockConfig (fun _ _ => True) s ∧
    getUserInfo .checked s 2 = some (600, 420, 421) ∧
    dispatch mockConfig .release s (.signed 2) (.withdraw 1 5) = some (r, s') ∧ ∃ e, r = .error e := by
  obtain ⟨s₀, s, r, s', hs₀, hs, hinfo, hthreshold, hd⟩ : ∃ s₀ s r s', genesis .release mockGenesis = some s₀ ∧
      exec (guarded (step mockConfig .release) (fun _ _ => True)) s₀ (risingPrice 1 2) = some s ∧
      getUserInfo .checked s 2 = some (600, 420, 421) ∧ s.lending.liquidationThreshold = Fixed.one ∧
      dispatch mockConfig .release s (.signed 2) (.withdraw 1 5) = some (r, s') :=
    ⟨_, _, _, _, rfl, rfl, rfl, rfl, rfl⟩
  have hreached : Reached mockConfig (fun _ _ => True) s := ⟨mockGenesis, s₀, hs₀, run_of_exec hs⟩
  have hliq : (420 : Balance) < worth s.lending.liquidationThreshold 421 := by
    rw [hthreshold, worth_one]
    decide
  exact ⟨s, r, s', hreached, hinfo, hd,
    ((frozen_iff hreached hinfo hliq (Or.inl ⟨1, 5, rfl⟩) hd).mpr (fun h => h)).1⟩

/-- The same user borrows 4 * 10^18 of asset `2`: its value saturates, the sum with the debt of 421 wraps to 420, and
the loan is granted. -/
theorem frozen_account_borrows : ∃ s s', play mockConfig .release mockGenesis (risingPrice 1 2) = some s ∧
    getUserInfo .checked s 2 = some (600, 420, 421) ∧
    s.lending.liquidationThreshold.saturatingMulInt .release 421 = some 421 ∧
    dispatch mockConfig .release s (.signed 2) (.borrow 2 4000000000000000000) = some (.ok (), s') :=
  ⟨_, _, rfl, rfl, rfl, rfl⟩

end Konomi.Lending
