import Konomi.Lib.Ledger
import Konomi.Lending.Views

/-!
# Pool totals and user positions

The gap of an asset is the difference between the accrued total of its pool and the sum of the views of all users.
Supply, withdraw, borrow and repay move both by the same amount (`Posting.gap_eq`). A liquidation moves the views only:
`liquidate` never calls `update_pool_supply` or `update_pool_debt`, so the gap of the seized asset grows by what was
seized and the gap of the repaid asset by what was paid (`Settlement.gap_eq`).
-/

namespace Konomi.Lending
open Machine Assets

variable {A : Type} [DecidableEq A] [Fintype A] {cfg : Config A} {p : Profile} {s s' : Chain A} {a b : AssetId}
  {u t : A} {side : Side} {d d' e e' : Int} {x : Balance}

/-- The accrued total of the pool less the sum of all views. -/
def Gap (s : Chain A) (a : AssetId) (side : Side) (d : Int) : Prop :=
  ∃ pool q, ∃ v : A → Balance, s.lending.pools a = some pool ∧
    accrueInterest .release s.blockNumber pool = some q ∧ (∀ u, view .release s a u side = some (v u)) ∧
    d = (q.total side).toNat - ∑ u, ((v u).toNat : Int)

theorem sum_entry {side' : Side} (m : Int) :
    ∑ v, entry a u side m b v side' = if b = a ∧ side' = side then m else 0 := by
  by_cases h : b = a ∧ side' = side
  · rw [if_pos h, Finset.sum_eq_single u]
    · exact if_pos ⟨h.1, rfl, h.2⟩
    · exact fun v _ hv => entry_of_ne m (fun h => hv h.2.1)
    · exact fun hu => absurd (Finset.mem_univ u) hu
  · rw [if_neg h]
    exact Finset.sum_eq_zero fun v _ => entry_of_ne m (fun h' => h ⟨h'.1, h'.2.2⟩)

omit [DecidableEq A] in
theorem Gap.sub {change : AssetId → A → Side → Int} (hshift : Shifted s s' change) (hd : Gap s a side d)
    (hd' : Gap s' a side d') :
    ∃ pool q pool' q', s.lending.pools a = some pool ∧ accrueInterest .release s.blockNumber pool = some q ∧
      s'.lending.pools a = some pool' ∧ accrueInterest .release s'.blockNumber pool' = some q' ∧
      d' = d + ((q'.total side).toNat - (q.total side).toNat) - ∑ u, change a u side := by
  obtain ⟨pool, q, v, hpool, hq, hv, rfl⟩ := hd
  obtain ⟨pool', q', v', hpool', hq', hv', rfl⟩ := hd'
  refine ⟨pool, q, pool', q', hpool, hq, hpool', hq', ?_⟩
  have hsum : ∑ u, ((v' u).toNat : Int) = ∑ u, ((v u).toNat : Int) + ∑ u, change a u side := by
    rw [← Finset.sum_add_distrib]
    exact Finset.sum_congr rfl fun u _ => hshift a u side _ _ (hv u) (hv' u)
  omega

/-- **A call on one's own position keeps every gap.** -/
theorem Posting.gap_eq {positive : Bool} (hp : p ≤ .release) (hwraps : p.wraps = false) {side' : Side}
    (c : Posting cfg p s u side positive a x) (hd : Gap s b side' d) (hd' : Gap c.result b side' d') : d' = d := by
  obtain ⟨pool, q, pool', q', hpool, hq, hpool', hq', hdiff⟩ := Gap.sub (c.shifted hp hwraps) hd hd'
  rw [sum_entry] at hdiff
  rw [c.result_pools] at hpool'
  by_cases hb : b = a
  · subst hb
    rw [Function.update_self] at hpool'
    cases hpool'
    cases hq'.symm.trans c.accrues_after
    cases hpool.symm.trans c.stored
    cases hq.symm.trans (release_accrues hp c.accrues)
    have htotal := toNat_adjust hwraps c.total'_eq
    rw [total_setTotal] at hdiff
    by_cases hside : side' = side
    · subst hside
      rw [if_pos rfl, if_pos ⟨rfl, rfl⟩] at hdiff
      omega
    · rw [if_neg hside, if_neg (fun h => hside h.2)] at hdiff
      omega
  · rw [Function.update_of_ne hb, hpool] at hpool'
    cases hpool'
    cases hq'.symm.trans hq
    rw [if_neg (fun h => hb h.1)] at hdiff
    omega

/-- **A liquidation widens the gaps of its two assets by what it seizes and by what is paid.** -/
theorem Settlement.gap_eq {payId getId : AssetId} (hp : p ≤ .release) (hwraps : p.wraps = false)
    (c : Settlement cfg p s u t payId getId x) (hd : Gap s b side d) (hd' : Gap c.result b side d') :
    d' = d + (if b = getId ∧ side = .supply then (c.seized.toNat : Int) else 0) +
      (if b = payId ∧ side = .debt then (c.paid.toNat : Int) else 0) := by
  obtain ⟨pool, q, pool', q', hpool, hq, hpool', hq', hdiff⟩ := Gap.sub (c.shifted hp hwraps) hd hd'
  have hsame : q' = q := by
    by_cases hb : b = payId ∨ b = getId
    · obtain ⟨pool₁, q₁, hpool₁, hq₁, hpool₁', _⟩ := c.pools_of_mem hb
      cases hpool.symm.trans hpool₁
      cases hpool'.symm.trans hpool₁'
      cases hq.symm.trans (release_accrues hp hq₁)
      have hself := accrueInterest_self (p := .release) (accrueInterest_lastUpdated hq₁)
      exact Option.some.inj (hq'.symm.trans hself)
    · rw [c.pools_of_not_mem hb, hpool] at hpool'
      cases hpool'
      exact Option.some.inj (hq'.symm.trans hq)
  subst hsame
  rw [Finset.sum_add_distrib, sum_entry, sum_entry] at hdiff
  rw [hdiff]
  by_cases hget : b = getId ∧ side = .supply
  · have hpay : ¬ (b = payId ∧ side = .debt) := fun h => by cases hget.2.symm.trans h.2
    simp only [if_pos hget, if_neg hpay]
    omega
  · simp only [if_neg hget]
    split <;> omega

omit [Fintype A] in
theorem Settlement.amounts_pos {payId getId : AssetId} (c : Settlement cfg p s u t payId getId x) :
    0 < c.paid.toNat ∧ 0 < c.seized.toNat := by
  have hpos : ∀ m : Balance, m ≠ 0 → 0 < m.toNat :=
    fun m hm => Nat.pos_of_ne_zero fun h => hm (BitVec.eq_of_toNat_eq h)
  exact ⟨hpos _ (transfer_ok c.pays).1.1, hpos _ (transfer_ok c.seizes).1.1⟩

/-- **A call on positions that returns `Ok` without a wrap keeps both gaps of an asset exactly when it is no liquidation
with that asset on either side.** -/
theorem gaps_kept_iff {call : Call A} (hcall : ∀ id c, call ≠ .initPool id c)
    (h : dispatch cfg .release s (.signed u) call = some (.ok (), s'))
    (hfits : (dispatch cfg .checked s (.signed u) call).isSome)
    (hd : Gap s a .supply d) (hd' : Gap s' a .supply d') (he : Gap s a .debt e) (he' : Gap s' a .debt e') :
    (d' = d ∧ e' = e) ↔ ∀ t payId getId x, call = .liquidate t payId getId x → a ≠ payId ∧ a ≠ getId := by
  have hle := Profile.checked_le_release
  have h := (mono_dispatch cfg s (.signed u) call).eq_of_isSome hle h hfits
  rcases dispatch_cases h with ⟨v, hv, hstep⟩ | ⟨⟨e, he⟩, _⟩ | ⟨id, c, rfl, _, _⟩
  · cases hv
    cases hstep with
    | posted side positive entry c =>
      have hno : ∀ t payId getId x, call ≠ .liquidate t payId getId x := by
        rintro t payId getId x rfl
        cases entry
      exact iff_of_true ⟨c.gap_eq hle rfl hd hd', c.gap_eq hle rfl he he'⟩
        (fun t payId getId x hc => absurd hc (hno t payId getId x))
    | @settled t payId getId x c =>
      have hsupply := c.gap_eq hle rfl hd hd'
      have hdebt := c.gap_eq hle rfl he he'
      obtain ⟨hpaid, hseized⟩ := c.amounts_pos
      simp only [reduceCtorEq, and_false, and_true, if_false, add_zero] at hsupply hdebt
      constructor
      · rintro ⟨hd, he⟩ _ _ _ _ hc
        cases hc
        refine ⟨fun ha => ?_, fun ha => ?_⟩
        · rw [if_pos ha] at hdebt
          omega
        · rw [if_pos ha] at hsupply
          omega
      · intro hne
        obtain ⟨hpay, hget⟩ := hne t payId getId x rfl
        rw [if_neg hget] at hsupply
        rw [if_neg hpay] at hdebt
        exact ⟨by omega, by omega⟩
  · cases he
  · exact absurd rfl (hcall id c)

/-- Before and after a loan the positions in asset `0` add up to the totals of its pool. -/
theorem gaps_kept_by_loan : ∃ s s' : Chain (Fin 4), ∃ d d' e e' : Int, play mockConfig .release mockGenesis
      [.advance 1, .call (.signed 1) (.lending (.supply 0 100000)), .call (.signed 2) (.lending (.supply 1 100000)),
        .advance 1001] = some s ∧
    dispatch mockConfig .release s (.signed 2) (.borrow 0 10000) = some (.ok (), s') ∧
    Gap s 0 .supply d ∧ Gap s' 0 .supply d' ∧ Gap s 0 .debt e ∧ Gap s' 0 .debt e' ∧ d' = d ∧ e' = e := by
  have hrun : ∃ s s' : Chain (Fin 4), play mockConfig .release mockGenesis
      [.advance 1, .call (.signed 1) (.lending (.supply 0 100000)), .call (.signed 2) (.lending (.supply 1 100000)),
        .advance 1001] = some s ∧
      dispatch mockConfig .release s (.signed 2) (.borrow 0 10000) = some (.ok (), s') ∧
      (dispatch mockConfig .checked s (.signed 2) (.borrow 0 10000)).isSome ∧
      Gap s 0 .supply 0 ∧ Gap s' 0 .supply 0 ∧ Gap s 0 .debt 0 ∧ Gap s' 0 .debt 0 := by
    refine ⟨_, _, rfl, rfl, rfl, ?_, ?_, ?_, ?_⟩
    · exact ⟨_, _, fun | 1 => 100000 | _ => 0, rfl, rfl, by decide, by decide⟩
    · exact ⟨_, _, fun | 1 => 100000 | _ => 0, rfl, rfl, by decide, by decide⟩
    · exact ⟨_, _, fun _ => 0, rfl, rfl, by decide, by decide⟩
    · exact ⟨_, _, fun | 2 => 10000 | _ => 0, rfl, rfl, by decide, by decide⟩
  obtain ⟨s, s', hs, h, hfits, hd, hd', he, he'⟩ := hrun
  refine ⟨s, s', 0, 0, 0, 0, hs, h, hd, hd', he, he', ?_⟩
  exact (gaps_kept_iff (fun _ _ hc => by cases hc) h hfits hd hd' he he').mpr (fun _ _ _ _ hc => by cases hc)

/-- The liquidation of the tests: user `1` pays 4750 for the debt of user `2` and seizes 99999, and the pools still
count 10000 of debt and 100000 of supply. -/
theorem liquidation_leaves_totals : ∃ s s' : Chain (Fin 4), play mockConfig .release mockGenesis
      [.advance 1, .call (.signed 1) (.lending (.supply 0 100000)), .call (.signed 2) (.lending (.supply 1 100000)),
        .call (.signed 2) (.lending (.borrow 0 10000)),
        .call .root (.assets (.setPrice 1 ⟨5000000000000000000⟩))] = some s ∧
    dispatch mockConfig .release s (.signed 1) (.liquidate 2 0 1 10000) = some (.ok (), s') ∧
    (dispatch mockConfig .checked s (.signed 1) (.liquidate 2 0 1 10000)).isSome ∧
    Gap s 1 .supply 0 ∧ Gap s' 1 .supply 99999 ∧ Gap s 0 .debt 0 ∧ Gap s' 0 .debt 4750 := by
  refine ⟨_, _, rfl, rfl, rfl, ?_, ?_, ?_, ?_⟩
  · exact ⟨_, _, fun | 2 => 100000 | _ => 0, rfl, rfl, by decide, by decide⟩
  · exact ⟨_, _, fun | 2 => 1 | _ => 0, rfl, rfl, by decide, by decide⟩
  · exact ⟨_, _, fun | 2 => 10000 | _ => 0, rfl, rfl, by decide, by decide⟩
  · exact ⟨_, _, fun | 2 => 5250 | _ => 0, rfl, rfl, by decide, by decide⟩

end Konomi.Lending
