import Konomi.Lending.Steps

/-!
# When a failed liquidation keeps the balances

`liquidate` pays in with one transfer and seizes with a second one. An `Err` of the second comes after the first has
moved the liquidator's tokens. `keepsBalances_iff` says for which states, on the terms fixed before the first
transfer, a liquidation that returns `Err` leaves every balance as it was.
-/

namespace Konomi.Lending
open Machine Assets

variable {A : Type} [DecidableEq A] {cfg : Config A} {s s' : Chain A} {u t : A} {payId getId : AssetId} {x : Balance}

/-- What a failed liquidation promises. -/
def KeepsBalances (cfg : Config A) (s : Chain A) (u t : A) (payId getId : AssetId) (x : Balance) : Prop :=
  ∀ e s', dispatch cfg .release s (.signed u) (.liquidate t payId getId x) = some (.error e, s') →
    ∀ k, s'.assets.balances k = s.assets.balances k

/-- The pallet can hand out what is seized: the amount is not zero, and covered by what the pallet holds once the
liquidator has paid. -/
def Seizable (cfg : Config A) (s : Chain A) (payId getId : AssetId) (z : Seizure A) : Prop :=
  z.seized ≠ 0 ∧ z.seized ≤ s.assets.balances (getId, cfg.accountId) + if getId = payId then z.paid else 0

/-- After the payment, the second transfer is covered exactly when the amount is seizable. -/
theorem covered_iff_seizable {st : Assets A} {z : Seizure A} (hu : u ≠ cfg.accountId)
    (hpays : s.assets.transfer .release u payId cfg.accountId z.paid = some (.ok st)) :
    st.Covered cfg.accountId getId z.seized ↔ Seizable cfg s payId getId z := by
  unfold Covered Seizable
  rw [payee_after hpays hu]

/-- A seizure that fails after the payment returns an `Err` that keeps the payment. -/
theorem liquidate_halfway {st : Assets A} {z : Seizure A}
    (hz : seizure .release s t payId getId x = some (.ok z))
    (hpays : s.assets.transfer .release u payId cfg.accountId z.paid = some (.ok st))
    (hc : ¬ st.Covered cfg.accountId getId z.seized) :
    dispatch cfg .release s (.signed u) (.liquidate t payId getId x) =
      some (.error (.lending .transferFailed), { s with lending := z.lending, assets := st }) := by
  obtain ⟨m, hm⟩ := transfer_of_not_covered (p := .release) (b := u) hc
  show liquidate cfg .release s u t payId getId x = _
  unfold liquidate
  simp only [hz, hpays, hm, Option.bind_eq_bind, Option.bind_some]
  rfl

/-- The balances an `Err` leaves are those before, or those after the payment. -/
theorem liquidate_error {e : DispatchError}
    (h : dispatch cfg .release s (.signed u) (.liquidate t payId getId x) = some (.error e, s')) :
    s'.assets = s.assets ∨ ∃ z, seizure .release s t payId getId x = some (.ok z) ∧
      s.assets.transfer .release u payId cfg.accountId z.paid = some (.ok s'.assets) ∧
      ¬ s'.assets.Covered cfg.accountId getId z.seized := by
  obtain ⟨o, ho, h⟩ := Option.bind_eq_some_iff.mp h
  cases o with
  | error el =>
    cases h
    exact Or.inl rfl
  | ok z =>
    obtain ⟨o, hpays, h⟩ := Option.bind_eq_some_iff.mp h
    cases o with
    | error m =>
      cases h
      exact Or.inl rfl
    | ok st₁ =>
      obtain ⟨o, hseizes, h⟩ := Option.bind_eq_some_iff.mp h
      cases o with
      | error m =>
        cases h
        exact Or.inr ⟨z, ho, hpays, transfer_error hseizes⟩
      | ok st₂ =>
        obtain ⟨l, _, h⟩ := Option.bind_eq_some_iff.mp h
        obtain ⟨l', _, h⟩ := Option.bind_eq_some_iff.mp h
        cases h

/-- **A failed liquidation keeps every balance exactly when, on its terms, a payment of another account than the
pallet that is covered is for a seizable amount.** -/
theorem keepsBalances_iff (cfg : Config A) (s : Chain A) (u t : A) (payId getId : AssetId) (x : Balance) :
    KeepsBalances cfg s u t payId getId x ↔
      ∀ z, seizure .release s t payId getId x = some (.ok z) → u ≠ cfg.accountId →
        s.assets.Covered u payId z.paid → Seizable cfg s payId getId z := by
  constructor
  · intro h z hz hu hc
    obtain ⟨st, hpays⟩ := transfer_of_covered (b := cfg.accountId) hc
    by_contra hnot
    have hkept := h _ _ (liquidate_halfway hz hpays (mt (covered_iff_seizable hu hpays).mp hnot)) (payId, u)
    change st.balances (payId, u) = _ at hkept
    rw [payer_after hpays hu] at hkept
    have h0 : z.paid = 0 := by bv_omega
    exact hc.1 h0
  · intro h e s' hs'
    rcases liquidate_error hs' with hsame | ⟨z, hz, hpays, hc⟩
    · exact fun k => by rw [hsame]
    · by_cases hu : u = cfg.accountId
      · subst hu
        rw [transfer_self hpays]
        exact fun _ => rfl
      · exact absurd ((covered_iff_seizable hu hpays).mpr (h z hz hu (transfer_ok hpays).1)) hc

/-- At price 1 against 500, the 100 that user `1` pays for the debt of user `2` buy nothing: the seizure of zero fails
and the payment stays with the pallet. -/
theorem failed_liquidation_keeps_payment : ∃ s, play mockConfig .release mockGenesis
      [.advance 1, .call .root (.assets (.setPrice 0 ⟨1000000000000000000⟩)),
        .call .root (.assets (.setPrice 1 ⟨1000000000000000000000⟩)),
        .call (.signed 1) (.lending (.supply 0 100000)), .call (.signed 2) (.lending (.supply 1 10)),
        .call (.signed 2) (.lending (.borrow 0 5000)),
        .call .root (.assets (.setPrice 1 ⟨500000000000000000000⟩))] = some s ∧
    ¬ KeepsBalances mockConfig s 1 2 0 1 100 := by
  refine ⟨_, rfl, fun h => ?_⟩
  exact absurd (h _ _ rfl (0, 1)) (by decide)

end Konomi.Lending
