import Konomi.Blocks

/-!
# Nobody spends another account's tokens

Some twenty transfers of the three pallets name their payer themselves. Each is the signer of the call, the account of
the lending pallet or an exchange (`swap_moves`, `lending_moves`), and where holdings are conserved no credit wraps, so
nobody else loses.
-/

namespace Konomi
open Machine Assets

variable {A : Type} [DecidableEq A] [Fintype A] {cfg : Config A} {s s' : Chain A}

theorem Assets.Moves.kept {payer : A → Prop} {st st' : Assets A} {y : A} (hm : Moves .release payer st st')
    (hst : Conserved st) (hy : ¬ payer y) (id : AssetId) : st.holdings id y ≤ st'.holdings id y :=
  (hm.checked hst).holdings_le rfl hy id

theorem dispatch_kept {origin : Origin A} {call : Call A} {r : Except DispatchError Unit} {y : A}
    (hs : Conserved s.assets) (h : dispatch cfg .release s origin call = some (r, s')) (hsigner : origin ≠ .signed y)
    (hpallet : y ≠ cfg.accountId) (hexchange : ∀ i j, y ≠ cfg.makeExchangeAddress i j) (id : AssetId) :
    s.assets.holdings id y ≤ s'.assets.holdings id y := by
  cases call with
  | assets c => exact dispatch_holdings_le (fun hm hy => hm.kept hs hy id) h hsigner
  | swap c =>
    apply (Swap.swap_moves h).1.kept hs
    rintro (hy | ⟨i, j, hy⟩)
    · exact hsigner hy
    · exact hexchange i j hy
  | lending c =>
    apply (Lending.lending_moves h).1.kept hs
    rintro (hy | hy)
    · exact hsigner hy
    · exact hpallet hy

/-- **No call spends someone else's tokens.** In every reachable state and for every call of the three pallets,
whatever it returns, an account that did not sign it and is neither the lending pallet nor an exchange loses
nothing. -/
theorem spends_only_own {x y : A} {call : Call A} {r : Except DispatchError Unit} (hs : Reachable cfg s)
    (h : dispatch cfg .release s (.signed x) call = some (r, s')) (hyx : y ≠ x) (hpallet : y ≠ cfg.accountId)
    (hexchange : ∀ i j, y ≠ cfg.makeExchangeAddress i j) (id : AssetId) :
    s.assets.balances (id, y) ≤ s'.assets.balances (id, y) := by
  have hsigner : Origin.signed x ≠ .signed y := fun e => hyx (Origin.signed.inj e).symm
  exact BitVec.le_def.mpr (dispatch_kept hs.conserved h hsigner hpallet hexchange id)

/-- User `1` pays asset `0` to user `2` in a swap of the pool it opened a block earlier. -/
theorem spends_only_own_mock : ∃ s s', Reachable mockConfig s ∧
    dispatch mockConfig .release s (.signed 1) (.swap (.swapAssetsWithExactInput 2 1 0 600 0)) = some (.ok (), s') ∧
    s'.assets.balances (0, 2) = s.assets.balances (0, 2) + 375 ∧
    s.assets.balances (0, 2) ≤ s'.assets.balances (0, 2) := by
  have hplay : ∃ s s', play mockConfig .release mockGenesis
        (List.flatMap Block.actions [⟨1, [(.signed 1, .swap (.addLiquidity 1 1000 1000 0))], by decide⟩]) = some s ∧
      dispatch mockConfig .release s (.signed 1) (.swap (.swapAssetsWithExactInput 2 1 0 600 0)) =
        some (.ok (), s') ∧
      s'.assets.balances (0, 2) = s.assets.balances (0, 2) + 375 := ⟨_, _, rfl, rfl, by decide⟩
  obtain ⟨s, s', hs, hswap, hpaid⟩ := hplay
  have hreach : Reachable mockConfig s := ⟨mockGenesis, _, by decide, hs⟩
  refine ⟨s, s', hreach, hswap, hpaid, ?_⟩
  exact spends_only_own hreach hswap (by decide) (by decide) (fun _ _ => (by decide : (2 : Fin 4) ≠ 3)) 0

end Konomi
