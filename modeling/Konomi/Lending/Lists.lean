import Konomi.Lending.Info
import Konomi.Lending.Pools

/-!
# How long the lists of a user get

The collateral checks loop over the lists of assets of a user, for which the source keeps no bound. A list names an
asset once, and only assets that have a pool. No call removes a pool, so a list never gets longer than the number of
pools that genesis and `init_pool` have made (`lists_bounded`), whoever calls what.
-/

namespace Konomi.Lending
open Machine

variable {A : Type} [DecidableEq A] {cfg : Config A} {s s' t : Chain A} {u v : A} {a b : AssetId} {side : Side}
  {call : Call A}

/-- The pool that an action makes. -/
def made : Action A → Option AssetId
  | .call _ (.lending (.initPool id _)) => some id
  | _ => none

/-! ## Pools stay -/

theorem step_pools {l : Action A} (hs : step cfg .release s l = some s') (b : AssetId) :
    ((s.lending.pools b).isSome → (s'.lending.pools b).isSome) ∧
      ((s'.lending.pools b).isSome → (s.lending.pools b).isSome ∨ made l = some b) := by
  rcases step_storage hs with ⟨n, rfl, _, rfl⟩ | ⟨u, call, r, rfl, hcall⟩ | ⟨origin, id, c, rfl, rfl⟩ | ⟨hl, _⟩
  · exact ⟨fun h => h, fun h => Or.inl h⟩
  · rcases hcall.follows.pools b with hsame | ⟨_, pool, q, q', hacc, hq', _⟩
    · rw [hsame]
      exact ⟨fun h => h, fun h => Or.inl h⟩
    · rw [hq', hacc.stored]
      exact ⟨fun h => h, fun h => Or.inl h⟩
  · show (_ → (Function.update s.lending.pools id _ b).isSome) ∧ ((Function.update s.lending.pools id _ b).isSome → _)
    by_cases hb : b = id
    · subst hb
      simp [made]
    · rw [Function.update_of_ne hb]
      exact ⟨fun h => h, fun h => Or.inl h⟩
  · rw [hl]
    exact ⟨fun h => h, fun h => Or.inl h⟩

theorem exec_pools {actions : List (Action A)} (h : exec (step cfg .release) s actions = some t)
    (hb : (t.lending.pools b).isSome) : (s.lending.pools b).isSome ∨ b ∈ actions.filterMap made := by
  induction actions generalizing s with
  | nil =>
    cases h
    exact Or.inl hb
  | cons l actions ih =>
    obtain ⟨s₁, hs₁, hrest⟩ := exec_cons h
    rcases ih hrest with hold | hlater
    · rcases (step_pools hs₁ b).2 hold with hfirst | hmade
      · exact Or.inl hfirst
      · simp [hmade]
    · simp only [List.filterMap_cons]
      right
      split
      · exact hlater
      · exact List.mem_cons_of_mem _ hlater

/-! ## Lists name pools -/

theorem Step.listed_cases {r : Except DispatchError Unit} (h : Step cfg .release s u call r s')
    (hb : b ∈ (s'.lending.book side).assets v) :
    b ∈ (s.lending.book side).assets v ∨ (s.lending.pools b).isSome := by
  cases h with
  | refused => exact Or.inl hb
  | touched side' e entry stored accrues book =>
    rw [assets_of_touched (touched_setBook stored accrues book side)] at hb
    exact Or.inl hb
  | posted side' positive entry d =>
    rw [d.result_book] at hb
    split at hb
    · rename_i hside
      subst hside
      cases positive with
      | false => exact Or.inl (Book.mem_put.mp hb).1
      | true =>
        rcases Book.mem_enlist.mp hb with hput | hkey
        · exact Or.inl (Book.mem_put.mp hput).1
        · obtain ⟨rfl, rfl⟩ := Prod.mk.inj hkey
          rw [d.stored]
          exact Or.inr rfl
    · exact Or.inl hb
  | assessed e d =>
    rw [assets_of_touched (d.touched rfl side)] at hb
    exact Or.inl hb
  | halfway e d =>
    rw [assets_of_touched (d.touched rfl side)] at hb
    exact Or.inl hb
  | settled d =>
    cases side with
    | supply => exact Or.inl (Book.mem_put.mp hb).1
    | debt => exact Or.inl (Book.mem_put.mp hb).1

/-- Every listed asset has a pool. -/
def Pooled (s : Chain A) : Prop := ∀ side u a, a ∈ (s.lending.book side).assets u → (s.lending.pools a).isSome

theorem step_pooled {l : Action A} (h : Pooled s) (hs : step cfg .release s l = some s') : Pooled s' := by
  intro side v b hb
  apply (step_pools hs b).1
  rcases step_storage hs with ⟨n, rfl, _, rfl⟩ | ⟨u, call, r, rfl, hcall⟩ | ⟨origin, id, c, rfl, rfl⟩ | ⟨hl, _⟩
  · exact h side v b hb
  · rcases hcall.listed_cases hb with hold | hpool
    · exact h side v b hold
    · exact hpool
  · change b ∈ ((s.lending.commit (newPool s.blockNumber id c) id).book side).assets v at hb
    rw [book_commit] at hb
    exact h side v b hb
  · rw [hl] at hb
    exact h side v b hb

theorem genesis_pooled {g : Genesis A} (h : genesis .release g = some s) : Pooled s := by
  obtain ⟨_, hsupplies, hdebts, _⟩ := genesis_lending h
  intro side u a ha
  cases side with
  | supply =>
    change a ∈ s.lending.supplies.assets u at ha
    rw [hsupplies] at ha
    cases ha
  | debt =>
    change a ∈ s.lending.debts.assets u at ha
    rw [hdebts] at ha
    cases ha

theorem reached_pooled {ok : Chain A → Action A → Prop} (h : Reached cfg ok s) : Pooled s :=
  h.invariant (fun _ _ => genesis_pooled) (fun _ _ _ h _ => step_pooled h)

/-! ## The bound -/

theorem genesis_made {g : Genesis A} (h : genesis .release g = some s) (hb : (s.lending.pools b).isSome) :
    b ∈ g.pools := by
  obtain ⟨assets, _, h⟩ := Option.bind_eq_some_iff.mp h
  cases h
  rw [genesisPools_pools] at hb
  by_contra hnot
  rw [if_neg hnot] at hb
  cases hb

/-- **The lists of a user are bounded.** After any actions, on each side: the list of a user names no asset twice, every
asset on it has a pool, and it is no longer than the list of pools of the genesis and the `init_pool` calls together. -/
theorem lists_bounded {g : Genesis A} {actions : List (Action A)} (h : play cfg .release g actions = some t)
    (side : Side) (u : A) :
    ((t.lending.book side).assets u).Nodup ∧ (∀ a ∈ (t.lending.book side).assets u, (t.lending.pools a).isSome) ∧
      ((t.lending.book side).assets u).length ≤ g.pools.length + (actions.filterMap made).length := by
  obtain ⟨s, hs, hexec⟩ := Option.bind_eq_some_iff.mp h
  have hreached : Reached cfg (fun _ _ => True) t := ⟨g, s, hs, run_of_exec_all hexec⟩
  have hnodup := (reached_listed hreached side).nodup u
  have hpooled := reached_pooled hreached side u
  refine ⟨hnodup, hpooled, ?_⟩
  rw [← List.length_append]
  apply hnodup.length_le_of_subset
  intro a ha
  rcases exec_pools hexec (hpooled a ha) with hgenesis | hmade
  · exact List.mem_append_left _ (genesis_made hs hgenesis)
  · exact List.mem_append_right _ hmade

/-- User `1` supplies to a pool of the genesis and to one made later. -/
theorem lists_bounded_mock : ∃ t, play mockConfig .release mockGenesis
      [.advance 1, .call (.signed 1) (.lending (.supply 0 200000)), .call (.signed 1) (.lending (.initPool 1 true)),
        .call (.signed 1) (.lending (.supply 1 100000))] = some t ∧
    t.lending.supplies.assets 1 = [0, 1] ∧ (t.lending.supplies.assets 1).length ≤ mockGenesis.pools.length + 1 := by
  obtain ⟨t, ht, hlist⟩ : ∃ t, play mockConfig .release mockGenesis
      [.advance 1, .call (.signed 1) (.lending (.supply 0 200000)), .call (.signed 1) (.lending (.initPool 1 true)),
        .call (.signed 1) (.lending (.supply 1 100000))] = some t ∧ t.lending.supplies.assets 1 = [0, 1] :=
    ⟨_, rfl, rfl⟩
  exact ⟨t, ht, hlist, (lists_bounded ht .supply 1).2.2⟩

end Konomi.Lending
