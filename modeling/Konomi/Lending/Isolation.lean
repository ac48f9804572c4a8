import Konomi.Blocks
import Konomi.Lending.Health

/-!
# What other accounts can do to a position

Within a block, calls of other accounts leave the lists and the values of the positions of `u` as they were (`Unmoved`):
they accrue pools, which stores the index at which `u` was valued anyway, and an attempt to liquidate `u` rewrites its
records at their values. Health is a function of these values, the prices and the threshold, so an account that is
healthy cannot be liquidated, however the others order their calls, before the next block or a new price
(`healthy_stays`).
-/

namespace Konomi
open Machine

variable {A : Type} [DecidableEq A]

/-! ## Lists of others -/

namespace Book
variable {p : Profile} {b b' : Book A} {I : FixedU128} {a : AssetId} {u v : A} {x : Balance}

theorem put_assets_of_ne (b : Book A) (I : FixedU128) (a : AssetId) (x : Balance) (h : v ≠ u) :
    (b.put I a u x).assets v = b.assets v := by
  unfold put
  split
  · rfl
  · exact Function.update_of_ne h ..

theorem enlist_assets_of_ne (b : Book A) (a : AssetId) (h : v ≠ u) : (b.enlist a u).assets v = b.assets v := by
  unfold enlist
  split
  · rfl
  · exact Function.update_of_ne h ..

end Book

namespace Lending
variable {cfg : Config A} {s s' s'' : Chain A} {u v : A} {a b : AssetId} {side : Side} {pool q : Pool}
  {info info' : Balance × Balance × Balance}

/-! ## Storage that follows -/

section Follows
variable {P : AssetId → Prop}

omit [DecidableEq A] in
theorem Follows.accrues (h : Follows P s s') (hacc : AccruesTo s b pool q) :
    ∃ pool' q', AccruesTo s' b pool' q' ∧ ∀ side, q'.index side = q.index side := by
  rcases h.pools b with hsame | ⟨_, pool₁, q₁, q', hacc₁, hq', htotal⟩
  · exact ⟨pool, q, ⟨hsame.trans hacc.stored, by rw [h.block]; exact hacc.accrues⟩, fun _ => rfl⟩
  · cases hacc₁.stored.symm.trans hacc.stored
    cases hacc₁.accrues.symm.trans hacc.accrues
    have hlast : q'.lastUpdated = s'.blockNumber := by
      rw [htotal, h.block]
      exact accrueInterest_lastUpdated (q := q) hacc.accrues
    refine ⟨q', q', ⟨hq', accrueInterest_self hlast⟩, fun side => ?_⟩
    rw [htotal]
    cases side <;> rfl

omit [DecidableEq A] in
theorem Follows.accrued_from (h : Follows P s s') {pool' q' : Pool} (hacc : AccruesTo s' b pool' q') :
    ∃ pool q, AccruesTo s b pool q ∧ q' = { q with supply := q'.supply, debt := q'.debt } := by
  rcases h.pools b with hsame | ⟨_, pool, q, q₁, hacc₁, hq₁, htotal⟩
  · exact ⟨pool', q', ⟨hsame.symm.trans hacc.stored, by rw [← h.block]; exact hacc.accrues⟩, rfl⟩
  · cases hq₁.symm.trans hacc.stored
    have hlast : pool'.lastUpdated = s'.blockNumber := by
      rw [htotal, h.block]
      exact accrueInterest_lastUpdated (q := q) hacc₁.accrues
    cases (accrueInterest_self hlast).symm.trans hacc.accrues
    exact ⟨pool, q, hacc₁, htotal⟩

omit [DecidableEq A] in
theorem Follows.trans (h : Follows P s s') (h' : Follows P s' s'') : Follows P s s'' := by
  refine ⟨h'.block.trans h.block, h'.threshold.trans h.threshold, fun b => ?_, fun side b v user hr => ?_⟩
  · rcases h'.pools b with hsame | ⟨hP, pool', q', q'', hacc', hq'', htotal⟩
    · rcases h.pools b with hsame' | ⟨hP, pool, q, q', hacc, hq', htotal⟩
      · exact Or.inl (hsame.trans hsame')
      · exact Or.inr ⟨hP, pool, q, q', hacc, hsame.trans hq', htotal⟩
    · obtain ⟨pool, q, hacc, hq'⟩ := h.accrued_from hacc'
      refine Or.inr ⟨hP, pool, q, q'', hacc, hq'', ?_⟩
      rw [htotal, hq']
  · rcases h'.records side b v user hr with hold | ⟨hP, pool', q', hacc', hindex⟩
    · exact h.records side b v user hold
    · obtain ⟨pool, q, hacc, hq'⟩ := h.accrued_from hacc'
      refine Or.inr ⟨hP, pool, q, hacc, ?_⟩
      rw [hindex, hq']
      cases side <;> rfl

end Follows

/-! ## The positions of one user -/

/-- From `s` to `s'` the positions of `u` are as they were: pools follow, prices and lists stay, and a record of `u` is
the same or was rewritten at its value. -/
structure Unmoved (u : A) (s s' : Chain A) : Prop where
  follows : Follows (fun _ => True) s s'
  price : s'.assets.price = s.assets.price
  lists : ∀ side, (s'.lending.book side).assets u = (s.lending.book side).assets u
  records : ∀ side b, (s'.lending.book side).records (b, u) = (s.lending.book side).records (b, u) ∨
    ∃ pool q w, AccruesTo s b pool q ∧ valueAt .release (q.index side) ((s.lending.book side).records (b, u)) = some w ∧
      (s'.lending.book side).records (b, u) = some ⟨w, q.index side⟩

namespace Unmoved

omit [DecidableEq A] in
theorem refl (u : A) (s : Chain A) : Unmoved u s s :=
  ⟨follows_of_lending rfl rfl, rfl, fun _ => rfl, fun _ _ => Or.inl rfl⟩

omit [DecidableEq A] in
theorem trans (h : Unmoved u s s') (h' : Unmoved u s' s'') : Unmoved u s s'' := by
  refine ⟨h.follows.trans h'.follows, h'.price.trans h.price, fun side => (h'.lists side).trans (h.lists side),
    fun side b => ?_⟩
  rcases h'.records side b with hsame | ⟨pool', q', w, hacc', hw, hrec⟩
  · rw [hsame]
    exact h.records side b
  · obtain ⟨pool, q, hacc, hq'⟩ := h.follows.accrued_from hacc'
    have hindex : q'.index side = q.index side := by
      rw [hq']
      cases side <;> rfl
    rw [hindex] at hw hrec
    rcases h.records side b with hsame | ⟨pool₁, q₁, w₁, hacc₁, hw₁, hrec₁⟩
    · exact Or.inr ⟨pool, q, w, hacc, by rwa [hsame] at hw, hrec⟩
    · cases hacc₁.stored.symm.trans hacc.stored
      cases hacc₁.accrues.symm.trans hacc.accrues
      rw [hrec₁] at hw
      obtain ⟨rfl, _⟩ := valueAt_self hw
      exact Or.inr ⟨pool, q, w, hacc, hw₁, hrec⟩

omit [DecidableEq A] in
theorem view_eq (h : Unmoved u s s') {w w' : Balance} (hw : view .release s b u side = some w)
    (hw' : view .release s' b u side = some w') : w' = w := by
  have haccrued : ∀ {pool q}, AccruesTo s b pool q → w' = w := by
    intro pool q hacc
    obtain ⟨pool', q', hacc', hindex⟩ := h.follows.accrues hacc
    have hbefore := view_value hacc.stored hacc.accrues hw
    have hafter := view_value hacc'.stored hacc'.accrues hw'
    rw [hindex] at hafter
    rcases h.records side b with hsame | ⟨pool₁, q₁, w₁, hacc₁, hw₁, hrec₁⟩
    · rw [hsame] at hafter
      exact Option.some.inj (hafter.symm.trans hbefore)
    · cases hacc₁.stored.symm.trans hacc.stored
      cases hacc₁.accrues.symm.trans hacc.accrues
      rw [hrec₁] at hafter
      rw [(valueAt_self hafter).1]
      exact Option.some.inj (hw₁.symm.trans hbefore)
  rcases h.follows.pools b with hpool | ⟨_, pool, q, _, hacc, _⟩
  · rcases h.records side b with hrec | ⟨pool, q, _, hacc, _⟩
    · rw [view_congr s s' h.follows.block hpool hrec] at hw'
      exact Option.some.inj (hw'.symm.trans hw)
    · exact haccrued hacc
  · exact haccrued hacc

omit [DecidableEq A] in
theorem info_eq (h : Unmoved u s s') (hinfo : getUserInfo .release s u = some info)
    (hinfo' : getUserInfo .release s' u = some info') : info'.2 = info.2 := by
  have hsame : ∀ side, converted info' side = converted info side := fun side =>
    converted_congr hinfo hinfo' (h.lists side) (fun b => h.follows.weight_eq h.price b side)
      fun b w w' hw hw' => h.view_eq hw hw'
  exact Prod.ext (hsame .supply) (hsame .debt)

omit [DecidableEq A] in
theorem healthy (h : Unmoved u s s') (hinfo : getUserInfo .release s u = some info) (hs : Healthy s u) :
    Healthy s' u := by
  intro info' required hinfo' hrequired
  rw [h.info_eq hinfo hinfo', h.follows.threshold] at *
  exact hs info required hinfo hrequired

end Unmoved

/-! ## Calls of others -/

/-- A record that is accrued is the same, or is rewritten at its value. -/
theorem accrue_record_or {bk bk' : Book A} {I : FixedU128} {k : AssetId × A} (h : bk.accrue .release I a v = some bk') :
    bk'.records k = bk.records k ∨ (k = (a, v) ∧ ∃ w, valueAt .release I (bk.records k) = some w ∧
      bk'.records k = some ⟨w, I⟩) := by
  by_cases hk : k = (a, v)
  · subst hk
    obtain ⟨w, hw, ⟨_, rfl⟩ | ⟨_, rfl⟩⟩ := Book.accrue_cases h
    · exact Or.inl rfl
    · exact Or.inr ⟨rfl, w, hw, Function.update_self ..⟩
  · exact Or.inl (Book.accrue_records_of_ne h (show (k.1, k.2) ≠ (a, v) from hk))

theorem unmoved_of_touched (u : A) (hfollows : Follows (fun _ => True) s s') (hprice : s'.assets.price = s.assets.price)
    (ht : ∀ side, Touched .release s s' side) : Unmoved u s s' := by
  refine ⟨hfollows, hprice, fun side => assets_of_touched (ht side) u, fun side b => ?_⟩
  rcases ht side with hsame | ⟨a, v, pool, q, hpool, hq, hbook⟩
  · rw [hsame]
    exact Or.inl rfl
  · rcases accrue_record_or hbook with hsame | ⟨hk, w, hw, hrec⟩
    · exact Or.inl hsame
    · obtain ⟨rfl, _⟩ := Prod.mk.inj hk
      exact Or.inr ⟨pool, q, w, ⟨hpool, hq⟩, hw, hrec⟩

theorem Posting.unmoved {positive : Bool} {x : Balance} (d : Posting cfg .release s v side positive a x) (hu : u ≠ v) :
    Unmoved u s d.result := by
  refine ⟨d.follows trivial, price_of_transfer d.pays, fun side' => ?_, fun side' b => Or.inl ?_⟩
  · rw [d.result_book]
    split
    · rename_i hside
      subst hside
      unfold Posting.book'
      dsimp only
      split
      · rw [Book.enlist_assets_of_ne _ _ hu, Book.put_assets_of_ne _ _ _ _ hu]
      · exact Book.put_assets_of_ne _ _ _ _ hu
    · rfl
  · exact d.records_other fun h => hu h.2.1

theorem Settlement.unmoved {t : A} {payId getId : AssetId} {x : Balance}
    (d : Settlement cfg .release s v t payId getId x) (hu : u ≠ t) : Unmoved u s d.result := by
  refine ⟨d.follows fun _ _ => trivial, (price_of_transfer d.seizes).trans (price_of_transfer d.pays), fun side => ?_,
    fun side b => Or.inl (d.records_other (fun h => hu h.2.1) fun h => hu h.2.1)⟩
  cases side with
  | supply => exact Book.put_assets_of_ne s.lending.supplies _ _ _ hu
  | debt => exact Book.put_assets_of_ne s.lending.debts _ _ _ hu

theorem Terms.not_healthy {payId getId : AssetId} {x : Balance} (d : Terms .release s u payId getId x) :
    ¬ Healthy s u := by
  intro h
  obtain ⟨info, required, hinfo, hrequired, hbelow⟩ := d.below
  refine hbelow (h info required ?_ hrequired)
  exact getUserInfo_of_touched s { s with lending := d.toAssessment.lending } rfl rfl rfl (d.toAssessment.touched rfl)
    hinfo

/-- A call of another account, also an attempt to liquidate `u` while it is healthy. -/
theorem Step.unmoved {call : Call A} {r : Except DispatchError Unit} (h : Step cfg .release s v call r s') (hu : u ≠ v)
    (hhealthy : Healthy s u) : Unmoved u s s' := by
  cases h with
  | refused => exact Unmoved.refl u s
  | @touched _ side positive a x pool accrued bk e entry stored accrues book =>
    refine unmoved_of_touched u ?_ rfl (touched_setBook stored accrues book)
    refine follows_of_touched rfl (by cases side <;> rfl) (pools_setBook ..) fun side' => ?_
    exact (touched_setBook stored accrues book side').imp id fun ⟨a, u, pool, q, hpool, hq, hbook⟩ =>
      ⟨a, u, pool, q, trivial, ⟨hpool, hq⟩, hbook⟩
  | posted side positive entry d => exact d.unmoved hu
  | assessed e d => exact unmoved_of_touched u (d.follows (fun _ _ => trivial) rfl rfl) rfl (d.touched rfl)
  | @halfway t payId getId x assets m e d pays refuses =>
    exact unmoved_of_touched u (d.follows (fun _ _ => trivial) rfl rfl) (price_of_transfer pays) (d.touched rfl)
  | @settled t payId getId x d =>
    by_cases ht : u = t
    · subst ht
      exact absurd hhealthy d.toTerms.not_healthy
    · exact d.unmoved ht

/-! ## Runs of others -/

/-- Calls of other accounts in one block that neither make a pool anew nor set a price. -/
def Elsewhere (u : A) : Action A → Prop
  | .advance _ => False
  | .call origin call => origin ≠ .signed u ∧
      match call with
      | .lending (.initPool _ _) => False
      | .assets (.setPrice _ _) => origin ≠ .root
      | _ => True

theorem step_unmoved {l : Action A} (hl : Elsewhere u l) (hhealthy : Healthy s u)
    (h : step cfg .release s l = some s') : Unmoved u s s' := by
  rcases step_cases h with ⟨n, rfl, _, _⟩ | ⟨origin, c, r, rfl, hd⟩ | ⟨origin, c, r, rfl, hother, hd, hlending, hblock⟩
  · exact hl.elim
  · rcases dispatch_cases hd with ⟨v, rfl, hstep⟩ | ⟨_, rfl⟩ | ⟨id, can, rfl, _, rfl⟩
    · exact hstep.unmoved (fun hu => hl.1 (by rw [hu])) hhealthy
    · exact Unmoved.refl u _
    · exact hl.2.elim
  · refine ⟨follows_of_lending hlending hblock, funext fun id => price_of_dispatch hd ?_,
      fun side => by rw [hlending], fun side b => Or.inl (by rw [hlending])⟩
    rintro price rfl
    exact hl.2

/-- **Nobody else can move a healthy position within a block.** From any state in which the totals of `u` are defined
and cover its debts, after any run of calls of other accounts in the same block, at the same prices and pools: every
view of a position of `u` and both of its totals are as they were, and every attempt to liquidate it is refused. -/
theorem healthy_stays {t : Chain A} (hinfo : getUserInfo .release s u = some info) (hhealthy : Healthy s u)
    (h : Run (step cfg .release) (fun _ => Elsewhere u) s t) :
    NotLiquidatable cfg t u ∧
    (∀ b side w w', view .release s b u side = some w → view .release t b u side = some w' → w' = w) ∧
    ∀ info', getUserInfo .release t u = some info' → info'.2 = info.2 := by
  have hrun : Unmoved u s t := h.invariant (Unmoved.refl u s) fun t l t' ht hl hstep =>
    ht.trans (step_unmoved hl (ht.healthy hinfo hhealthy) hstep)
  exact ⟨(hrun.healthy hinfo hhealthy).notLiquidatable, fun b side w w' => hrun.view_eq, fun info' => hrun.info_eq hinfo⟩

/-- A thousand blocks after user `2` has borrowed, user `1` supplies, tries to liquidate it and withdraws. -/
theorem healthy_stays_mock : ∃ s t info, play mockConfig .release mockGenesis
      [.advance 1, .call (.signed 1) (.lending (.supply 0 100000)), .call (.signed 2) (.lending (.supply 1 100000)),
        .call (.signed 2) (.lending (.borrow 0 10000)), .advance 1001] = some s ∧
    getUserInfo .release s 2 = some info ∧ 0 < info.2.2 ∧ Run (step mockConfig .release) (fun _ => Elsewhere 2) s t ∧
    NotLiquidatable mockConfig t 2 := by
  have hplay : ∃ s s₁ s₂ t info, play mockConfig .release mockGenesis
        [.advance 1, .call (.signed 1) (.lending (.supply 0 100000)), .call (.signed 2) (.lending (.supply 1 100000)),
          .call (.signed 2) (.lending (.borrow 0 10000)), .advance 1001] = some s ∧
      step mockConfig .release s (.call (.signed 1) (.lending (.supply 0 1000))) = some s₁ ∧
      step mockConfig .release s₁ (.call (.signed 1) (.lending (.liquidate 2 0 1 500))) = some s₂ ∧
      step mockConfig .release s₂ (.call (.signed 1) (.lending (.withdraw 0 2000))) = some t ∧
      getUserInfo .release s 2 = some info ∧ worth s.lending.liquidationThreshold info.2.2 ≤ info.2.1 ∧
      0 < info.2.2 :=
    ⟨_, _, _, _, _, rfl, rfl, rfl, rfl, rfl, by decide, by decide⟩
  obtain ⟨s, s₁, s₂, t, info, hs, hsupply, hliquidate, hwithdraw, hinfo, hcovered, hdebt⟩ := hplay
  have hsigner : Origin.signed (1 : Fin 4) ≠ .signed 2 := by decide
  have hrun : Run (step mockConfig .release) (fun _ => Elsewhere 2) s t :=
    ((Run.refl.tail (l := .call _ (.lending (.supply _ _))) ⟨hsigner, trivial⟩ hsupply).tail
      (l := .call _ (.lending (.liquidate _ _ _ _))) ⟨hsigner, trivial⟩ hliquidate).tail
      (l := .call _ (.lending (.withdraw _ _))) ⟨hsigner, trivial⟩ hwithdraw
  exact ⟨s, t, info, hs, hinfo, hdebt, hrun, (healthy_stays hinfo ((healthy_iff hinfo).mpr hcovered) hrun).1⟩

end Lending

end Konomi
