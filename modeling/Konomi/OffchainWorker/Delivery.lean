import Konomi.OffchainWorker.Members
import Konomi.OffchainWorker.Spacing

/-!
# What becomes of a sent price

Workers read the chain after a block and send what they fetched; their transactions are executed some blocks later, in
any order, once or in many copies. A sent transaction stays valid until an update is executed, and no longer
(`sent_valid_iff`), so of all that is sent on one block exactly one is executed (`sent_executed_once`).

The price of the chain is what the last executed update reported, to the cent (`price_reported`).
-/

namespace Konomi.OffchainWorker
open Machine

variable {A : Type} [DecidableEq A] {params : Parameters} {p : Profile} {cfg : Config A} {s t u : Storage A}
  {action : Action A} {actions : List (Action A)} {blocks : List BlockNumber} {n : BlockNumber} {x : BitVec 32}
  {r : Except DispatchError Unit}

/-! ## The bound along a run -/

theorem step_block (h : step params p s cfg action = some t) : s.chain.blockNumber ≤ t.chain.blockNumber := by
  cases action with
  | advance n =>
    change (if s.chain.blockNumber ≤ n then some _ else none) = some t at h
    split at h
    · cases h
      assumption
    · cases h
  | submit origin n x =>
    rcases step_cases h with ⟨_, hupdate⟩ | ⟨_, _⟩
    · exact BitVec.le_of_eq hupdate.block.symm
    · change (if admitted params s origin n x then _ else some s) = some t at h
      split at h
      · obtain ⟨⟨r, t'⟩, hsubmit, rfl⟩ := Option.map_eq_some_iff.mp h
        cases origin with
        | none => exact BitVec.le_of_eq (submit_update ‹_› hsubmit).block.symm
        | root =>
          cases hsubmit
          exact BitVec.le_refl _
        | signed v =>
          cases hsubmit
          exact BitVec.le_refl _
      · cases h
        exact BitVec.le_refl _
  | call origin call =>
    obtain ⟨⟨r, s'⟩, hd, rfl⟩ := Option.map_eq_some_iff.mp h
    exact BitVec.le_of_eq (dispatch_blockNumber hd).symm

/-- Where a run with the updates `blocks` leads. -/
structure Onward (params : Parameters) (s t : Storage A) (blocks : List BlockNumber) : Prop where
  block : s.chain.blockNumber ≤ t.chain.blockNumber
  since : ∀ c ∈ blocks, s.chain.blockNumber ≤ c
  next : blocks = [] ∧ t.nextUnsignedAt = s.nextUnsignedAt ∨
    ∃ c ∈ blocks, t.nextUnsignedAt.toNat = c.toNat + params.unsignedInterval.toNat

theorem history_onward : ∀ {actions : List (Action A)} {s : Storage A} {blocks : List BlockNumber},
    history params p cfg s actions = some (t, blocks) →
    (∀ c ∈ blocks, c.toNat + params.unsignedInterval.toNat < 2 ^ 32) → Onward params s t blocks := by
  intro actions
  induction actions with
  | nil =>
    intro s blocks h _
    cases h
    exact ⟨BitVec.le_refl _, fun _ hc => absurd hc List.not_mem_nil, Or.inl ⟨rfl, rfl⟩⟩
  | cons action actions ih =>
    intro s blocks h hfits
    obtain ⟨u, rest, hstep, hrest, rfl⟩ := history_cons h
    obtain ⟨hblock, hsince, hnext⟩ := ih hrest fun c hc => hfits c (List.mem_append_right _ hc)
    have hfirst := step_block hstep
    refine ⟨BitVec.le_trans hfirst hblock, ?_, ?_⟩
    · intro c hc
      rcases List.mem_append.mp hc with hc | hc
      · rcases step_cases hstep with ⟨hupdates, _⟩ | ⟨hupdates, _⟩
        · rw [hupdates, List.mem_singleton] at hc
          exact BitVec.le_of_eq hc.symm
        · rw [hupdates] at hc
          cases hc
      · exact BitVec.le_trans hfirst (hsince c hc)
    · rcases hnext with ⟨rfl, hnext⟩ | ⟨c, hc, hnext⟩
      · rcases step_cases hstep with ⟨hupdates, hupdate⟩ | ⟨hupdates, hsame⟩
        · rw [hupdates] at hfits ⊢
          refine Or.inr ⟨s.chain.blockNumber, List.mem_cons_self, ?_⟩
          rw [hnext]
          exact hupdate.toNat_next (hfits _ List.mem_cons_self)
        · exact Or.inl ⟨by rw [hupdates]; rfl, hnext.trans hsame⟩
      · exact Or.inr ⟨c, List.mem_append_right _ hc, hnext⟩

/-! ## Sent transactions -/

section Sent
variable {parseJson : String → Option JsonValue} {request : Except HttpError Response} {call : Call}

omit [DecidableEq A] in
theorem sent_cases (h : fetchPriceAndSendRawUnsigned parseJson p s.nextUnsignedAt n request = some (.ok call)) :
    s.nextUnsignedAt ≤ n ∧ ∃ x, call = .submitPriceUnsigned n x := by
  unfold fetchPriceAndSendRawUnsigned at h
  split at h
  · cases h
  · rename_i hdue
    obtain ⟨fetched, _, h⟩ := Option.bind_eq_some_iff.mp h
    cases fetched with
    | error e => cases h
    | ok price =>
      cases h
      exact ⟨BitVec.not_lt.mp hdue, price, rfl⟩

omit [DecidableEq A] in
theorem sent_of_response {next : BlockNumber} {text : String} (hdue : next ≤ n)
    (hprice : parsePrice parseJson p text = some (some x)) :
    fetchPriceAndSendRawUnsigned parseJson p next n (.ok ⟨200, text.toUTF8⟩) =
      some (.ok (.submitPriceUnsigned n x)) := by
  have htext : String.fromUTF8? text.toUTF8 = some text := dif_pos text.isValidUTF8
  unfold fetchPriceAndSendRawUnsigned fetchPrice
  dsimp only
  rw [if_neg (BitVec.not_lt.mpr hdue), if_neg (not_not.mpr rfl), htext]
  dsimp only
  rw [hprice]
  rfl

omit [DecidableEq A] in
theorem valid_iff : (∃ valid, validateUnsigned params s (.submitPriceUnsigned n x) = .ok valid) ↔
    s.nextUnsignedAt ≤ n ∧ n ≤ s.chain.blockNumber := by
  have hadmitted : admitted params s .none n x = true ↔ _ := admitted_iff
  rw [← hadmitted]
  unfold admitted
  dsimp only
  split
  · simp [*]
  · simp [*]

/-- **A sent price stays valid until an update is executed, and is stale from then on.** Whatever happens on the chain
after a worker has read it, as long as no executed update wraps the bound: unsigned submissions with any arguments, other
calls and blocks in any order. -/
theorem sent_valid_iff (hpos : 0 < params.unsignedInterval.toNat)
    (hsent : fetchPriceAndSendRawUnsigned parseJson p s.nextUnsignedAt s.chain.blockNumber request = some (.ok call))
    (h : history params p cfg s actions = some (t, blocks))
    (hfits : ∀ c ∈ blocks, c.toNat + params.unsignedInterval.toNat < 2 ^ 32) :
    (∃ valid, validateUnsigned params t call = .ok valid) ↔ blocks = [] := by
  obtain ⟨hdue, x, rfl⟩ := sent_cases hsent
  obtain ⟨hblock, hsince, hnext⟩ := history_onward h hfits
  rw [valid_iff]
  rcases hnext with ⟨hnone, hnext⟩ | ⟨c, hc, hnext⟩
  · rw [hnext]
    exact ⟨fun _ => hnone, fun _ => ⟨hdue, hblock⟩⟩
  · have hle := BitVec.le_def.mp (hsince c hc)
    refine ⟨fun hvalid => ?_, fun hnone => ?_⟩
    · have hstale := BitVec.le_def.mp hvalid.1
      omega
    · rw [hnone] at hc
      cases hc

end Sent

theorem parsePrice_seven : parsePrice (knows "\x7b\"USD\":7\x7d" (.object [(usd, .number ⟨7, 0, 0, 0⟩)])) .release
    "\x7b\"USD\":7\x7d" = some (some 700) := by
  rw [parsePrice, knows_self]
  rfl

/-- A worker reads block `10`. Two blocks later its price is valid, until the price of another worker is executed. -/
theorem sent_valid_runtime : ∃ (parseJson : String → Option JsonValue) (s t t' : Storage (Fin 4)) (call : Call),
    fetchPriceAndSendRawUnsigned parseJson .release s.nextUnsignedAt s.chain.blockNumber
      (.ok ⟨200, "\x7b\"USD\":7\x7d".toUTF8⟩) = some (.ok call) ∧
    history runtimeParameters .release mockConfig s [.advance 12, .submit .none 13 4] = some (t, []) ∧
    (∃ valid, validateUnsigned runtimeParameters t call = .ok valid) ∧
    history runtimeParameters .release mockConfig s [.advance 12, .submit .none 10 650] = some (t', [12]) ∧
    ¬ ∃ valid, validateUnsigned runtimeParameters t' call = .ok valid := by
  obtain ⟨s₀, s, t, t', hs₀, hs, hnext, hblock, ht, ht'⟩ : ∃ s₀ s t t', genesis .release mockGenesis = some s₀ ∧
      history runtimeParameters .release mockConfig ⟨s₀, 0⟩ [.advance 10] = some (s, []) ∧ s.nextUnsignedAt = 0 ∧
      s.chain.blockNumber = 10 ∧
      history runtimeParameters .release mockConfig s [.advance 12, .submit .none 13 4] = some (t, []) ∧
      history runtimeParameters .release mockConfig s [.advance 12, .submit .none 10 650] = some (t', [12]) :=
    ⟨_, _, _, _, rfl, rfl, rfl, rfl, rfl, rfl⟩
  have hdue : s.nextUnsignedAt ≤ s.chain.blockNumber := by
    rw [hnext, hblock]
    decide
  have hsent := sent_of_response hdue parsePrice_seven
  have hpos : 0 < runtimeParameters.unsignedInterval.toNat := by decide
  refine ⟨_, s, t, t', _, hsent, ht, ?_, ht', ?_⟩
  · exact (sent_valid_iff hpos hsent ht fun c hc => absurd hc List.not_mem_nil).mpr rfl
  · rw [sent_valid_iff hpos hsent ht' (List.forall_mem_singleton.mpr (by decide))]
    exact List.cons_ne_nil _ _

/-! ## One round -/

/-- No unsigned submission of the run carries a block number above `n`. -/
def SentBy (n : BlockNumber) (actions : List (Action A)) : Prop := ∀ m x, .submit .none m x ∈ actions → m ≤ n

omit [DecidableEq A] in
theorem SentBy.tail (h : SentBy n (action :: actions)) : SentBy n actions :=
  fun m x hm => h m x (List.mem_cons_of_mem _ hm)

omit [DecidableEq A] in
/-- A submission that was sent before the bound is not executed. -/
theorem updates_stale (hstale : n < s.nextUnsignedAt) (hsent : ∀ m x, action = .submit .none m x → m ≤ n) :
    updates params s action = [] := by
  cases action with
  | advance m => rfl
  | call origin call => rfl
  | submit origin m x =>
    cases origin with
    | none =>
      refine if_neg fun hadmitted => ?_
      have hbound := (admitted_iff.mp hadmitted).1
      exact BitVec.not_lt.mpr (BitVec.le_trans hbound (hsent m x rfl)) hstale
    | root => rfl
    | signed v => rfl

theorem history_stale : ∀ {actions : List (Action A)} {s : Storage A} {blocks : List BlockNumber},
    history params p cfg s actions = some (t, blocks) → n < s.nextUnsignedAt → SentBy n actions → blocks = [] := by
  intro actions
  induction actions with
  | nil =>
    intro s blocks h _ _
    cases h
    rfl
  | cons action actions ih =>
    intro s blocks h hstale hsent
    obtain ⟨u, rest, hstep, hrest, rfl⟩ := history_cons h
    have hnone : updates params s action = [] :=
      updates_stale hstale fun m x hm => hsent m x (hm ▸ List.mem_cons_self)
    rcases step_cases hstep with ⟨hupdates, _⟩ | ⟨_, hsame⟩
    · rw [hupdates] at hnone
      cases hnone
    · rw [hnone, List.nil_append]
      exact ih hrest (hsame ▸ hstale) hsent.tail

/-- Of the submissions of a round at most one is executed, and one is if there is a valid one. -/
theorem history_round (hpos : 0 < params.unsignedInterval.toNat) :
    ∀ {actions : List (Action A)} {s : Storage A} {blocks : List BlockNumber},
      history params p cfg s actions = some (t, blocks) →
      (∀ c ∈ blocks, c.toNat + params.unsignedInterval.toNat < 2 ^ 32) → n ≤ s.chain.blockNumber → SentBy n actions →
      s.nextUnsignedAt ≤ n → .submit .none n x ∈ actions → blocks.length = 1 := by
  intro actions
  induction actions with
  | nil => exact fun _ _ _ _ _ hmem => absurd hmem List.not_mem_nil
  | cons action actions ih =>
    intro s blocks h hfits hn hsent hdue hmem
    obtain ⟨u, rest, hstep, hrest, rfl⟩ := history_cons h
    rcases step_cases hstep with ⟨hupdates, hupdate⟩ | ⟨hupdates, hsame⟩
    · rw [hupdates] at hfits ⊢
      have hnext := hupdate.toNat_next (hfits _ List.mem_cons_self)
      have hstale : n < u.nextUnsignedAt := by
        rw [BitVec.lt_def, hnext]
        have hle := BitVec.le_def.mp hn
        omega
      rw [history_stale hrest hstale hsent.tail]
      rfl
    · -- the first action executed nothing, so it is not a valid submission
      have hlater : .submit .none n x ∈ actions := by
        rcases List.mem_cons.mp hmem with rfl | hmem
        · have hadmitted : admitted params s .none n x = true := admitted_iff.mpr ⟨hdue, hn⟩
          rw [show updates params s (.submit .none n x) = [s.chain.blockNumber] from if_pos hadmitted] at hupdates
          cases hupdates
        · exact hmem
      rw [hupdates] at hfits ⊢
      exact ih hrest hfits (BitVec.le_trans hn (step_block hstep)) hsent.tail (hsame ▸ hdue) hlater

/-- **What is sent is executed exactly once.** A worker has read the chain and sent its price. In every continuation
that contains the transaction, and any number of transactions that other workers sent on this block or on earlier ones,
copies among them, with other calls and blocks in between, and in which no executed update wraps the bound, exactly one
update is executed. -/
theorem sent_executed_once {parseJson : String → Option JsonValue} {request : Except HttpError Response}
    (hpos : 0 < params.unsignedInterval.toNat)
    (hsent : fetchPriceAndSendRawUnsigned parseJson p s.nextUnsignedAt s.chain.blockNumber request =
      some (.ok (.submitPriceUnsigned n x)))
    (hmem : .submit .none n x ∈ actions)
    (hothers : ∀ m y, .submit .none m y ∈ actions → m ≤ s.chain.blockNumber)
    (h : history params p cfg s actions = some (t, blocks))
    (hfits : ∀ c ∈ blocks, c.toNat + params.unsignedInterval.toNat < 2 ^ 32) : blocks.length = 1 := by
  obtain ⟨hdue, y, hcall⟩ := sent_cases hsent
  cases hcall
  exact history_round hpos h hfits (BitVec.le_refl _) hothers hdue hmem

/-- The prices of two workers and a copy of one, with a block and a loan in between. -/
theorem sent_executed_once_runtime : ∃ (parseJson : String → Option JsonValue) (s t : Storage (Fin 4))
    (blocks : List BlockNumber), fetchPriceAndSendRawUnsigned parseJson .release s.nextUnsignedAt s.chain.blockNumber
      (.ok ⟨200, "\x7b\"USD\":7\x7d".toUTF8⟩) = some (.ok (.submitPriceUnsigned 10 700)) ∧
    history runtimeParameters .release mockConfig s
      [.submit .none 10 650, .call (.signed 2) (.lending (.borrow 0 10)), .submit .none 10 700, .advance 16,
        .submit .none 10 700] = some (t, blocks) ∧ blocks.length = 1 := by
  obtain ⟨s₀, s, t, blocks, hs₀, hs, hnext, hblock, ht, hblocks⟩ : ∃ s₀ s t blocks,
      genesis .release mockGenesis = some s₀ ∧
      history runtimeParameters .release mockConfig ⟨s₀, 0⟩ [.advance 10] = some (s, []) ∧ s.nextUnsignedAt = 0 ∧
      s.chain.blockNumber = 10 ∧ history runtimeParameters .release mockConfig s
        [.submit .none 10 650, .call (.signed 2) (.lending (.borrow 0 10)), .submit .none 10 700, .advance 16,
          .submit .none 10 700] = some (t, blocks) ∧ blocks = [10] :=
    ⟨_, _, _, _, rfl, rfl, rfl, rfl, rfl, rfl⟩
  have hdue : s.nextUnsignedAt ≤ s.chain.blockNumber := by
    rw [hnext, hblock]
    decide
  have hsent := sent_of_response hdue parsePrice_seven
  rw [hblock] at hsent
  refine ⟨_, s, t, blocks, by rw [hblock]; exact hsent, ht, sent_executed_once (by decide) (by rw [hblock]; exact hsent)
    (List.mem_cons_of_mem _ (List.mem_cons_of_mem _ List.mem_cons_self)) ?_ ht ?_⟩
  · intro m y hm
    rw [hblock]
    simp only [List.mem_cons, Action.submit.injEq, List.not_mem_nil, reduceCtorEq, false_or, or_false, true_and] at hm
    rcases hm with ⟨rfl, _⟩ | ⟨rfl, _⟩ | ⟨rfl, _⟩ <;> exact BitVec.le_refl _
  · rw [hblocks]
    exact List.forall_mem_singleton.mpr (by decide)

/-! ## The price of the chain -/

omit [DecidableEq A] in
theorem submit_rate (h : submitPriceUnsigned params p s .none n x = some (r, t)) :
    (t.chain.assets.getRate 4).toNat = x.toNat * 10 ^ 16 ∧
      ∀ id, id ≠ 4 → t.chain.assets.getRate id = s.chain.assets.getRate id := by
  obtain ⟨price, hprice, h⟩ := Option.bind_eq_some_iff.mp h
  obtain ⟨next, _, h⟩ := Option.bind_eq_some_iff.mp h
  cases h
  refine ⟨?_, fun id hid => Function.update_of_ne hid ..⟩
  have hx : x.toNat < 2 ^ 32 := x.isLt
  have hcents : (x.setWidth 128).toNat = x.toNat := by
    rw [BitVec.toNat_setWidth, Nat.mod_eq_of_lt (by omega)]
  show (Function.update s.chain.assets.price 4 price 4).toNat = _
  rw [Function.update_self, (Fixed.toNat_fromRational hprice).2, hcents]
  have hexact : rounded 128 (x.toNat * accuracy) (100 : BitVec 128).toNat = x.toNat * 10 ^ 16 := by
    rw [show x.toNat * accuracy = (100 : BitVec 128).toNat * (x.toNat * 10 ^ 16) from by
      change x.toNat * 10 ^ 18 = 100 * (x.toNat * 10 ^ 16)
      ring]
    exact rounded_mul 128 _ (by decide)
  rw [hexact]
  omega

/-- The root sets the price of `id` at no point of the run. -/
def NotSet (id : AssetId) (actions : List (Action A)) : Prop :=
  ∀ price, .call .root (.assets (.setPrice id price)) ∉ actions

theorem step_rate (h : step params p s cfg action = some t) :
    (updates params s action = [] ∧ ∀ id, NotSet id [action] → t.chain.assets.getRate id = s.chain.assets.getRate id) ∨
      ∃ n x, action = .submit .none n x ∧ admitted params s .none n x = true ∧
        updates params s action = [s.chain.blockNumber] ∧ (t.chain.assets.getRate 4).toNat = x.toNat * 10 ^ 16 ∧
        ∀ id, id ≠ 4 → t.chain.assets.getRate id = s.chain.assets.getRate id := by
  cases action with
  | advance n =>
    change (if s.chain.blockNumber ≤ n then some _ else none) = some t at h
    split at h
    · cases h
      exact Or.inl ⟨rfl, fun _ _ => rfl⟩
    · cases h
  | submit origin n x =>
    change (if admitted params s origin n x then _ else some s) = some t at h
    split at h
    · rename_i hadmitted
      obtain ⟨⟨r, t'⟩, hsubmit, rfl⟩ := Option.map_eq_some_iff.mp h
      cases origin with
      | none =>
        obtain ⟨hrate, hothers⟩ := submit_rate hsubmit
        exact Or.inr ⟨n, x, rfl, hadmitted, if_pos hadmitted, hrate, hothers⟩
      | root =>
        cases hsubmit
        exact Or.inl ⟨rfl, fun _ _ => rfl⟩
      | signed v =>
        cases hsubmit
        exact Or.inl ⟨rfl, fun _ _ => rfl⟩
    · rename_i hrefused
      cases h
      refine Or.inl ⟨?_, fun _ _ => rfl⟩
      cases origin with
      | none => exact if_neg hrefused
      | root => rfl
      | signed v => rfl
  | call origin call =>
    obtain ⟨⟨r, s'⟩, hd, rfl⟩ := Option.map_eq_some_iff.mp h
    refine Or.inl ⟨rfl, fun id hid => price_of_dispatch hd ?_⟩
    rintro price rfl rfl
    exact hid price List.mem_cons_self

omit [DecidableEq A] in
theorem NotSet.head {id : AssetId} (h : NotSet id (action :: actions)) : NotSet id [action] :=
  fun price hmem => h price (List.mem_cons.mpr (Or.inl (List.mem_singleton.mp hmem)))

omit [DecidableEq A] in
theorem NotSet.tail {id : AssetId} (h : NotSet id (action :: actions)) : NotSet id actions :=
  fun price hmem => h price (List.mem_cons_of_mem _ hmem)

/-- Where the price of asset `4` comes from: it was there, or it is the one that the last executed update reported. -/
theorem history_rate : ∀ {actions : List (Action A)} {s : Storage A} {blocks : List BlockNumber},
    history params p cfg s actions = some (t, blocks) → NotSet 4 actions →
    (blocks = [] ∧ t.chain.assets.getRate 4 = s.chain.assets.getRate 4) ∨
      ∃ before after n x u earlier, actions = before ++ .submit .none n x :: after ∧
        history params p cfg s before = some (u, earlier) ∧ admitted params u .none n x = true ∧
        blocks = earlier ++ [u.chain.blockNumber] ∧ (t.chain.assets.getRate 4).toNat = x.toNat * 10 ^ 16 := by
  intro actions
  induction actions with
  | nil =>
    intro s blocks h _
    cases h
    exact Or.inl ⟨rfl, rfl⟩
  | cons action actions ih =>
    intro s blocks h hroot
    obtain ⟨u, rest, hstep, hrest, rfl⟩ := history_cons h
    rcases ih hrest hroot.tail with ⟨rfl, hrate⟩ | ⟨before, after, n, x, v, earlier, rfl, hbefore, hadmitted, rfl, hrate⟩
    · rcases step_rate hstep with ⟨hupdates, hsame⟩ | ⟨n, x, rfl, hadmitted, hupdates, hnew, _⟩
      · exact Or.inl ⟨by rw [hupdates]; rfl, hrate.trans (hsame 4 hroot.head)⟩
      · refine Or.inr ⟨[], actions, n, x, s, [], rfl, rfl, hadmitted, by rw [hupdates]; rfl, ?_⟩
        rw [hrate]
        exact hnew
    · refine Or.inr ⟨action :: before, after, n, x, v, updates params s action ++ earlier, rfl, ?_, hadmitted,
        (List.append_assoc ..).symm, hrate⟩
      exact Option.bind_eq_some_iff.mpr ⟨u, hstep, Option.bind_eq_some_iff.mpr ⟨_, hbefore, rfl⟩⟩

theorem history_others {id : AssetId} (hid : id ≠ 4) : ∀ {actions : List (Action A)} {s : Storage A}
    {blocks : List BlockNumber}, history params p cfg s actions = some (t, blocks) → NotSet id actions →
    t.chain.assets.getRate id = s.chain.assets.getRate id := by
  intro actions
  induction actions with
  | nil =>
    intro s blocks h _
    cases h
    rfl
  | cons action actions ih =>
    intro s blocks h hroot
    obtain ⟨u, rest, hstep, hrest, rfl⟩ := history_cons h
    refine (ih hrest hroot.tail).trans ?_
    rcases step_rate hstep with ⟨_, hsame⟩ | ⟨n, x, _, _, _, _, hothers⟩
    · exact hsame id hroot.head
    · exact hothers id hid

/-- **The oracle reports the last executed update, to the cent.** Over every run in which the root does not set the price
of asset `4`, whatever else happens on the chain: if updates have been executed, then the price that the lending pallet
reads is exactly a hundredth of the cents of the last one, which was valid when it was executed; if none has, it is the
one from before. A price other than that of asset `4` changes only when the root sets it. -/
theorem price_reported (h : history params p cfg s actions = some (t, blocks)) (hroot : NotSet 4 actions) :
    ((blocks = [] ∧ t.chain.assets.getRate 4 = s.chain.assets.getRate 4) ∨
      ∃ before after n x u earlier, actions = before ++ .submit .none n x :: after ∧
        history params p cfg s before = some (u, earlier) ∧ admitted params u .none n x = true ∧
        blocks = earlier ++ [u.chain.blockNumber] ∧ (t.chain.assets.getRate 4).toNat * 100 = x.toNat * accuracy) ∧
    ∀ id, id ≠ 4 → NotSet id actions → t.chain.assets.getRate id = s.chain.assets.getRate id := by
  refine ⟨?_, fun id hid hset => history_others hid h hset⟩
  rcases history_rate h hroot with hnone | ⟨before, after, n, x, u, earlier, hactions, hbefore, hadmitted, hblocks, hrate⟩
  · exact Or.inl hnone
  · refine Or.inr ⟨before, after, n, x, u, earlier, hactions, hbefore, hadmitted, hblocks, ?_⟩
    rw [hrate]
    unfold accuracy
    omega

/-- Two updates, of which the second is executed four blocks after the first, and a stale copy of the first. -/
theorem price_reported_runtime : ∃ s t, history runtimeParameters .release mockConfig s
      [.submit .none 10 1920345, .advance 14, .submit .none 14 1920000, .submit .none 10 1920345] =
        some (t, [10, 14]) ∧ (t.chain.assets.getRate 4).toNat = 19200 * accuracy ∧
      (∃ x : BitVec 32, (t.chain.assets.getRate 4).toNat * 100 = x.toNat * accuracy) ∧
      t.chain.assets.getRate 1 = s.chain.assets.getRate 1 := by
  obtain ⟨s₀, s, t, hs₀, hs, ht, hrate⟩ : ∃ s₀ s t, genesis .release mockGenesis = some s₀ ∧
      history runtimeParameters .release mockConfig ⟨s₀, 0⟩ [.advance 10] = some (s, []) ∧
      history runtimeParameters .release mockConfig s
        [.submit .none 10 1920345, .advance 14, .submit .none 14 1920000, .submit .none 10 1920345] =
          some (t, [10, 14]) ∧ (t.chain.assets.getRate 4).toNat = 19200 * accuracy :=
    ⟨_, _, _, rfl, rfl, rfl, rfl⟩
  obtain ⟨hlast, hothers⟩ := price_reported ht fun price hmem => by simp at hmem
  refine ⟨s, t, ht, hrate, ?_, hothers 1 (by decide) fun price hmem => by simp at hmem⟩
  rcases hlast with ⟨hnone, _⟩ | ⟨_, _, _, x, _, _, _, _, _, _, hx⟩
  · cases hnone
  · exact ⟨x, hx⟩

end Konomi.OffchainWorker
