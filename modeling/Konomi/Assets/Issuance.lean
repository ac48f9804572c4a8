import Konomi.Blocks

/-!
# What genesis grants, and that nothing is minted after

Every entry of the genesis configuration issues one asset: the next id, all of it to the account of the entry, of which
`500000` go to the owner of the pallet if the account has as much, and the price of the entry (`genesis_entry`). After
that the total supply of an asset only falls, and only by `destroy` calls (`supply_never_grows`).
-/

namespace Konomi.Assets
open Machine

variable {A : Type} [DecidableEq A] {cfg : Config A} {p : Profile} {st st' st₁ st₂ : Assets A} {account : A}
  {amount : Balance} {price : BitVec 64} {id : AssetId}

/-! ## Genesis -/

/-- What an account has of an asset that genesis has issued to `account`. -/
def granted (owner account : A) (amount : Balance) (u : A) : Balance :=
  if amount < 500000 ∨ account = owner then
    if u = account then amount else 0
  else if u = account then amount - 500000
  else if u = owner then 500000
  else 0

theorem grant_transfer (hsole : ∀ u, st₁.balances (id, u) = if u = account then amount else 0)
    (h : st₁.transferDropped p account id st₁.owner 500000 = some st₂) :
    (∀ u, st₂.balances (id, u) = granted st₁.owner account amount u) ∧
      ∀ id', id' ≠ id → ∀ u, st₂.balances (id', u) = st₁.balances (id', u) := by
  have hcovered : st₁.Covered account id 500000 ↔ ¬ amount < 500000 := by
    unfold Covered
    rw [hsole account, if_pos rfl, BitVec.not_lt]
    exact ⟨fun hc => hc.2, fun hle => ⟨by decide, hle⟩⟩
  obtain ⟨r, hr, h⟩ := Option.bind_eq_some_iff.mp h
  cases r with
  | error e =>
    cases h
    refine ⟨fun u => ?_, fun _ _ _ => rfl⟩
    rw [hsole, granted, if_pos (Or.inl (not_not.mp (mt hcovered.mpr (transfer_error hr))))]
  | ok st =>
    cases h
    have hlarge := hcovered.mp (transfer_ok hr).1
    rw [transfer_balances hr]
    refine ⟨fun u => ?_, fun id' hid u => ?_⟩
    · dsimp only
      rw [hsole, granted]
      by_cases howner : account = st₁.owner
      · rw [if_pos (Or.inr howner), ← howner]
        by_cases hu : u = account
        · rw [hu, if_pos rfl, if_pos rfl]
          exact BitVec.sub_add_cancel _ _
        · rw [if_neg hu, if_neg (fun he => hu (Prod.mk.inj he).2)]
          rfl
      · rw [if_neg (not_or.mpr ⟨hlarge, howner⟩)]
        by_cases hu : u = account
        · rw [if_pos hu, if_pos hu, if_pos (by rw [hu]), if_neg (fun he => howner (hu ▸ (Prod.mk.inj he).2))]
          exact BitVec.add_zero _
        · rw [if_neg hu, if_neg hu, if_neg (fun he => hu (Prod.mk.inj he).2)]
          by_cases hu' : u = st₁.owner
          · rw [if_pos (by rw [hu']), if_pos hu']
            rfl
          · rw [if_neg (fun he => hu' (Prod.mk.inj he).2), if_neg hu']
            rfl
    · dsimp only
      rw [if_neg (fun he => hid (Prod.mk.inj he).1), if_neg (fun he => hid (Prod.mk.inj he).1)]
      exact (BitVec.add_zero _).trans (BitVec.sub_zero _)

/-- Nobody has any of an asset that has not been issued. -/
def Unissued (st : Assets A) : Prop := ∀ id, st.nextAssetId ≤ id → ∀ u, st.balances (id, u) = 0

/-- The asset `id` of `st`, as the entry of the configuration has it. -/
structure Entry (st : Assets A) (id : AssetId) (account : A) (amount : Balance) (price : BitVec 64) : Prop where
  supply : st.totalSupply id = amount
  rate : (st.getRate id).toNat = price.toNat * accuracy
  balances : ∀ u, st.balances (id, u) = granted st.owner account amount u

/-- The asset `id` is the same in both. -/
structure SameAsset (id : AssetId) (st st' : Assets A) : Prop where
  supply : st'.totalSupply id = st.totalSupply id
  rate : st'.getRate id = st.getRate id
  balances : ∀ u, st'.balances (id, u) = st.balances (id, u)

omit [DecidableEq A] in
theorem SameAsset.trans (h : SameAsset id st st₁) (h' : SameAsset id st₁ st₂) : SameAsset id st st₂ :=
  ⟨h'.supply.trans h.supply, h'.rate.trans h.rate, fun u => (h'.balances u).trans (h.balances u)⟩

theorem genesis_step (hfresh : Unissued st) (hnext : st.nextAssetId.toNat + 1 < 2 ^ 64)
    (h : genesisAssets p st [(account, amount, price)] = some st') :
    st'.nextAssetId = st.nextAssetId + 1 ∧ st'.owner = st.owner ∧ Unissued st' ∧
      Entry st' st.nextAssetId account amount price ∧ ∀ id, id ≠ st.nextAssetId → SameAsset id st st' := by
  obtain ⟨st₁, hissue, h⟩ := Option.bind_eq_some_iff.mp h
  obtain ⟨assetId, hid, h⟩ := Option.bind_eq_some_iff.mp h
  obtain ⟨st₂, htransfer, h⟩ := Option.bind_eq_some_iff.mp h
  obtain ⟨rate, hrate, h⟩ := Option.bind_eq_some_iff.mp h
  cases h
  obtain ⟨next, hnext', hissue⟩ := Option.bind_eq_some_iff.mp hissue
  cases hissue
  have hnextId : next = st.nextAssetId + 1 := add_eq hnext'
  have hassetId : assetId = st.nextAssetId := by
    rw [sub_eq hid]
    show next - 1 = _
    rw [hnextId, BitVec.add_sub_cancel]
  subst hassetId
  have hsole : ∀ u, Function.update st.balances (st.nextAssetId, account) amount (st.nextAssetId, u) =
      if u = account then amount else 0 := by
    intro u
    by_cases hu : u = account
    · rw [hu, if_pos rfl]
      exact Function.update_self ..
    · rw [if_neg hu]
      exact (Function.update_of_ne (fun he => hu (Prod.mk.inj he).2) ..).trans (hfresh _ (BitVec.le_refl _) u)
  obtain ⟨hgranted, hothers⟩ := grant_transfer hsole htransfer
  obtain ⟨balances, rfl⟩ := (transferDropped_moves htransfer).frame
  have hothers : ∀ id', id' ≠ st.nextAssetId → ∀ u, balances (id', u) = st.balances (id', u) := fun id' hne u =>
    (hothers id' hne u).trans (Function.update_of_ne (fun he => hne (Prod.mk.inj he).1) ..)
  refine ⟨hnextId, rfl, fun id hle u => ?_, ⟨?_, ?_, hgranted⟩, fun id hne => ⟨?_, ?_, hothers id hne⟩⟩
  · have hlt : st.nextAssetId.toNat < id.toNat := by
      have hle : next.toNat ≤ id.toNat := BitVec.le_def.mp hle
      rw [hnextId, BitVec.toNat_add] at hle
      change (st.nextAssetId.toNat + 1) % 2 ^ 64 ≤ id.toNat at hle
      omega
    have hne : id ≠ st.nextAssetId := by
      rintro rfl
      exact absurd hlt (lt_irrefl _)
    exact (hothers id hne u).trans (hfresh id (BitVec.le_def.mpr hlt.le) u)
  · exact Function.update_self ..
  · show (Function.update st.price st.nextAssetId rate st.nextAssetId).toNat = _
    rw [Function.update_self]
    exact Fixed.toNat_fromInteger (by decide) hrate
  · exact Function.update_of_ne hne ..
  · exact Function.update_of_ne hne ..

theorem genesisAssets_cons {entry : A × Balance × BitVec 64} {rest : List (A × Balance × BitVec 64)}
    (h : genesisAssets p st (entry :: rest) = some st') :
    ∃ st₁, genesisAssets p st [entry] = some st₁ ∧ genesisAssets p st₁ rest = some st' := by
  obtain ⟨account, amount, price⟩ := entry
  obtain ⟨st₁, hissue, h⟩ := Option.bind_eq_some_iff.mp h
  obtain ⟨assetId, hid, h⟩ := Option.bind_eq_some_iff.mp h
  obtain ⟨st₂, htransfer, h⟩ := Option.bind_eq_some_iff.mp h
  obtain ⟨rate, hrate, h⟩ := Option.bind_eq_some_iff.mp h
  refine ⟨_, Option.bind_eq_some_iff.mpr ⟨st₁, hissue, Option.bind_eq_some_iff.mpr ⟨assetId, hid, ?_⟩⟩, h⟩
  exact Option.bind_eq_some_iff.mpr ⟨st₂, htransfer, Option.bind_eq_some_iff.mpr ⟨rate, hrate, rfl⟩⟩

/-- The list of entries, from any state: each issues the next id, and the other assets are as they were. -/
theorem genesisAssets_entries {entries : List (A × Balance × BitVec 64)} : ∀ {st st' : Assets A}, Unissued st →
    st.nextAssetId.toNat + entries.length < 2 ^ 64 → genesisAssets p st entries = some st' →
    st'.nextAssetId.toNat = st.nextAssetId.toNat + entries.length ∧ st'.owner = st.owner ∧
      (∀ id, id.toNat < st.nextAssetId.toNat ∨ st.nextAssetId.toNat + entries.length ≤ id.toNat → SameAsset id st st') ∧
      ∀ (i : Nat) account amount price, entries[i]? = some (account, amount, price) →
        ∀ id : AssetId, id.toNat = st.nextAssetId.toNat + i → Entry st' id account amount price := by
  induction entries with
  | nil =>
    intro st st' _ _ h
    cases h
    exact ⟨rfl, rfl, fun id _ => ⟨rfl, rfl, fun _ => rfl⟩, fun i account amount price hi => by simp at hi⟩
  | cons entry rest ih =>
    obtain ⟨account, amount, price⟩ := entry
    intro st st' hfresh hnext h
    rw [List.length_cons] at hnext
    obtain ⟨st₁, hfirst, hrest⟩ := genesisAssets_cons h
    obtain ⟨hid, howner, hfresh₁, hentry, hothers⟩ := genesis_step hfresh (by omega) hfirst
    have hid : st₁.nextAssetId.toNat = st.nextAssetId.toNat + 1 := by
      rw [hid, BitVec.toNat_add]
      change (st.nextAssetId.toNat + 1) % 2 ^ 64 = _
      omega
    obtain ⟨hlast, howner', hsame, hentries⟩ := ih hfresh₁ (by omega) hrest
    refine ⟨by rw [hlast, hid, List.length_cons]; omega, howner'.trans howner, fun id hrange => ?_, ?_⟩
    · rw [List.length_cons] at hrange
      have hne : id ≠ st.nextAssetId := by
        rintro rfl
        omega
      exact (hothers id hne).trans (hsame id (by omega))
    · intro i account' amount' price' hi id hidi
      cases i with
      | zero =>
        cases hi
        have heq : id = st.nextAssetId := BitVec.eq_of_toNat_eq hidi
        subst heq
        have hkept := hsame st.nextAssetId (by omega)
        refine ⟨hkept.supply.trans hentry.supply, ?_, fun u => ?_⟩
        · rw [hkept.rate]
          exact hentry.rate
        · rw [hkept.balances, hentry.balances, howner']
      | succ i =>
        rw [List.getElem?_cons_succ] at hi
        exact hentries i account' amount' price' hi id (by omega)

omit [DecidableEq A] in
theorem empty_unissued (owner : A) : Unissued (empty owner) := fun _ _ _ => rfl

theorem transferDropped_release (st : Assets A) (a : A) (id : AssetId) (b : A) (x : Balance) :
    ∃ st', st.transferDropped .release a id b x = some st' := by
  by_cases hc : st.Covered a id x
  · obtain ⟨st', h⟩ := transfer_of_covered (b := b) hc
    exact ⟨st', Option.bind_eq_some_iff.mpr ⟨_, h, rfl⟩⟩
  · obtain ⟨e, h⟩ := transfer_of_not_covered (p := .release) (b := b) hc
    exact ⟨st, Option.bind_eq_some_iff.mpr ⟨_, h, rfl⟩⟩

theorem genesisAssets_isSome (entries : List (A × Balance × BitVec 64)) :
    ∀ st : Assets A, (genesisAssets .release st entries).isSome := by
  induction entries with
  | nil => exact fun _ => rfl
  | cons entry rest ih =>
    obtain ⟨account, amount, price⟩ := entry
    intro st
    obtain ⟨st₂, htransfer⟩ : ∃ st₂, ({ st with
        nextAssetId := st.nextAssetId + 1
        balances := Function.update st.balances (st.nextAssetId, account) amount
        totalSupply := Function.update st.totalSupply st.nextAssetId amount } : Assets A).transferDropped .release account
          (st.nextAssetId + 1 - 1) st.owner 500000 = some st₂ := transferDropped_release ..
    obtain ⟨st', hrest⟩ := Option.isSome_iff_exists.mp (ih (st₂.setPrice (st.nextAssetId + 1 - 1)
      ⟨Profile.clamp 128 (price.toNat * accuracy)⟩))
    refine Option.isSome_iff_exists.mpr ⟨st', Option.bind_eq_some_iff.mpr
      ⟨_, Option.bind_eq_some_iff.mpr ⟨_, add_release, rfl⟩, Option.bind_eq_some_iff.mpr ⟨_, sub_release, ?_⟩⟩⟩
    refine Option.bind_eq_some_iff.mpr ⟨st₂, htransfer, Option.bind_eq_some_iff.mpr ⟨_, ?_, hrest⟩⟩
    exact Option.map_eq_some_iff.mpr ⟨_, if_pos (Or.inr rfl), rfl⟩

end Konomi.Assets

namespace Konomi
open Machine Assets

variable {A : Type} [DecidableEq A]

/-- **What the genesis configuration builds.** The entries are issued under the ids `0`, `1`, …, each with its price and
with the grant to the owner; no other id has a supply, a price or a holder; the listed pools are new, and there are no
others, no positions and no liquidity. -/
theorem genesis_entry {g : Genesis A} (hlength : g.assets.length < 2 ^ 64) : ∃ s, genesis .release g = some s ∧
    s.assets.nextAssetId.toNat = g.assets.length ∧ s.assets.owner = g.owner ∧
    (∀ (i : Nat) account amount price, g.assets[i]? = some (account, amount, price) →
      Entry s.assets (BitVec.ofNat 64 i) account amount price) ∧
    (∀ id, g.assets.length ≤ id.toNat →
      s.assets.totalSupply id = 0 ∧ (s.assets.getRate id).toNat = 0 ∧ ∀ u, s.assets.balances (id, u) = 0) ∧
    (∀ id, s.lending.pools id = if id ∈ g.pools then some (Lending.newPool 0 id true) else none) ∧
    s.lending.supplies = Book.empty ∧ s.lending.debts = Book.empty ∧ ∀ id, s.swap.totalLiquidities id = 0 := by
  obtain ⟨st, hst⟩ := Option.isSome_iff_exists.mp (genesisAssets_isSome g.assets (empty g.owner))
  have h : genesis .release g = some _ := Option.bind_eq_some_iff.mpr ⟨st, hst, rfl⟩
  obtain ⟨_, hsupplies, hdebts, _⟩ := genesis_lending h
  obtain ⟨hnext, howner, hsame, hentries⟩ := genesisAssets_entries (empty_unissued g.owner)
    (by change 0 + _ < _; omega) hst
  rw [show (empty g.owner).nextAssetId.toNat = 0 from rfl] at hnext hsame hentries
  refine ⟨_, h, by rw [hnext, Nat.zero_add], howner, fun i account amount price hi => ?_, fun id hid => ?_, fun id => ?_,
    hsupplies, hdebts, fun _ => rfl⟩
  · have hlt : i < g.assets.length := (List.getElem?_eq_some_iff.mp hi).1
    refine hentries i account amount price hi _ ?_
    rw [BitVec.toNat_ofNat, Nat.mod_eq_of_lt (by omega), Nat.zero_add]
  · have hkept := hsame id (Or.inr (by omega))
    refine ⟨hkept.supply, ?_, hkept.balances⟩
    rw [hkept.rate]
    rfl
  · exact genesisPools_pools _ id

/-- `testnet_genesis` of `node/src/chain_spec.rs`. -/
def testnetGenesis (alice bob : A) : Genesis A where
  owner := bob
  assets := [(alice, 1000000000000000000, 100), (alice, 1000000000000000000, 60), (alice, 1000000000000000000, 5),
    (alice, 1000000000000000000, 600), (alice, 1000000000000000000, 20000)]
  feeRate := 1
  pools := [0, 1, 2, 3, 4]

/-- Bitcoin on the testnet: 20000 a unit, of which Bob has 500000. -/
theorem genesis_entry_testnet : ∃ s, genesis .release (testnetGenesis (1 : Fin 4) 2) = some s ∧
    s.assets.nextAssetId.toNat = 5 ∧ (s.assets.getRate 4).toNat = 20000 * accuracy ∧
    s.assets.balances (4, 1) = 999999999999500000 ∧ s.assets.balances (4, 2) = 500000 ∧
    s.lending.pools 4 = some (Lending.newPool 0 4 true) ∧ s.lending.pools 5 = none := by
  obtain ⟨s, hs, hnext, howner, hentries, _, hpools, _⟩ := genesis_entry (g := testnetGenesis (1 : Fin 4) 2) (by decide)
  have hentry := hentries 4 _ _ _ rfl
  have hheld : ∀ u, s.assets.balances (4, u) = granted 2 1 1000000000000000000 u := fun u => by
    rw [← show s.assets.owner = 2 from howner]
    exact hentry.balances u
  exact ⟨s, hs, hnext, hentry.rate, (hheld 1).trans (by decide), (hheld 2).trans (by decide), hpools 4, hpools 5⟩

/-! ## After genesis -/

namespace Assets
variable [Fintype A] {cfg : Config A} {s t : Chain A} {l : Action A} {actions : List (Action A)} {id : AssetId}

/-- The call destroys some of the asset. -/
def Destroys (id : AssetId) : Action A → Prop
  | .call (.signed _) (.assets (.destroy id')) => id' = id
  | _ => False

theorem destroy_supply {st st' : Assets A} {a : A} {id' : AssetId} {r : Except DispatchError Unit} (hs : Conserved st)
    (h : st.destroy .release a id' = some (r, st')) :
    (st'.totalSupply id).toNat ≤ (st.totalSupply id).toNat ∧ (id' ≠ id → st'.totalSupply id = st.totalSupply id) := by
  have hle := hs.holdings_le id' a
  unfold destroy at h
  dsimp only at h
  split at h
  · cases h
    exact ⟨le_rfl, fun _ => rfl⟩
  · rw [sub_isSome_of_le hle] at h
    cases h
    refine ⟨?_, fun hne => Function.update_of_ne hne.symm ..⟩
    by_cases hid : id = id'
    · subst hid
      show (Function.update st.totalSupply id _ id).toNat ≤ _
      rw [Function.update_self, BitVec.toNat_sub_of_le (BitVec.le_def.mpr hle)]
      exact Nat.sub_le ..
    · exact le_of_eq (congrArg BitVec.toNat (Function.update_of_ne hid ..))

theorem step_supply (hs : Conserved s.assets) (hid : id < s.assets.nextAssetId) (h : step cfg .release s l = some t) :
    (t.assets.totalSupply id).toNat ≤ (s.assets.totalSupply id).toNat ∧
      (¬ Destroys id l → t.assets.totalSupply id = s.assets.totalSupply id) := by
  cases l with
  | advance block =>
    obtain ⟨_, rfl⟩ := step_advance h
    exact ⟨le_rfl, fun _ => rfl⟩
  | call origin call =>
    obtain ⟨⟨r, t⟩, hd, rfl⟩ := Option.map_eq_some_iff.mp h
    cases call with
    | swap c =>
      obtain ⟨balances, hframe⟩ := (Swap.swap_moves hd).1.frame
      rw [hframe]
      exact ⟨le_rfl, fun _ => rfl⟩
    | lending c =>
      obtain ⟨balances, hframe⟩ := (Lending.lending_moves hd).1.frame
      rw [hframe]
      exact ⟨le_rfl, fun _ => rfl⟩
    | assets c =>
      obtain ⟨st', hstep, rfl⟩ := dispatch_cases hd
      cases hstep with
      | unsigned => exact ⟨le_rfl, fun _ => rfl⟩
      | @issued u total _ hi =>
        obtain ⟨next, _, hi⟩ := Option.bind_eq_some_iff.mp hi
        cases hi
        have hne : id ≠ s.assets.nextAssetId := BitVec.ne_of_lt hid
        have hsame : Function.update s.assets.totalSupply s.assets.nextAssetId total id = s.assets.totalSupply id :=
          Function.update_of_ne hne ..
        exact ⟨le_of_eq (congrArg BitVec.toNat hsame), fun _ => hsame⟩
      | destroyed hi =>
        obtain ⟨hle, hother⟩ := destroy_supply hs hi
        exact ⟨hle, fun hnot => hother hnot⟩
      | transferred ht =>
        obtain ⟨balances, rfl⟩ := (transferDropped_moves ht).frame
        exact ⟨le_rfl, fun _ => rfl⟩
      | inherent => exact ⟨le_rfl, fun _ => rfl⟩
      | notRoot => exact ⟨le_rfl, fun _ => rfl⟩
      | priced => exact ⟨le_rfl, fun _ => rfl⟩

omit [DecidableEq A] [Fintype A] in
theorem issues_cons (l : Action A) (actions : List (Action A)) :
    issues (l :: actions) = (isIssue l).toNat + issues actions := by
  unfold issues
  rw [List.countP_cons]
  cases isIssue l <;> simp [Nat.add_comm]

theorem exec_supply : ∀ {actions : List (Action A)} {s : Chain A}, Conserved s.assets →
    s.assets.nextAssetId.toNat + issues actions < 2 ^ 64 → id < s.assets.nextAssetId →
    exec (step cfg .release) s actions = some t →
    id < t.assets.nextAssetId ∧ (t.assets.totalSupply id).toNat ≤ (s.assets.totalSupply id).toNat ∧
      ((∀ l ∈ actions, ¬ Destroys id l) → t.assets.totalSupply id = s.assets.totalSupply id) := by
  intro actions
  induction actions with
  | nil =>
    intro s _ _ hid h
    cases h
    exact ⟨hid, le_rfl, fun _ => rfl⟩
  | cons l actions ih =>
    intro s hs hnext hid h
    obtain ⟨s', hstep, hrest⟩ := exec_cons h
    rw [issues_cons] at hnext
    obtain ⟨hs', hid'⟩ := step_conserved hs (by omega) hstep
    obtain ⟨hle, hsame⟩ := step_supply hs hid hstep
    have hissued : id < s'.assets.nextAssetId := by
      rw [BitVec.lt_def] at hid ⊢
      omega
    obtain ⟨hlast, hle', hsame'⟩ := ih hs' (by omega) hissued hrest
    refine ⟨hlast, hle'.trans hle, fun hnone => ?_⟩
    rw [hsame' fun l hl => hnone l (List.mem_cons_of_mem _ hl), hsame (hnone l List.mem_cons_self)]

omit [Fintype A] in
theorem issues_fit {g : Genesis A} {blocks : List (Block A)} (hg : g.assets.length < 2 ^ 63)
    (h : exec (step cfg .release) s (blocks.flatMap Block.actions) = some t) :
    g.assets.length + issues (blocks.flatMap Block.actions) < 2 ^ 64 := by
  have hblocks := length_le_blockNumber h
  have hissues := blocks_issues_le blocks
  have hlast : t.blockNumber.toNat < 2 ^ 32 := t.blockNumber.isLt
  have hmany : blocks.length * maximumBlockLength ≤ 2 ^ 32 * maximumBlockLength := Nat.mul_le_mul_right _ (by omega)
  unfold maximumBlockLength at hissues hmany
  omega

theorem exec_next : ∀ {actions : List (Action A)} {s : Chain A}, Conserved s.assets →
    s.assets.nextAssetId.toNat + issues actions < 2 ^ 64 → exec (step cfg .release) s actions = some t →
    t.assets.nextAssetId.toNat = s.assets.nextAssetId.toNat + issues actions := by
  intro actions
  induction actions with
  | nil =>
    intro s _ _ h
    cases h
    rfl
  | cons l actions ih =>
    intro s hs hnext h
    obtain ⟨s', hstep, hrest⟩ := exec_cons h
    rw [issues_cons] at hnext ⊢
    obtain ⟨hs', hid'⟩ := step_conserved hs (by omega) hstep
    rw [ih hs' (by omega) hrest, hid']
    omega

theorem play_next {g : Genesis A} (hissues : g.assets.length + issues actions < 2 ^ 64)
    (h : play cfg .release g actions = some s) : s.assets.nextAssetId.toNat = g.assets.length + issues actions := by
  obtain ⟨s₀, hs₀, h⟩ := Option.bind_eq_some_iff.mp h
  obtain ⟨st, hst, hs₀⟩ := Option.bind_eq_some_iff.mp hs₀
  cases hs₀
  obtain ⟨hstart, hfirst⟩ := genesisAssets_conserved (empty_conserved g.owner) (by change 0 + _ < _; omega) hst
  have hfirst : st.nextAssetId.toNat = g.assets.length := hfirst.trans (Nat.zero_add _)
  rw [exec_next hstart (by change st.nextAssetId.toNat + _ < _; omega) h, ← hfirst]

/-- **Nothing is minted.** From every state of every chain of blocks, along every continuation: all accounts together
never have more of an asset that has been issued, and they have exactly as much unless some of it is destroyed. -/
theorem supply_never_grows {g : Genesis A} {before after : List (Block A)} (hg : g.assets.length < 2 ^ 63)
    (hs : play cfg .release g (before.flatMap Block.actions) = some s)
    (ht : exec (step cfg .release) s (after.flatMap Block.actions) = some t) (hid : id < s.assets.nextAssetId) :
    ∑ u, (t.assets.balances (id, u)).toNat ≤ ∑ u, (s.assets.balances (id, u)).toNat ∧
      ((∀ l ∈ after.flatMap Block.actions, ¬ Destroys id l) →
        ∑ u, (t.assets.balances (id, u)).toNat = ∑ u, (s.assets.balances (id, u)).toNat) := by
  obtain ⟨s₀, hs₀, hexec⟩ := Option.bind_eq_some_iff.mp hs
  have hboth : exec (step cfg .release) s₀ ((before ++ after).flatMap Block.actions) = some t := by
    rw [List.flatMap_append]
    exact exec_of_append hexec ht
  have hfits : g.assets.length + issues ((before ++ after).flatMap Block.actions) < 2 ^ 64 := issues_fit hg hboth
  rw [List.flatMap_append, issues_append] at hfits
  have hconserved : Conserved s.assets := play_conserved (by omega) hs
  have hcount := play_next (by omega) hs
  have hconserved' : Conserved t.assets := exec_conserved hconserved (by omega) ht
  obtain ⟨_, hle, hsame⟩ := exec_supply hconserved (by omega) hid ht
  have hsum : ∑ u, (s.assets.balances (id, u)).toNat = (s.assets.totalSupply id).toNat := hconserved.sum id
  have hsum' : ∑ u, (t.assets.balances (id, u)).toNat = (t.assets.totalSupply id).toNat := hconserved'.sum id
  rw [hsum, hsum']
  exact ⟨hle, fun hnone => congrArg BitVec.toNat (hsame hnone)⟩

/-- A supply, a loan, an issue and the destruction of what user `2` has of asset `0`. -/
theorem supply_never_grows_mock : ∃ s t, play mockConfig .release mockGenesis
      ([⟨1, [(.signed 1, .lending (.supply 0 100000)), (.signed 2, .lending (.supply 1 100000))], by decide⟩].flatMap
        Block.actions) = some s ∧
    exec (step mockConfig .release) s
      ([⟨2, [(.signed 2, .lending (.borrow 0 10000)), (.signed 2, .assets (.issue 5)),
        (.signed 2, .assets (.destroy 0))], by decide⟩].flatMap Block.actions) = some t ∧
    ∑ u, (t.assets.balances (0, u)).toNat ≤ ∑ u, (s.assets.balances (0, u)).toNat ∧
    ∑ u, (t.assets.balances (1, u)).toNat = ∑ u, (s.assets.balances (1, u)).toNat := by
  obtain ⟨s, t, hs, ht, hid⟩ : ∃ s t, play mockConfig .release mockGenesis
        ([⟨1, [(.signed 1, .lending (.supply 0 100000)), (.signed 2, .lending (.supply 1 100000))], by decide⟩].flatMap
          Block.actions) = some s ∧
      exec (step mockConfig .release) s
        ([⟨2, [(.signed 2, .lending (.borrow 0 10000)), (.signed 2, .assets (.issue 5)),
          (.signed 2, .assets (.destroy 0))], by decide⟩].flatMap Block.actions) = some t ∧
      s.assets.nextAssetId = 2 := ⟨_, _, rfl, rfl, rfl⟩
  refine ⟨s, t, hs, ht, (supply_never_grows (by decide) hs ht (by rw [hid]; decide)).1,
    (supply_never_grows (by decide) hs ht (by rw [hid]; decide)).2 ?_⟩
  intro l hl
  simp only [Block.actions, List.flatMap_cons, List.flatMap_nil, List.append_nil, List.map_cons, List.map_nil,
    List.mem_cons, List.not_mem_nil, or_false] at hl
  rcases hl with rfl | rfl | rfl | rfl
  · exact id
  · exact id
  · exact id
  · exact fun h => absurd (show (0 : AssetId) = 1 from h) (by decide)

end Assets

end Konomi
