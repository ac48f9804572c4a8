import Konomi.Lending.Info

/-!
# The amounts of a liquidation

`liquidate` computes the most the liquidator may pay and what is seized for a payment through two chains of quotients.
The payment is clamped to the debt, what is seized for it is not clamped to the supply. It is at most a fair share of
the supply (`fairShare`) exactly when the last product, of the payment and `pay_price / get_price / discount_factor`,
stays below the point from which it is rounded to the next unit (`amounts_safe_iff`). While every product is in the
word all quotients are rounded down, and it does (`staysBelow_of_fits`). Past the word they are rounded to the nearest,
the seizure can pass the supply, and the record of the target wraps (`seizure_passes_supply`).

At the factors of `_init_pool` the seized supply counts for less than the payment however the quotients are rounded
(`fair_weighted`). So a liquidation lowers the counted debt by what it lowers the counted supply by, up to the rounding
of four values, which is less than three units together (`Settlement.shortfall_le`).
-/

namespace Konomi.Lending
open Machine Assets

/-! ## Two chains of quotients -/

section Amounts
variable {p : Profile} {pool : Pool} {getPrice payPrice : FixedU128} {supplied limit owed x paid seized : Balance}

/-- The factor of `pay_limit`. -/
def limitFactor (pool : Pool) (getPrice payPrice : FixedU128) : Nat :=
  rounded 128 (rounded 128 (getPrice.toNat * accuracy) payPrice.toNat * pool.discountFactor.toNat) accuracy

/-- The factor of `get_asset_amount`. -/
def seizedFactor (pool : Pool) (getPrice payPrice : FixedU128) : Nat :=
  rounded 128 (rounded 128 (payPrice.toNat * accuracy) getPrice.toNat * accuracy) pool.discountFactor.toNat

/-- The requested payment, clamped to the limit and to the debt. -/
def payment (pool : Pool) (getPrice payPrice : FixedU128) (supplied owed x : Balance) : Nat :=
  let getLimit := rounded 128 (pool.closeFactor.toNat * supplied.toNat) accuracy
  min (min x.toNat (rounded 128 (limitFactor pool getPrice payPrice * getLimit) accuracy)) owed.toNat

/-- The units that a payment of `m` may seize: of the part of the supply that may be taken, what is worth at most the
payment at the discount. -/
def fairShare (pool : Pool) (getPrice payPrice : FixedU128) (supplied : Balance) (m : Nat) : Nat :=
  min (pool.closeFactor.toNat * supplied.toNat / accuracy)
    (m * (payPrice.toNat * accuracy) / (getPrice.toNat * pool.discountFactor.toNat))

/-- The product is not rounded to more than `k` units: in the word it is below the next one, past the word at most half
a unit above. No number of units is more than the largest word. -/
def StaysBelow (product k : Nat) : Prop :=
  2 ^ 128 ≤ k + 1 ∨ if product < 2 ^ 128 then product < accuracy * (k + 1) else 2 * product ≤ accuracy * (2 * k + 1)

instance (product k : Nat) : Decidable (StaysBelow product k) := inferInstanceAs (Decidable (_ ∨ _))

theorem staysBelow_iff (product k : Nat) :
    StaysBelow product k ↔ min (rounded 128 product accuracy) (2 ^ 128 - 1) ≤ k := by
  have hlong : ¬ accuracy < 2 ^ 32 := by decide
  have hword : 2 ^ 128 ≤ k + 1 ↔ 2 ^ 128 - 1 ≤ k := by omega
  rw [StaysBelow, min_le_iff, rounded_le_iff accuracy_pos, hword, or_comm]
  simp only [hlong, or_false]

/-- The products of both chains are in the word, for a payment of `m`. -/
structure InWord (pool : Pool) (getPrice payPrice : FixedU128) (supplied : Balance) (m : Nat) : Prop where
  part : pool.closeFactor.toNat * supplied.toNat < 2 ^ 128
  get : getPrice.toNat * accuracy < 2 ^ 128
  pay : payPrice.toNat * accuracy < 2 ^ 128
  discounted : getPrice.toNat * accuracy / payPrice.toNat * pool.discountFactor.toNat < 2 ^ 128
  marked_up : payPrice.toNat * accuracy / getPrice.toNat * accuracy < 2 ^ 128
  limit : limitFactor pool getPrice payPrice * (pool.closeFactor.toNat * supplied.toNat / accuracy) < 2 ^ 128
  seized : seizedFactor pool getPrice payPrice * m < 2 ^ 128

theorem InWord.seizedFactor_le {m : Nat} (h : InWord pool getPrice payPrice supplied m) :
    seizedFactor pool getPrice payPrice * (getPrice.toNat * pool.discountFactor.toNat) ≤
      payPrice.toNat * accuracy * accuracy := by
  rw [seizedFactor, rounded_of_lt h.pay, rounded_of_lt h.marked_up]
  calc _ = payPrice.toNat * accuracy / getPrice.toNat * accuracy / pool.discountFactor.toNat *
        pool.discountFactor.toNat * getPrice.toNat := by ring
    _ ≤ payPrice.toNat * accuracy / getPrice.toNat * accuracy * getPrice.toNat :=
        Nat.mul_le_mul_right _ (Nat.div_mul_le_self _ _)
    _ = payPrice.toNat * accuracy / getPrice.toNat * getPrice.toNat * accuracy := by ring
    _ ≤ payPrice.toNat * accuracy * accuracy := Nat.mul_le_mul_right _ (Nat.div_mul_le_self _ _)

theorem InWord.limitFactor_le {m : Nat} (h : InWord pool getPrice payPrice supplied m) :
    limitFactor pool getPrice payPrice * payPrice.toNat ≤ getPrice.toNat * pool.discountFactor.toNat := by
  rw [limitFactor, rounded_of_lt h.get, rounded_of_lt h.discounted]
  refine Nat.le_of_mul_le_mul_right (?_ : _ * accuracy ≤ _ * accuracy) accuracy_pos
  calc _ = getPrice.toNat * accuracy / payPrice.toNat * pool.discountFactor.toNat / accuracy * accuracy *
        payPrice.toNat := by ring
    _ ≤ getPrice.toNat * accuracy / payPrice.toNat * pool.discountFactor.toNat * payPrice.toNat :=
        Nat.mul_le_mul_right _ (Nat.div_mul_le_self _ _)
    _ = getPrice.toNat * accuracy / payPrice.toNat * payPrice.toNat * pool.discountFactor.toNat := by ring
    _ ≤ getPrice.toNat * accuracy * pool.discountFactor.toNat := Nat.mul_le_mul_right _ (Nat.div_mul_le_self _ _)
    _ = getPrice.toNat * pool.discountFactor.toNat * accuracy := by ring

/-- **In the word the amounts are safe**: all quotients are rounded down. -/
theorem staysBelow_of_fits (hpos : 0 < getPrice.toNat * pool.discountFactor.toNat)
    (h : InWord pool getPrice payPrice supplied (payment pool getPrice payPrice supplied owed x)) :
    StaysBelow (seizedFactor pool getPrice payPrice * payment pool getPrice payPrice supplied owed x)
      (fairShare pool getPrice payPrice supplied (payment pool getPrice payPrice supplied owed x)) := by
  have hlimit : payment pool getPrice payPrice supplied owed x ≤
      limitFactor pool getPrice payPrice * (pool.closeFactor.toNat * supplied.toNat / accuracy) / accuracy := by
    rw [← rounded_of_lt h.limit, ← rounded_of_lt h.part]
    exact (min_le_left _ _).trans (min_le_right _ _)
  have hdown := h.seizedFactor_le
  have hdown' := h.limitFactor_le
  rw [staysBelow_iff, rounded_of_lt h.seized, fairShare]
  generalize payment pool getPrice payPrice supplied owed x = m at hlimit
  generalize pool.closeFactor.toNat * supplied.toNat / accuracy = part at hlimit
  have hfair : seizedFactor pool getPrice payPrice * m / accuracy * (getPrice.toNat * pool.discountFactor.toNat) ≤
      m * (payPrice.toNat * accuracy) := by
    refine Nat.le_of_mul_le_mul_right (?_ : _ * accuracy ≤ _ * accuracy) accuracy_pos
    calc _ = seizedFactor pool getPrice payPrice * m / accuracy * accuracy *
          (getPrice.toNat * pool.discountFactor.toNat) := by ring
      _ ≤ seizedFactor pool getPrice payPrice * m * (getPrice.toNat * pool.discountFactor.toNat) :=
          Nat.mul_le_mul_right _ (Nat.div_mul_le_self _ _)
      _ = seizedFactor pool getPrice payPrice * (getPrice.toNat * pool.discountFactor.toNat) * m := by ring
      _ ≤ payPrice.toNat * accuracy * accuracy * m := Nat.mul_le_mul_right _ hdown
      _ = m * (payPrice.toNat * accuracy) * accuracy := by ring
  -- the limit buys no more than the part of the supply
  have hpart : m * (payPrice.toNat * accuracy) ≤ part * (getPrice.toNat * pool.discountFactor.toNat) := by
    calc m * (payPrice.toNat * accuracy) = m * accuracy * payPrice.toNat := by ring
      _ ≤ limitFactor pool getPrice payPrice * part * payPrice.toNat :=
          Nat.mul_le_mul_right _ ((Nat.le_div_iff_mul_le accuracy_pos).mp hlimit)
      _ = limitFactor pool getPrice payPrice * payPrice.toNat * part := by ring
      _ ≤ getPrice.toNat * pool.discountFactor.toNat * part := Nat.mul_le_mul_right _ hdown'
      _ = part * (getPrice.toNat * pool.discountFactor.toNat) := by ring
  refine (min_le_left _ _).trans (le_min ?_ ((Nat.le_div_iff_mul_le hpos).mpr hfair))
  exact Nat.le_of_mul_le_mul_right (hfair.trans hpart) hpos

end Amounts

/-! ## The position of the target -/

variable {A : Type} [DecidableEq A] {cfg : Config A} {p : Profile} {s s' : Chain A} {u t : A}
  {payId getId : AssetId} {x : Balance}

namespace Settlement

theorem weight_result (d : Settlement cfg p s u t payId getId x) (b : AssetId) (side : Side) :
    weight d.result b side = weight s b side := by
  have hprice : d.result.assets.getRate b = s.assets.getRate b :=
    congrFun ((price_of_transfer d.seizes).trans (price_of_transfer d.pays)) b
  cases side with
  | debt => rw [weight, weight, hprice]
  | supply =>
    rw [weight, weight, hprice]
    by_cases hb : b = payId ∨ b = getId
    · obtain ⟨pool, q, hpool, hq, hpool', _⟩ := d.pools_of_mem hb
      have hfactor : q.safeFactor = pool.safeFactor := (accrueInterest_frame hq).2.2.2.2
      rw [hpool, hpool', Option.bind_eq_bind, Option.bind_some, Option.bind_some, hfactor]
    · rw [d.pools_of_not_mem hb]

theorem replaces_supply (hp : p ≤ .release) (d : Settlement cfg p s u t payId getId x) (hs : AllListed s) :
    Replaces s d.result t .supply getId d.supplied d.supplied' where
  nodup := (hs .supply).nodup t
  nodup' := (d.listed hs .supply).nodup t
  weight_eq := fun b => d.weight_result b .supply
  mem := fun b hb => Book.put_mem hb
  other := fun b w w' hb => d.view_other hp (fun h => hb h.1) (fun h => nomatch h.2.2)
  before := by
    intro w hw
    have hvalue := view_value d.get_stored (release_accrues hp d.get_accrues) hw
    exact Option.some.inj (hvalue.symm.trans (mono_valueAt _ _ hp d.supplied_eq))
  before_unlisted := fun hmem => (hs .supply).value_zero hmem d.supplied_eq
  after := fun w => d.view_seized
  after_unlisted := (d.listed hs .supply).put_zero rfl

theorem replaces_debt (hp : p ≤ .release) (d : Settlement cfg p s u t payId getId x) (hs : AllListed s) :
    Replaces s d.result t .debt payId d.owed d.owed' where
  nodup := (hs .debt).nodup t
  nodup' := (d.listed hs .debt).nodup t
  weight_eq := fun b => d.weight_result b .debt
  mem := fun b hb => Book.put_mem hb
  other := fun b w w' hb => d.view_other hp (fun h => nomatch h.2.2) (fun h => hb h.1)
  before := by
    intro w hw
    have hvalue := view_value d.pay_stored (release_accrues hp d.pay_accrues) hw
    exact Option.some.inj (hvalue.symm.trans (mono_valueAt _ _ hp d.owed_eq))
  before_unlisted := fun hmem => (hs .debt).value_zero hmem d.owed_eq
  after := fun w => d.view_paid
  after_unlisted := (d.listed hs .debt).put_zero rfl

end Settlement

/-! ## Progress -/

/-- What the counted debt of a user exceeds the converted supply by. -/
def shortfall (s : Chain A) (u : A) : Option Int := do
  let (_, supply, debt) ← getUserInfo .release s u
  some ((debt.toNat : Int) - supply.toNat)

/-- A rounded quotient by at most one is high by less than half a percent. -/
theorem rounded_le_percent {n c : Nat} (hc : c ≤ accuracy) : 200 * (c * rounded 128 n c) ≤ 201 * n := by
  by_cases hfits : n < 2 ^ 128
  · rw [rounded_of_lt hfits]
    exact Nat.mul_le_mul (by decide) (Nat.mul_div_le n c)
  · have hhalf := rounded_le_half 128 n c
    have hsmall : 100 * accuracy ≤ 2 ^ 128 := by decide
    omega

/-- The quotient of two prices is high by at most a third: past the word the divisor is the smaller number. -/
theorem ratio_le_third {n : Nat} {price : FixedU128} : 3 * (price.toNat * rounded 128 n price.toNat) ≤ 4 * n := by
  by_cases hfits : n < 2 ^ 128
  · rw [rounded_of_lt hfits]
    exact Nat.mul_le_mul (by decide) (Nat.mul_div_le n _)
  · have hhalf := rounded_le_half 128 n price.toNat
    have hsmaller := price.toNat_lt
    by_cases hmany : 2 ≤ rounded 128 n price.toNat
    · have hdouble := Nat.mul_le_mul_left price.toNat hmany
      omega
    · have hone : price.toNat * rounded 128 n price.toNat ≤ price.toNat * 1 := Nat.mul_le_mul_left _ (by omega)
      omega

/-- Four thirds of seven tenths are below nineteen twentieths by more than three half percents. -/
theorem weighted_le {d get pay ratio factor weight paid seized : Nat} (hd : 0 < d)
    (hratio : 3 * (get * ratio) ≤ 4 * (pay * d))
    (hfactor : 200 * (950000000000000000 * factor) ≤ 201 * (ratio * d))
    (hseized : 200 * (d * seized) ≤ 201 * (factor * paid))
    (hweight : 200 * (d * weight) ≤ 201 * (get * 700000000000000000)) : weight * seized ≤ pay * paid := by
  refine Nat.le_of_mul_le_mul_left (?_ : 200 * d * (200 * d) * (200 * 950000000000000000) * 3 * _ ≤ _ * _)
    (by positivity)
  calc 200 * d * (200 * d) * (200 * 950000000000000000) * 3 * (weight * seized)
      = 200 * (d * weight) * (200 * (d * seized)) * (200 * 950000000000000000 * 3) := by ring
    _ ≤ 201 * (get * 700000000000000000) * (201 * (factor * paid)) * (200 * 950000000000000000 * 3) :=
        Nat.mul_le_mul_right _ (Nat.mul_le_mul hweight hseized)
    _ = 200 * (950000000000000000 * factor) * (201 * 201 * 700000000000000000 * 3 * get * paid) := by ring
    _ ≤ 201 * (ratio * d) * (201 * 201 * 700000000000000000 * 3 * get * paid) := Nat.mul_le_mul_right _ hfactor
    _ = 3 * (get * ratio) * (201 * 201 * 201 * 700000000000000000 * d * paid) := by ring
    _ ≤ 4 * (pay * d) * (201 * 201 * 201 * 700000000000000000 * d * paid) := Nat.mul_le_mul_right _ hratio
    _ = 4 * (201 * 201 * 201) * 700000000000000000 * (d * d * (pay * paid)) := by ring
    _ ≤ 200 * 200 * 200 * 950000000000000000 * 3 * (d * d * (pay * paid)) := Nat.mul_le_mul_right _ (by decide)
    _ = 200 * d * (200 * d) * (200 * 950000000000000000) * 3 * (pay * paid) := by ring

/-- **At the factors of a new pool, what is seized counts for no more than the payment**, however the quotients are
rounded. -/
theorem fair_weighted {pool : Pool} {getPrice payPrice r : FixedU128} {limit owed paid seized : Balance}
    (hstandard : Standard pool) (hr : getPrice.mul pool.safeFactor = some r)
    (h : paidAndSeized p pool getPrice payPrice limit owed x = some (paid, seized)) :
    r.toNat * seized.toNat ≤ payPrice.toNat * paid.toNat := by
  obtain ⟨ratio, hratio, h⟩ := Option.bind_eq_some_iff.mp h
  obtain ⟨factor, hfactor, h⟩ := Option.bind_eq_some_iff.mp h
  obtain ⟨z, hz, h⟩ := Option.bind_eq_some_iff.mp h
  have hseized := (Fixed.toNat_mulInt hz).trans_le (min_le_left _ _)
  generalize (if owed < if limit < x then limit else x then owed else if limit < x then limit else x) = m at h hseized
  cases h
  have hratio : 3 * (getPrice.toNat * ratio.toNat) ≤ 4 * (payPrice.toNat * accuracy) := by
    rw [(Fixed.toNat_div hratio).2]
    exact ratio_le_third
  have hfactor : 200 * (950000000000000000 * factor.toNat) ≤ 201 * (ratio.toNat * accuracy) := by
    have hdiscount : pool.discountFactor.toNat = 950000000000000000 := by
      rw [hstandard.discountFactor]
      decide
    rw [(Fixed.toNat_div hfactor).2, hdiscount]
    exact rounded_le_percent (by decide)
  have hseized : 200 * (accuracy * seized.toNat) ≤ 201 * (factor.toNat * paid.toNat) :=
    (Nat.mul_le_mul_left _ (Nat.mul_le_mul_left _ hseized)).trans (rounded_le_percent le_rfl)
  have hweight : 200 * (accuracy * r.toNat) ≤ 201 * (getPrice.toNat * 700000000000000000) := by
    have hsafe : pool.safeFactor.toNat = 700000000000000000 := by
      rw [hstandard.safeFactor]
      decide
    rw [Fixed.toNat_mul hr, hsafe]
    exact rounded_le_percent le_rfl
  exact weighted_le accuracy_pos hratio hfactor hseized hweight

omit [DecidableEq A] in
theorem shortfall_eq {d : Int} (h : shortfall s u = some d) :
    ∃ info, getUserInfo .release s u = some info ∧ d = (info.2.2.toNat : Int) - info.2.1.toNat := by
  obtain ⟨info, hinfo, h⟩ := Option.bind_eq_some_iff.mp h
  exact ⟨info, hinfo, (Option.some.inj h).symm⟩

theorem Touched.release {side : Side} (hp : p ≤ .release) (h : Touched p s s' side) : Touched .release s s' side := by
  rcases h with hsame | ⟨a, v, pool, q, hpool, hq, hbook⟩
  · exact Or.inl hsame
  · exact Or.inr ⟨a, v, pool, q, hpool, release_accrues hp hq, Book.mono_accrue _ _ _ _ hp hbook⟩

/-- The counted debt falls by the payment, and the counted supply by no more, up to the rounding of the four values. -/
theorem Settlement.shortfall_le (d : Settlement cfg .strict s u t payId getId x) (hs : AllListed s)
    (hstandard : Standard d.getAccrued) {before after : Int} (hbefore : shortfall s t = some before)
    (hafter : shortfall d.result t = some after) : after ≤ before + 2 := by
  have hp := Profile.strict_le_release
  obtain ⟨info, hinfo, rfl⟩ := shortfall_eq hbefore
  obtain ⟨info', hinfo', rfl⟩ := shortfall_eq hafter
  obtain ⟨info₁, _, hstrict, _⟩ := d.below
  have htouched : ∀ side, Touched .release s { s with lending := d.lending } side :=
    fun side => (d.touched rfl side).release hp
  have hinfo₁ := mono_getUserInfo _ t hp hstrict
  have hsame := getUserInfo_of_touched s { s with lending := d.lending } rfl rfl rfl htouched hinfo₁
  cases hinfo.symm.trans hsame
  -- the supply, at its weight
  have hlisted : getId ∈ d.supplies.assets t := (hs.touched htouched .supply).listed t getId d.supplied_some
  obtain ⟨_, r, _, hr⟩ := (info_total hinfo₁ .supply).1 getId hlisted
  have hr' : (s.assets.getRate getId).mul d.getAccrued.safeFactor = some r := by
    obtain ⟨pool, hpool, hr⟩ := Option.bind_eq_some_iff.mp hr
    cases hpool.symm.trans d.get_stored
    rw [(accrueInterest_frame d.get_accrues).2.2.2.2]
    exact hr
  have hsupplied' : d.supplied'.toNat + d.seized.toNat = d.supplied.toNat := toNat_sub rfl d.supplied'_eq
  have hsupply := ((d.replaces_supply hp hs).of_touched (htouched .supply) rfl rfl rfl).converted_rounded (by omega)
    hstrict hinfo' hr
  -- the debt, at its price
  have howed' : d.owed'.toNat + d.paid.toNat = d.owed.toNat := toNat_sub rfl d.owed'_eq
  have hdebt : (converted info' .debt).toNat + rounded 128 ((s.assets.getRate payId).toNat * d.owed.toNat) accuracy =
      (converted info .debt).toNat + rounded 128 ((s.assets.getRate payId).toNat * d.owed'.toNat) accuracy :=
    ((d.replaces_debt hp hs).of_touched (htouched .debt) rfl rfl rfl).converted_rounded (by omega) hstrict hinfo' rfl
  have hfair := fair_weighted hstandard hr' d.amounts_eq
  have hsums : r.toNat * d.supplied.toNat + (s.assets.getRate payId).toNat * d.owed'.toNat ≤
      r.toNat * d.supplied'.toNat + (s.assets.getRate payId).toNat * d.owed.toNat := by
    rw [← hsupplied', ← howed', Nat.mul_add, Nat.mul_add]
    omega
  have hexchange := rounded_exchange (w := 128) accuracy_pos hsums
  change (converted info' .debt).toNat - ((converted info' .supply).toNat : Int) ≤
    (converted info .debt).toNat - (converted info .supply).toNat + 2
  omega

/-- **A liquidation makes progress, up to the rounding**: one that returns `Ok` without overflow or saturation leaves
the target with a shortfall that is at most two more than before. -/
theorem liquidation_progress {origin : Origin A} (h : Reached cfg (fun _ _ => True) s)
    (hd : dispatch cfg .strict s origin (.liquidate t payId getId x) = some (.ok (), s')) {before after : Int}
    (hbefore : shortfall s t = some before) (hafter : shortfall s' t = some after) : after ≤ before + 2 := by
  rcases dispatch_cases hd with ⟨u, rfl, hstep⟩ | ⟨⟨_, ⟨⟩⟩, _⟩ | ⟨_, _, ⟨⟩, _⟩
  cases hstep with
  | posted _ _ entry _ => cases entry
  | settled d =>
    have hstandard :=
      (reached_standard h d.get_stored).accrued (release_accrues Profile.strict_le_release d.get_accrues)
    exact d.shortfall_le (reached_listed h) hstandard hbefore hafter

/-- The liquidation of the tests: user `1` pays 10000 of the debt of user `2`, whose collateral has lost its price. -/
theorem liquidation_progress_mock : ∃ s s' after, Reached mockConfig (fun _ _ => True) s ∧
    dispatch mockConfig .strict s (.signed 1) (.liquidate 2 0 1 10000) = some (.ok (), s') ∧
    shortfall s 2 = some 650000 ∧ shortfall s' 2 = some after ∧ after ≤ 650002 := by
  obtain ⟨s₀, s, s', after, hs₀, hs, hd, hbefore, hafter⟩ : ∃ s₀ s s' after, genesis .release mockGenesis = some s₀ ∧
      exec (guarded (step mockConfig .release) (fun _ _ => True)) s₀
        [.advance 1, .call (.signed 1) (.lending (.supply 0 100000)), .call (.signed 2) (.lending (.supply 1 100000)),
          .call (.signed 2) (.lending (.borrow 0 10000)),
          .call .root (.assets (.setPrice 1 ⟨5000000000000000000⟩)), .advance 1001] = some s ∧
      dispatch mockConfig .strict s (.signed 1) (.liquidate 2 0 1 10000) = some (.ok (), s') ∧
      shortfall s 2 = some 650000 ∧ shortfall s' 2 = some after := ⟨_, _, _, _, rfl, rfl, rfl, rfl, rfl⟩
  have hreached : Reached mockConfig (fun _ _ => True) s := ⟨mockGenesis, s₀, hs₀, run_of_exec hs⟩
  exact ⟨s, s', after, hreached, hd, hbefore, hafter, liquidation_progress hreached hd hbefore hafter⟩

/-- One unit paid and one seized. The counted supply is past the word before and in it after, so it is first rounded up
and then down, and falls by two; the counted debt is rounded to the same number twice. -/
theorem shortfall_grows_by_two : ∃ s s', Reached mockConfig (fun _ _ => True) s ∧
    dispatch mockConfig .strict s (.signed 1) (.liquidate 2 0 1 1) = some (.ok (), s') ∧
    shortfall s 2 = some 1 ∧ shortfall s' 2 = some 3 := by
  obtain ⟨s₀, s, s', hs₀, hs, hd, hbefore, hafter⟩ : ∃ s₀ s s', genesis .release richGenesis = some s₀ ∧
      exec (guarded (step mockConfig .release) (fun _ _ => True)) s₀
        [.advance 1, .call (.signed 1) (.assets (.transferAsset 1 2 481781632338862329695)),
          .call (.signed 1) (.lending (.supply 0 1000000000000000000000)),
          .call (.signed 2) (.lending (.supply 1 481781632338862329695)),
          .call .root (.assets (.setPrice 0 ⟨972550000000000000⟩)),
          .call .root (.assets (.setPrice 1 ⟨1100000000000000000⟩)),
          .call (.signed 2) (.lending (.borrow 0 349886758440119750620)),
          .call .root (.assets (.setPrice 1 ⟨1009000000000000000⟩))] = some s ∧
      dispatch mockConfig .strict s (.signed 1) (.liquidate 2 0 1 1) = some (.ok (), s') ∧
      shortfall s 2 = some 1 ∧ shortfall s' 2 = some 3 := ⟨_, _, _, rfl, rfl, rfl, rfl, rfl⟩
  exact ⟨s, s', ⟨richGenesis, s₀, hs₀, run_of_exec hs⟩, hd, hbefore, hafter⟩

end Konomi.Lending
