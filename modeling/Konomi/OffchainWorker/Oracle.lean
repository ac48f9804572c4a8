import Konomi.OffchainWorker.Delivery
import Konomi.OffchainWorker.Price

/-!
# From the response to the price of the chain

A worker reads a text, parses a decimal number in it and sends its cents; the chain stores the cents of the last update
as a fixed point number, and the lending pallet reads that. `Report` is a response that the worker reads right. If all
submitted prices come of reports, then the price of the chain is the number in the last one executed, rounded down to
the cent (`oracle_truncates`): the two roundings on the way, of `parse_price` and of `saturating_from_rational`, add up
to less than one cent.
-/

namespace Konomi.OffchainWorker
open Machine

variable {A : Type} [DecidableEq A] {parseJson : String → Option JsonValue} {params : Parameters} {p : Profile}
  {cfg : Config A} {s t : Storage A} {actions : List (Action A)} {blocks : List BlockNumber} {n : BlockNumber}
  {x : BitVec 32}

/-- A response with a decimal number that `parse_price` reads right, and that was sent as the price `x`. -/
structure Report (parseJson : String → Option JsonValue) (n : BlockNumber) (x : BitVec 32) where
  next : BlockNumber
  response : Response
  text : String
  number : NumberValue
  decimal : Decimal
  sent : fetchPriceAndSendRawUnsigned parseJson .release next n (.ok response) = some (.ok (.submitPriceUnsigned n x))
  body : String.fromUTF8? response.body = some text
  json : parseJson text = some (.object [(usd, .number number)])
  reads : number.Reads decimal
  fits : decimal.integer * 100 + 99 < 2 ^ 32
  single : decimal.fraction.length = 1 → decimal.numerator = 0
  long : 21 < decimal.fraction.length → decimal.numerator < scale decimal.fraction.length

/-- All prices that are submitted without a signature come of reports. -/
def Reported (parseJson : String → Option JsonValue) (actions : List (Action A)) : Prop :=
  ∀ n x, .submit .none n x ∈ actions → Nonempty (Report parseJson n x)

theorem text_toUTF8 (text : String) : String.fromUTF8? text.toUTF8 = some text := dif_pos text.isValidUTF8

theorem parsePrice_of_sent {next : BlockNumber} {response : Response} {text : String}
    (hbody : String.fromUTF8? response.body = some text)
    (h : fetchPriceAndSendRawUnsigned parseJson p next n (.ok response) = some (.ok (.submitPriceUnsigned n x))) :
    parsePrice parseJson p text = some (some x) := by
  unfold fetchPriceAndSendRawUnsigned at h
  split at h
  · cases h
  · obtain ⟨fetched, hfetched, h⟩ := Option.bind_eq_some_iff.mp h
    cases fetched with
    | error e => cases h
    | ok price =>
      cases h
      unfold fetchPrice at hfetched
      dsimp only at hfetched
      split at hfetched
      · cases hfetched
      · rw [hbody] at hfetched
        obtain ⟨parsed, hparsed, hfetched⟩ := Option.bind_eq_some_iff.mp hfetched
        cases parsed with
        | none => cases hfetched
        | some price =>
          cases hfetched
          exact hparsed

namespace Report
variable (report : Report parseJson n x)

theorem scale_ne_zero : scale report.decimal.fraction.length ≠ 0 := by
  intro hzero
  by_cases hlong : 21 < report.decimal.fraction.length
  · have hless := report.long hlong
    rw [hzero] at hless
    exact Nat.not_lt_zero _ hless
  · rw [scale_short (Nat.not_lt.mp hlong)] at hzero
    exact absurd hzero (Nat.pow_pos (by decide)).ne'

theorem cents_eq : x.toNat = ⌊report.decimal.value * 100⌋₊ := by
  obtain ⟨c, hc, hvalue⟩ := toNat_cents report.reads report.fits report.scale_ne_zero
  have hparsed := parsePrice_of_sent report.body report.sent
  rw [parsePrice_single report.json, hc] at hparsed
  cases hparsed
  rw [hvalue, floor_cents]
  by_cases hshort : report.decimal.fraction.length ≤ 21
  · exact (short_iff report.fits hshort).mpr report.single
  · have hlong := Nat.not_le.mp hshort
    have hfraction : report.decimal.numerator < 2 ^ 64 := by
      rw [← report.reads.fraction]
      exact report.number.fraction.isLt
    exact (long_iff report.fits hfraction hlong report.scale_ne_zero).mpr (report.long hlong)

theorem rate_bounds {rate : FixedU128} (h : rate.toNat = x.toNat * 10 ^ 16) :
    rate.toRat ≤ report.decimal.value ∧ report.decimal.value < rate.toRat + 1 / 100 := by
  have hvalue : 0 ≤ report.decimal.value * 100 := by
    unfold Decimal.value
    positivity
  have hrate : rate.toRat = (⌊report.decimal.value * 100⌋₊ : ℚ) / 100 := by
    rw [← report.cents_eq, Fixed.toRat, h]
    unfold accuracy
    push_cast
    ring
  have hlow := Nat.floor_le hvalue
  have hhigh := Nat.lt_floor_add_one (report.decimal.value * 100)
  rw [hrate]
  constructor <;> linarith

end Report

/-- **The price of the chain is the reported number, rounded down to the cent.** Over every run in which the unsigned
submissions come of reports, copies and late ones among them, and the root does not set the price of asset `4`: if no
update was executed, the price that the lending pallet reads is the one from before; and else the last update, which
was due when it was executed, is of a report whose decimal number is at least that price and less than a cent above. -/
theorem oracle_truncates (h : history params p cfg s actions = some (t, blocks)) (hroot : NotSet 4 actions)
    (hreported : Reported parseJson actions) :
    (blocks = [] ∧ t.chain.assets.getRate 4 = s.chain.assets.getRate 4) ∨
      ∃ before after n x u earlier, ∃ report : Report parseJson n x, actions = before ++ .submit .none n x :: after ∧
        history params p cfg s before = some (u, earlier) ∧ blocks = earlier ++ [u.chain.blockNumber] ∧
        u.nextUnsignedAt ≤ n ∧ n ≤ u.chain.blockNumber ∧
        (t.chain.assets.getRate 4).toRat ≤ report.decimal.value ∧
        report.decimal.value < (t.chain.assets.getRate 4).toRat + 1 / 100 := by
  rcases history_rate h hroot with hnone | ⟨before, after, n, x, u, earlier, hactions, hbefore, hadmitted, hblocks, hrate⟩
  · exact Or.inl hnone
  · obtain ⟨report⟩ : Nonempty (Report parseJson n x) := by
      apply hreported n x
      rw [hactions]
      exact List.mem_append_right _ List.mem_cons_self
    obtain ⟨hdue, hn⟩ := admitted_iff.mp hadmitted
    exact Or.inr ⟨before, after, n, x, u, earlier, report, hactions, hbefore, hblocks, hdue, hn, report.rate_bounds hrate⟩

/-- A number with three digits after the point is sent as its first two. -/
theorem report_three_digits : ∃ parseJson, Nonempty (Report parseJson 10 1920345) := by
  let text := "\x7b\"USD\":19203.459\x7d"
  let number : NumberValue := ⟨19203, 459, 3, 0⟩
  have hjson := knows_self text (.object [(usd, .number number)])
  have hparsed : parsePrice (knows text (.object [(usd, .number number)])) .release text = some (some 1920345) := by
    rw [parsePrice_single hjson]
    decide
  exact ⟨_, ⟨{
    next := 0
    response := ⟨200, text.toUTF8⟩
    text := text
    number := number
    decimal := ⟨19203, [4, 5, 9], by decide⟩
    sent := sent_of_response (by decide) hparsed
    body := text_toUTF8 text
    json := hjson
    reads := ⟨rfl, rfl, rfl, rfl⟩
    fits := by decide
    single := by decide
    long := by decide }⟩⟩

/-- The price of such a report, and a late copy of it. -/
theorem oracle_truncates_runtime : ∃ (parseJson : String → Option JsonValue) (s t : Storage (Fin 4)),
    history runtimeParameters .release mockConfig s [.submit .none 10 1920345, .advance 14, .submit .none 10 1920345] =
      some (t, [10]) ∧
    (t.chain.assets.getRate 4).toNat * 100 = 1920345 * accuracy ∧
    ∃ n x, ∃ report : Report parseJson n x, (t.chain.assets.getRate 4).toRat ≤ report.decimal.value ∧
      report.decimal.value < (t.chain.assets.getRate 4).toRat + 1 / 100 := by
  obtain ⟨s₀, s, t, hs₀, hs, ht, hrate⟩ : ∃ s₀ s t, genesis .release mockGenesis = some s₀ ∧
      history runtimeParameters .release mockConfig ⟨s₀, 0⟩ [.advance 10] = some (s, []) ∧
      history runtimeParameters .release mockConfig s
        [.submit .none 10 1920345, .advance 14, .submit .none 10 1920345] = some (t, [10]) ∧
      (t.chain.assets.getRate 4).toNat * 100 = 1920345 * accuracy := ⟨_, _, _, rfl, rfl, rfl, rfl⟩
  obtain ⟨parseJson, ⟨report⟩⟩ := report_three_digits
  have hreported : Reported parseJson (A := Fin 4)
      [.submit .none 10 1920345, .advance 14, .submit .none 10 1920345] := by
    intro n x hmem
    simp only [List.mem_cons, Action.submit.injEq, List.not_mem_nil, reduceCtorEq, false_or, or_false, true_and,
      or_self] at hmem
    obtain ⟨rfl, rfl⟩ := hmem
    exact ⟨report⟩
  refine ⟨parseJson, s, t, ht, hrate, ?_⟩
  rcases oracle_truncates ht (fun price hmem => by simp at hmem) hreported with
    ⟨hnone, _⟩ | ⟨_, _, n, x, _, _, report, _, _, _, _, _, hbounds⟩
  · cases hnone
  · exact ⟨n, x, report, hbounds⟩

end Konomi.OffchainWorker
