import Mathlib.Tactic

/-!
# Reserves of a pool of two assets

Arithmetic on natural numbers, with floors.

* `quote i o x` : what `x` buys from a pool that holds `i` of the asset paid in and `o` of the other, at a constant
  product (`product_le`); it never buys the whole reserve (`quote_lt`), and in parts it buys no more (`quotes_le`);
* `Unspent r r'` : from the reserves `r` to `r'` the product has not dropped and no reserve was emptied. It composes
  (`Unspent.trans`), and excludes less of one asset without more of the other (`Unspent.not_less`);
* `shares_kept_iff`, `redeemed_le`, `redeem_lt` : shares minted against a deposit, and redeemed again;
* `worth r L` : what a share is worth, kept where the product grows and where shares and reserves change in proportion.
-/

namespace Reserves

/-! ## Quotes -/

/-- What `x` buys from reserves `i` (paid in) and `o` (paid out), rounded down. -/
def quote (i o x : Nat) : Nat := o * x / (x + i)

variable {i o p x y m : Nat}

theorem quote_mul_le (i o x : Nat) : quote i o x * (x + i) ≤ o * x := Nat.div_mul_le_self _ _

theorem quote_le (i o x : Nat) : quote i o x ≤ o := by
  apply Nat.div_le_of_le_mul
  rw [Nat.mul_comm]
  exact Nat.mul_le_mul_right o (Nat.le_add_right x i)

theorem quote_lt (hi : 0 < i) (ho : 0 < o) : quote i o x < o := by
  have hpos : 0 < x + i := by omega
  have hgap : 0 < o * i := Nat.mul_pos ho hi
  rw [quote, Nat.div_lt_iff_lt_mul hpos, Nat.mul_add]
  omega

theorem quote_self_le (i x : Nat) : quote i i x ≤ x := by
  apply Nat.div_le_of_le_mul
  nlinarith

theorem product_le (hy : y ≤ quote i o x) (hyo : y ≤ o) : i * o ≤ (i + x) * (o - y) := by
  obtain ⟨k, rfl⟩ := Nat.exists_eq_add_of_le hyo
  have hquote : y * (x + i) ≤ (y + k) * x := (Nat.mul_le_mul_right _ hy).trans (quote_mul_le i (y + k) x)
  rw [Nat.add_sub_cancel_left]
  nlinarith

/-- Selling what was bought, into the reserves before both trades, returns at most what was paid. -/
theorem le_of_round_trip (hi : 0 < i) (hm : m ≤ quote p i x) (hy : y ≤ quote i p m) : y ≤ x := by
  have hbuy : m * (x + p) ≤ i * x := (Nat.mul_le_mul_right _ hm).trans (quote_mul_le p i x)
  have hsell : y * (m + i) ≤ p * m := (Nat.mul_le_mul_right _ hy).trans (quote_mul_le i p m)
  have hle : y * (m + i) ≤ x * (m + i) := by nlinarith
  exact Nat.le_of_mul_le_mul_right hle (by omega)

theorem le_quote_self_iff (hi : 0 < i) : y ≤ quote i o y ↔ y = 0 ∨ i + y ≤ o := by
  have hpos : 0 < y + i := by omega
  rw [quote, Nat.le_div_iff_mul_le hpos]
  constructor
  · intro h
    by_cases hy : y = 0
    · exact Or.inl hy
    · have hle : (y + i) * y ≤ o * y := by nlinarith
      have := Nat.le_of_mul_le_mul_right hle (by omega)
      omega
  · rintro (rfl | h)
    · simp
    · nlinarith

theorem product_self_iff (hy : y ≤ o) : i * o ≤ (i + y) * (o - y) ↔ y = 0 ∨ i + y ≤ o := by
  obtain ⟨k, rfl⟩ := Nat.exists_eq_add_of_le hy
  rw [Nat.add_sub_cancel_left]
  constructor
  · intro h
    by_cases hy : y = 0
    · exact Or.inl hy
    · have hle : i * y ≤ k * y := by nlinarith
      have := Nat.le_of_mul_le_mul_right hle (by omega)
      omega
  · rintro (rfl | h)
    · simp
    · nlinarith

/-- What the amounts of a list buy one after the other, each from the reserves that the ones before it left. -/
def quotes : Nat → Nat → List Nat → Nat
  | _, _, [] => 0
  | i, o, x :: xs => quote i o x + quotes (i + x) (o - quote i o x) xs

theorem quotes_mul_le (xs : List Nat) : ∀ i o : Nat, quotes i o xs * (xs.sum + i) ≤ o * xs.sum := by
  induction xs with
  | nil => simp [quotes]
  | cons x xs ih =>
    intro i o
    rw [quotes, List.sum_cons]
    have hfirst := quote_mul_le i o x
    have hrest := ih (i + x) (o - quote i o x)
    obtain ⟨left, hleft⟩ := Nat.exists_eq_add_of_le (quote_le i o x)
    generalize quote i o x = y at *
    subst hleft
    rw [Nat.add_sub_cancel_left] at hrest ⊢
    generalize quotes (i + x) left xs = ys at *
    -- the rest is bought from what the first one left of the reserve
    calc (y + ys) * (x + xs.sum + i) = y * (x + i) + y * xs.sum + ys * (xs.sum + (i + x)) := by ring
      _ ≤ (y + left) * x + y * xs.sum + left * xs.sum := by omega
      _ = (y + left) * (x + xs.sum) := by ring

/-- The amounts of a list buy at most what their sum buys at once. -/
theorem quotes_le (hi : 0 < i) (o : Nat) (xs : List Nat) : quotes i o xs ≤ quote i o xs.sum := by
  rw [quote, Nat.le_div_iff_mul_le (by omega)]
  exact quotes_mul_le xs i o

/-! ## Histories of reserves -/

/-- From `r` to `r'` the product has not dropped and no reserve was emptied; where one reserve stays empty the other has
not shrunk. -/
structure Unspent (r r' : Nat × Nat) : Prop where
  product : r.1 * r.2 ≤ r'.1 * r'.2
  left : 0 < r.1 → 0 < r'.1
  right : 0 < r.2 → 0 < r'.2
  left_of_empty : r'.2 = 0 → r.1 ≤ r'.1
  right_of_empty : r'.1 = 0 → r.2 ≤ r'.2

namespace Unspent
variable {r r' r'' : Nat × Nat}

theorem of_le (h₁ : r.1 ≤ r'.1) (h₂ : r.2 ≤ r'.2) : Unspent r r' where
  product := Nat.mul_le_mul h₁ h₂
  left := by omega
  right := by omega
  left_of_empty := fun _ => h₁
  right_of_empty := fun _ => h₂

theorem refl (r : Nat × Nat) : Unspent r r := of_le le_rfl le_rfl

/-- A trade in which at least `x` comes in, and at most `y` goes out, for no more than the quote. -/
theorem of_trade (h₁ : 0 < r.1) (h₂ : 0 < r.2) (hy : y ≤ quote r.1 r.2 x) (hin : r.1 + x ≤ r'.1)
    (hout : r.2 ≤ r'.2 + y) : Unspent r r' := by
  have hlt : quote r.1 r.2 x < r.2 := quote_lt h₁ h₂
  have hproduct : r.1 * r.2 ≤ r'.1 * r'.2 :=
    (product_le hy (by omega)).trans (Nat.mul_le_mul hin (by omega))
  exact ⟨hproduct, by omega, by omega, by omega, by omega⟩

theorem trans (h : Unspent r r') (h' : Unspent r' r'') : Unspent r r'' where
  product := h.product.trans h'.product
  left := fun hr => h'.left (h.left hr)
  right := fun hr => h'.right (h.right hr)
  left_of_empty := by
    intro h0
    have hbefore : r'.2 = 0 := by
      by_contra hne
      have := h'.right (by omega)
      omega
    exact (h.left_of_empty hbefore).trans (h'.left_of_empty h0)
  right_of_empty := by
    intro h0
    have hbefore : r'.1 = 0 := by
      by_contra hne
      have := h'.left (by omega)
      omega
    exact (h.right_of_empty hbefore).trans (h'.right_of_empty h0)

theorem swap (h : Unspent r r') : Unspent r.swap r'.swap where
  product := by
    simp only [Prod.fst_swap, Prod.snd_swap]
    rw [Nat.mul_comm r.2, Nat.mul_comm r'.2]
    exact h.product
  left := h.right
  right := h.left
  left_of_empty := h.right_of_empty
  right_of_empty := h.left_of_empty

/-- No history leaves less of the first asset and not more of the second. -/
theorem not_less (h : Unspent r r') : ¬ (r'.1 < r.1 ∧ r'.2 ≤ r.2) := by
  rintro ⟨h₁, h₂⟩
  by_cases h0 : r'.2 = 0
  · have := h.left_of_empty h0
    omega
  · have hlt : r'.1 * r'.2 < r.1 * r.2 := Nat.mul_lt_mul_of_lt_of_le h₁ h₂ (by omega)
    have := h.product
    omega

theorem left_le (h : Unspent r r') (h₂ : r'.2 ≤ r.2) : r.1 ≤ r'.1 := by
  by_contra hlt
  exact h.not_less ⟨by omega, h₂⟩

theorem right_le (h : Unspent r r') (h₁ : r'.1 ≤ r.1) : r.2 ≤ r'.2 := h.swap.left_le h₁

/-- What the pool says to its providers: the product has not dropped, no reserve was emptied, and it does not have less
of one asset and not more of the other. -/
theorem spec (h : Unspent r r') :
    r.1 * r.2 ≤ r'.1 * r'.2 ∧ (0 < r.1 → 0 < r'.1) ∧ (0 < r.2 → 0 < r'.2) ∧
      ¬ (r'.1 < r.1 ∧ r'.2 ≤ r.2) ∧ ¬ (r'.2 < r.2 ∧ r'.1 ≤ r.1) :=
  ⟨h.product, h.left, h.right, h.not_less, h.swap.not_less⟩

end Unspent

/-! ## Shares -/

variable {a b c l L : Nat}

/-- Shares minted against a deposit `a` into a reserve `b` dilute nobody exactly when they cost their price. -/
theorem shares_kept_iff : b * (L + m) ≤ (b + a) * L ↔ b * m ≤ a * L := by
  rw [Nat.mul_add, Nat.add_mul]
  omega

theorem minted_le (b a L : Nat) : b * (L * a / b) ≤ a * L := by
  rw [Nat.mul_comm a L]
  exact Nat.mul_div_le _ _

theorem redeemed_le (h : b * m ≤ a * L) : (b + a) * m / (L + m) ≤ a := by
  apply Nat.div_le_of_le_mul
  nlinarith

theorem redeem_lt (hb : 0 < b) (h : l < L) : b * l / L < b := by
  rw [Nat.div_lt_iff_lt_mul (by omega)]
  exact Nat.mul_lt_mul_of_pos_left h hb

theorem redeem_le (h : l ≤ L) : b * l / L ≤ b := by
  apply Nat.div_le_of_le_mul
  rw [Nat.mul_comm L]
  exact Nat.mul_le_mul_left b h

theorem redeem_kept (h : c + b * l / L = b) : b * (L - l) ≤ c * L := by
  have hfloor := Nat.div_mul_le_self (b * l) L
  have hsum : c * L + b * l / L * L = b * L := by rw [← Nat.add_mul, h]
  rw [Nat.mul_sub]
  omega

/-- Redeemed twice, a part leaves them theirs only if it is nothing. -/
theorem redeem_twice (hl : l ≤ L) (hL : 0 < L) (h : c + 2 * (b * l / L) = b) (hkept : b * (L - l) ≤ c * L) :
    b * l / L = 0 := by
  have hlt := Nat.lt_mul_div_succ (b * l) hL
  have hle : b * l ≤ b * L := Nat.mul_le_mul_left b hl
  have hsum : c * L + 2 * (b * l / L) * L = b * L := by rw [← Nat.add_mul, h]
  generalize b * l / L = y at hlt hsum ⊢
  have htwice : L * (2 * y) < L * (y + 1) := by
    rw [Nat.mul_sub] at hkept
    rw [Nat.mul_comm L (2 * y)]
    omega
  have := Nat.lt_of_mul_lt_mul_left htwice
  omega

/-! ## The worth of a share -/

/-- The worth of one of `L` shares of the reserves `r`: its part of the one times its part of the other. -/
def worth (r : Nat × Nat) (L : Nat) : ℚ := r.1 * r.2 / L ^ 2

variable {r r' : Nat × Nat} {L' : Nat}

theorem worth_le_of_product (L : Nat) (h : r.1 * r.2 ≤ r'.1 * r'.2) : worth r L ≤ worth r' L := by
  unfold worth
  exact div_le_div_of_nonneg_right (by exact_mod_cast h) (by positivity)

theorem worth_le_of_sides (hL : 0 < L) (hL' : 0 < L') (h₁ : r.1 * L' ≤ r'.1 * L) (h₂ : r.2 * L' ≤ r'.2 * L) :
    worth r L ≤ worth r' L' := by
  have hsquares : r.1 * r.2 * L' ^ 2 ≤ r'.1 * r'.2 * L ^ 2 := by
    calc r.1 * r.2 * L' ^ 2 = r.1 * L' * (r.2 * L') := by ring
      _ ≤ r'.1 * L * (r'.2 * L) := Nat.mul_le_mul h₁ h₂
      _ = r'.1 * r'.2 * L ^ 2 := by ring
  unfold worth
  rw [div_le_div_iff₀ (by positivity) (by positivity)]
  exact_mod_cast hsquares

end Reserves
