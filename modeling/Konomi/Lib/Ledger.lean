import Mathlib.Algebra.BigOperators.Fin
import Mathlib.Algebra.Order.BigOperators.Group.Finset
import Mathlib.Data.Fintype.BigOperators
import Mathlib.Tactic

/-!
# Ledgers over a finite set of accounts

A ledger gives every account a natural number. `move f a b x` takes `x` from `a` and then gives it to `b`, so a
move from an account to itself changes nothing. Moves keep the sum (`sum_move`), so a credited holding is bounded
by the sum of all holdings (`move_le_sum`).

Of two ledgers with the same sum, what a coalition has gained, the others have lost (`coalition_le`, `outsider_le`).
-/

namespace Ledger
variable {A : Type} [DecidableEq A]

/-- Take `x` from `a`, then give it to `b`. -/
def move (f : A → Nat) (a b : A) (x : Nat) : A → Nat :=
  Function.update (Function.update f a (f a - x)) b (Function.update f a (f a - x) b + x)

theorem le_move {f : A → Nat} {a b u : A} {x : Nat} (hu : u ≠ a) : f u ≤ move f a b x u := by
  by_cases hb : u = b
  · subst hb
    simp only [move, Function.update_self, Function.update_of_ne hu]
    omega
  · simp only [move, Function.update_of_ne hb, Function.update_of_ne hu, le_refl]

theorem move_payer {f : A → Nat} {a b : A} {x : Nat} (hab : a ≠ b) : move f a b x a = f a - x := by
  rw [move, Function.update_of_ne hab, Function.update_self]

theorem move_payee {f : A → Nat} {a b : A} {x : Nat} (hab : b ≠ a) : move f a b x b = f b + x := by
  rw [move, Function.update_self, Function.update_of_ne hab]

theorem move_add {f : A → Nat} {a b : A} {x : Nat} (hx : x ≤ f a) (u : A) :
    move f a b x u + (if a = u then x else 0) = f u + if b = u then x else 0 := by
  by_cases hb : b = u
  · subst hb
    by_cases ha : a = b
    · subst ha
      simp only [move, Function.update_self, if_true]
      omega
    · rw [move_payee (Ne.symm ha), if_neg ha, if_pos rfl]
      omega
  · by_cases ha : a = u
    · subst ha
      rw [move_payer (Ne.symm hb), if_pos rfl, if_neg hb]
      omega
    · rw [move, Function.update_of_ne (Ne.symm hb), Function.update_of_ne (Ne.symm ha), if_neg ha, if_neg hb]

variable [Fintype A]

theorem sum_of_eq_off {f g : A → Nat} {a : A} (h : ∀ u, u ≠ a → g u = f u) :
    ∑ u, g u + f a = ∑ u, f u + g a := by
  have hrest : ∑ u ∈ Finset.univ.erase a, g u = ∑ u ∈ Finset.univ.erase a, f u :=
    Finset.sum_congr rfl (fun u hu => h u (Finset.ne_of_mem_erase hu))
  have hg := Finset.sum_erase_add Finset.univ g (Finset.mem_univ a)
  have hf := Finset.sum_erase_add Finset.univ f (Finset.mem_univ a)
  omega

theorem sum_move {f : A → Nat} {a b : A} {x : Nat} (hx : x ≤ f a) : ∑ u, move f a b x u = ∑ u, f u := by
  have hdebit := sum_of_eq_off (f := f) (g := Function.update f a (f a - x)) (a := a)
    (fun u hu => Function.update_of_ne hu _ _)
  have hcredit := sum_of_eq_off (f := Function.update f a (f a - x)) (g := move f a b x) (a := b)
    (fun u hu => Function.update_of_ne hu _ _)
  rw [Function.update_self] at hdebit
  have hb : move f a b x b = Function.update f a (f a - x) b + x := Function.update_self _ _ _
  omega

omit [DecidableEq A] in
theorem le_sum (f : A → Nat) (a : A) : f a ≤ ∑ u, f u :=
  Finset.single_le_sum (fun _ _ => Nat.zero_le _) (Finset.mem_univ a)

theorem pair_le_sum (f : A → Nat) {a b : A} (hab : a ≠ b) : f a + f b ≤ ∑ u, f u := by
  rw [← Finset.sum_pair hab]
  exact Finset.sum_le_sum_of_subset (Finset.subset_univ _)

theorem move_le_sum {f : A → Nat} {a b : A} {x : Nat} (hx : x ≤ f a) (u : A) :
    move f a b x u ≤ ∑ v, f v := by
  rw [← sum_move (b := b) hx]
  exact le_sum _ u

/-! ## Coalitions -/

section Coalitions
variable {f g : A → Nat} {T : Finset A}

/-- A coalition whose outsiders have not lost has not gained. -/
theorem coalition_le (hsum : ∑ u, f u = ∑ u, g u) (hkept : ∀ w, w ∉ T → f w ≤ g w) :
    ∑ u ∈ T, g u ≤ ∑ u ∈ T, f u := by
  have hf := Finset.sum_add_sum_compl T f
  have hg := Finset.sum_add_sum_compl T g
  have hrest : ∑ u ∈ Tᶜ, f u ≤ ∑ u ∈ Tᶜ, g u :=
    Finset.sum_le_sum fun w hw => hkept w (Finset.mem_compl.mp hw)
  omega

/-- Where a coalition and all but one of its outsiders have not lost, the one has not gained. -/
theorem outsider_le {e : A} (hsum : ∑ u, f u = ∑ u, g u) (hT : ∑ u ∈ T, f u ≤ ∑ u ∈ T, g u) (he : e ∉ T)
    (hkept : ∀ w, w ∉ T → w ≠ e → f w ≤ g w) : g e ≤ f e := by
  have hpair := coalition_le (T := insert e T) hsum fun w hw => by
    rw [Finset.mem_insert, not_or] at hw
    exact hkept w hw.2 hw.1
  rw [Finset.sum_insert he, Finset.sum_insert he] at hpair
  omega

end Coalitions

end Ledger
