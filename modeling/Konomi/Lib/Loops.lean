import Mathlib.Algebra.BigOperators.Group.Finset.Basic
import Mathlib.Tactic

/-!
# Loops that add up

A loop over a list is a `foldlM`: it stops the program when its body does. `foldlM_sum` reads off what a loop that
returns has added up, `foldlM_forall` what its body has found on the way, and `foldlM_imp` replaces the body.
`sum_replace` says how a sum over a list without duplicates changes when one of its entries does.
-/

namespace Machine
variable {α β M : Type} {f g : β → α → Option β} {l l' : List α} {x y : β}

/-- A body that does what `f` does wherever `f` returns. -/
theorem foldlM_imp (h : ∀ acc, ∀ a ∈ l, ∀ acc', f acc a = some acc' → g acc a = some acc')
    (hy : l.foldlM f x = some y) : l.foldlM g x = some y := by
  induction l generalizing x with
  | nil => exact hy
  | cons a l ih =>
    rw [List.foldlM_cons] at hy ⊢
    obtain ⟨z, hz, hy⟩ := Option.bind_eq_some_iff.mp hy
    apply Option.bind_eq_some_iff.mpr
    refine ⟨z, h x a (by simp) z hz, ih (fun acc b hb => h acc b (by simp [hb])) hy⟩

theorem foldlM_forall {P : α → Prop} (h : ∀ acc a acc', f acc a = some acc' → P a) (hy : l.foldlM f x = some y) :
    ∀ a ∈ l, P a := by
  induction l generalizing x with
  | nil => simp
  | cons a l ih =>
    rw [List.foldlM_cons] at hy
    obtain ⟨z, hz, hy⟩ := Option.bind_eq_some_iff.mp hy
    simp only [List.forall_mem_cons]
    exact ⟨h x a z hz, ih hy⟩

theorem foldlM_isSome (h : ∀ acc, ∀ a ∈ l, (f acc a).isSome) : (l.foldlM f x).isSome := by
  induction l generalizing x with
  | nil => rfl
  | cons a l ih =>
    obtain ⟨z, hz⟩ := Option.isSome_iff_exists.mp (h x a (by simp))
    rw [List.foldlM_cons, hz]
    exact ih (fun acc b hb => h acc b (by simp [hb]))

theorem sum_filter_add [AddCommMonoid M] (t : α → M) (c : α → Bool) :
    ((l.filter c).map t).sum + ((l.filter (fun a => !c a)).map t).sum = (l.map t).sum := by
  rw [← List.sum_append, ← List.map_append]
  exact ((List.filter_append_perm c l).map t).sum_eq

/-- A loop whose body adds `t a` to the measure `m` adds up `t`. -/
theorem foldlM_sum [AddMonoid M] {m : β → M} {t : α → M} (h : ∀ acc a acc', f acc a = some acc' → m acc' = m acc + t a)
    (hy : l.foldlM f x = some y) : m y = m x + (l.map t).sum := by
  induction l generalizing x with
  | nil =>
    cases hy
    simp
  | cons a l ih =>
    rw [List.foldlM_cons] at hy
    obtain ⟨z, hz, hy⟩ := Option.bind_eq_some_iff.mp hy
    rw [ih hy, h x a z hz, List.map_cons, List.sum_cons, add_assoc]

/-- One entry of a sum is replaced, added or removed. -/
theorem sum_replace [DecidableEq α] [AddCommMonoid M] {t t' : α → M} {a : α} (hl : l.Nodup) (hl' : l'.Nodup)
    (hmem : ∀ b, b ≠ a → (b ∈ l' ↔ b ∈ l)) (ht : ∀ b ∈ l, b ≠ a → t' b = t b) :
    (l'.map t').sum + (if a ∈ l then t a else 0) = (l.map t).sum + (if a ∈ l' then t' a else 0) := by
  have hsplit : ∀ (k : List α) (t : α → M), k.Nodup →
      (k.map t).sum = (if a ∈ k then t a else 0) + ∑ b ∈ k.toFinset.erase a, t b := by
    intro k t hk
    rw [← List.sum_toFinset t hk]
    by_cases ha : a ∈ k
    · rw [if_pos ha, Finset.add_sum_erase _ _ (List.mem_toFinset.mpr ha)]
    · rw [if_neg ha, zero_add, Finset.erase_eq_of_notMem (by simpa using ha)]
  have hrest : ∑ b ∈ l'.toFinset.erase a, t' b = ∑ b ∈ l.toFinset.erase a, t b := by
    have hset : l'.toFinset.erase a = l.toFinset.erase a := by
      ext b
      simp only [Finset.mem_erase, List.mem_toFinset]
      exact and_congr_right fun hb => hmem b hb
    rw [hset]
    refine Finset.sum_congr rfl fun b hb => ?_
    simp only [Finset.mem_erase, List.mem_toFinset] at hb
    exact ht b hb.2 hb.1
  rw [hsplit l t hl, hsplit l' t' hl', hrest]
  abel

end Machine
