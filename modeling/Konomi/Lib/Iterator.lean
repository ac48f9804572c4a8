import Mathlib.Data.List.Infix
import Mathlib.Tactic

/-!
# Searches that share an iterator

A search that compares the key of every item with the *same* iterator. `allNext` compares one key and returns what is
left of the iterator, which a comparison that fails has shortened; `findNext` compares the next item with that.

`findNext_iff` says which item is found: the first whose key is a prefix of what the keys before it have left
(`leftAt`). An item whose key is the whole iterator is found in the first place only (`findNext_whole`).
-/

namespace Iterator
variable {α β : Type} [DecidableEq α] {key : β → List α} {items : List β} {left k : List α} {item : β}

/-- `xs.iter().all(|x| Some(*x) == left.next())`, with what is left of the iterator. -/
def allNext : List α → List α → Bool × List α
  | [], left => (true, left)
  | _ :: _, [] => (false, [])
  | x :: xs, c :: left => if x = c then allNext xs left else (false, left)

/-- `items.find(|item| key(item).iter().all(|x| Some(*x) == left.next()))` -/
def findNext (key : β → List α) : List β → List α → Option β
  | [], _ => none
  | item :: items, left =>
    match allNext (key item) left with
    | (true, _) => some item
    | (false, left) => findNext key items left

/-- What is left of the iterator when the item at an index is compared, if none before it was found. -/
def leftAt (key : β → List α) : List β → List α → Nat → List α
  | item :: items, left, i + 1 => leftAt key items (allNext (key item) left).2 i
  | _, left, _ => left

@[simp] theorem leftAt_zero : leftAt key items left 0 = left := by cases items <;> rfl

@[simp] theorem leftAt_cons (i : Nat) :
    leftAt key (item :: items) left (i + 1) = leftAt key items (allNext (key item) left).2 i := rfl

/-- A key is accepted when it is a prefix of what is left, not only when it is all of it. -/
theorem allNext_iff (k left : List α) : (allNext k left).1 = true ↔ k <+: left := by
  fun_induction allNext k left with
  | case1 left => simp
  | case2 => simp
  | case3 x xs left ih => simpa using ih
  | case4 x xs c left hne => simp [List.cons_prefix_cons, hne]

theorem allNext_length_le (k left : List α) : (allNext k left).2.length ≤ left.length := by
  fun_induction allNext k left with
  | case1 left => exact le_refl _
  | case2 => exact le_refl _
  | case3 x xs left ih => exact ih.trans (Nat.le_succ _)
  | case4 x xs c left hne => exact Nat.le_succ _

theorem allNext_length_lt (h : ¬ k <+: left) (hleft : left ≠ []) : (allNext k left).2.length < left.length := by
  fun_cases allNext k left with
  | case1 => simp at h
  | case2 => simp at hleft
  | case3 x xs left => exact Nat.lt_succ_of_le (allNext_length_le _ _)
  | case4 x xs c left hne => exact Nat.lt_succ_self _

@[simp] theorem allNext_nil_right (k : List α) : (allNext k []).2 = [] :=
  List.length_eq_zero_iff.mp (Nat.le_zero.mp (allNext_length_le k []))

@[simp] theorem leftAt_nil (i : Nat) : leftAt key items [] i = [] := by
  induction items generalizing i with
  | nil => rfl
  | cons item items ih =>
    cases i with
    | zero => rfl
    | succ i => rw [leftAt_cons, allNext_nil_right, ih]

/-- A comparison that fails on the last element uses it up. -/
theorem allNext_last {c : α} (h : ¬ k <+: [c]) : (allNext k [c]).2 = [] :=
  List.length_eq_zero_iff.mp (Nat.lt_one_iff.mp (allNext_length_lt h (List.cons_ne_nil c [])))

theorem findNext_cons (item : β) (items : List β) (left : List α) : findNext key (item :: items) left =
    if key item <+: left then some item else findNext key items (allNext (key item) left).2 := by
  have hiff := allNext_iff (key item) left
  rw [findNext]
  rcases h : allNext (key item) left with ⟨_ | _, rest⟩
  · rw [h] at hiff
    rw [if_neg (by simpa using hiff)]
  · rw [h] at hiff
    rw [if_pos (by simpa using hiff)]

/-- **Which item is found.** -/
theorem findNext_iff : findNext key items left = some item ↔ ∃ i : Nat, items[i]? = some item ∧
    key item <+: leftAt key items left i ∧
    ∀ j < i, ∀ other, items[j]? = some other → ¬ key other <+: leftAt key items left j := by
  induction items generalizing left with
  | nil => simp [findNext]
  | cons first items ih =>
    rw [findNext_cons]
    split
    · rename_i hfirst
      constructor
      · intro h
        cases h
        exact ⟨0, rfl, hfirst, fun j hj => absurd hj (Nat.not_lt_zero j)⟩
      · rintro ⟨_ | i, hitem, _, hbefore⟩
        · exact hitem
        · exact absurd hfirst (hbefore 0 (Nat.succ_pos i) first rfl)
    · rename_i hfirst
      rw [ih]
      constructor
      · rintro ⟨i, hitem, hkey, hbefore⟩
        refine ⟨i + 1, hitem, hkey, ?_⟩
        rintro (_ | j) hj other hother
        · cases hother
          exact hfirst
        · exact hbefore j (Nat.lt_of_succ_lt_succ hj) other hother
      · rintro ⟨_ | i, hitem, hkey, hbefore⟩
        · cases hitem
          exact absurd hkey hfirst
        · exact ⟨i, hitem, hkey, fun j hj => hbefore (j + 1) (Nat.succ_lt_succ hj)⟩

theorem findNext_length_le (h : findNext key items left = some item) : (key item).length ≤ left.length := by
  induction items generalizing left with
  | nil => cases h
  | cons first items ih =>
    rw [findNext_cons] at h
    split at h
    · rename_i hfirst
      cases h
      exact hfirst.length_le
    · exact (ih h).trans (allNext_length_le _ _)

/-- **An item whose key is all of the iterator is found in the first place only.** -/
theorem findNext_whole (hleft : left ≠ []) (h : findNext key items left = some item) (hkey : key item = left) :
    items.head? = some item := by
  cases items with
  | nil => cases h
  | cons first items =>
    rw [findNext_cons] at h
    split at h
    · exact h
    · rename_i hfirst
      have hshort := (findNext_length_le h).trans_lt (allNext_length_lt hfirst hleft)
      rw [hkey] at hshort
      exact absurd hshort (lt_irrefl _)

end Iterator
