import Konomi.OffchainWorker.Code

/-!
# The member the price is taken from

`parse_price` compares the keys of an object with one iterator over `"USD"`. A key is accepted when it is a prefix of
what the keys before it have left of the iterator, so `"USD"` itself is found in the first place only, and some other
keys are taken for it (`Mistaken`). `usd_member_iff` says for which objects the price comes from the first member with
the key `"USD"`, or from none.
-/

namespace Konomi.OffchainWorker
open Machine Iterator

variable {parseJson : String → Option JsonValue} {text : String} {p : Profile}
  {obj : List (List Char × JsonValue)} {m : List Char × JsonValue} {k : List Char} {i : Nat}

def keyAt (obj : List (List Char × JsonValue)) (i : Nat) : Option (List Char) := obj[i]?.map Prod.fst

/-- The key at an index begins with a word. -/
def Begins (obj : List (List Char × JsonValue)) (i : Nat) (word : List Char) : Prop :=
  ∃ k, keyAt obj i = some k ∧ word <+: k

/-- Keys that are taken for `"USD"` if none before them is: the empty one anywhere, `"U"` and `"US"` in the first place,
the rest of the word in the second or third place, as far as the keys before it have used the word up. -/
def Mistaken (obj : List (List Char × JsonValue)) : Nat → Prop
  | 0 => keyAt obj 0 = some [] ∨ keyAt obj 0 = some ['U'] ∨ keyAt obj 0 = some ['U', 'S']
  | 1 => keyAt obj 1 = some [] ∨
      (¬ Begins obj 0 ['U'] ∧ (keyAt obj 1 = some ['S'] ∨ keyAt obj 1 = some ['S', 'D'])) ∨
      (Begins obj 0 ['U'] ∧ ¬ Begins obj 0 ['U', 'S'] ∧ keyAt obj 1 = some ['D'])
  | 2 => keyAt obj 2 = some [] ∨ (¬ Begins obj 0 ['U'] ∧ ¬ Begins obj 1 ['S'] ∧ keyAt obj 2 = some ['D'])
  | i + 3 => keyAt obj (i + 3) = some []

/-! ## What a key leaves of the word -/

theorem prefix_usd_iff : k <+: usd ↔ k = [] ∨ k = ['U'] ∨ k = ['U', 'S'] ∨ k = usd := by
  simp [usd, List.prefix_cons_iff, and_or_left, exists_or]

theorem prefix_sd_iff : k <+: ['S', 'D'] ↔ k = [] ∨ k = ['S'] ∨ k = ['S', 'D'] := by
  simp [List.prefix_cons_iff, and_or_left, exists_or]

theorem prefix_d_iff : k <+: ['D'] ↔ k = [] ∨ k = ['D'] := by
  simp [List.prefix_cons_iff]

theorem left_sd (h : ¬ k <+: ['S', 'D']) : (allNext k ['S', 'D']).2 = if ['S'] <+: k then [] else ['D'] := by
  rcases k with _ | ⟨c, k⟩
  · simp at h
  · by_cases hc : c = 'S'
    · subst hc
      rw [if_pos (by simp), allNext, if_pos rfl]
      exact allNext_last (by simpa using h)
    · rw [if_neg (by simpa using Ne.symm hc), allNext, if_neg hc]

theorem left_usd (h : ¬ k <+: usd) : (allNext k usd).2 =
    if ['U', 'S'] <+: k then [] else if ['U'] <+: k then ['D'] else ['S', 'D'] := by
  rcases k with _ | ⟨c, k⟩
  · simp at h
  · by_cases hc : c = 'U'
    · subst hc
      have hrest : ¬ k <+: ['S', 'D'] := by simpa [usd] using h
      have hstarts : ['U'] <+: 'U' :: k := by simp
      rw [usd, allNext, if_pos rfl, left_sd hrest, if_pos hstarts]
      simp only [List.cons_prefix_cons, true_and]
    · have hstarts : ∀ w, ¬ 'U' :: w <+: c :: k := fun w hw => hc (List.cons_prefix_cons.mp hw).1.symm
      rw [if_neg (hstarts _), if_neg (hstarts _), usd, allNext, if_neg hc]

/-! ## Which member is found -/

/-- The member at an index is accepted when none before it is. -/
def Accepted (obj : List (List Char × JsonValue)) (i : Nat) : Prop :=
  ∃ k, keyAt obj i = some k ∧ k <+: leftAt Prod.fst obj usd i

theorem findMember_iff : findMember obj = some m ↔
    ∃ i : Nat, obj[i]? = some m ∧ Accepted obj i ∧ ∀ j < i, ¬ Accepted obj j := by
  have haccepted : ∀ {i m}, obj[i]? = some m → (Accepted obj i ↔ m.1 <+: leftAt Prod.fst obj usd i) := by
    intro i m hm
    simp [Accepted, keyAt, hm]
  rw [findMember, findNext_iff]
  refine exists_congr fun i => and_congr_right fun hm => ?_
  rw [haccepted hm]
  refine and_congr_right fun _ => forall₂_congr fun j _ => ?_
  constructor
  · rintro hother ⟨k, hk, hprefix⟩
    obtain ⟨m', hm', rfl⟩ := Option.map_eq_some_iff.mp hk
    exact hother m' hm' hprefix
  · exact fun h m' hm' hprefix => h ((haccepted hm').mpr hprefix)

@[simp] theorem keyAt_zero (rest : List (List Char × JsonValue)) : keyAt (m :: rest) 0 = some m.1 := rfl

@[simp] theorem keyAt_succ (rest : List (List Char × JsonValue)) : keyAt (m :: rest) (i + 1) = keyAt rest i := rfl

@[simp] theorem begins_zero (rest : List (List Char × JsonValue)) : Begins (m :: rest) 0 k ↔ k <+: m.1 := by
  simp [Begins]

@[simp] theorem begins_succ (rest : List (List Char × JsonValue)) : Begins (m :: rest) (i + 1) k ↔ Begins rest i k :=
  Iff.rfl

theorem accepted_zero (rest : List (List Char × JsonValue)) : Accepted (m :: rest) 0 ↔ m.1 <+: usd := by
  simp [Accepted]

section Places
variable {m₀ m₁ m₂ : List Char × JsonValue} {rest : List (List Char × JsonValue)}

theorem accepted_one (h₀ : ¬ Accepted (m₀ :: rest) 0) : Accepted (m₀ :: rest) 1 ↔ Mistaken (m₀ :: rest) 1 := by
  rw [accepted_zero] at h₀
  have hleft : leftAt Prod.fst (m₀ :: rest) usd 1 = (allNext m₀.1 usd).2 := by simp
  rw [Accepted, hleft, left_usd h₀]
  by_cases hus : ['U', 'S'] <+: m₀.1
  · have hu : ['U'] <+: m₀.1 := (by simp : ['U'] <+: ['U', 'S']).trans hus
    simp [Mistaken, hus, hu]
  · by_cases hu : ['U'] <+: m₀.1
    · simp [Mistaken, hus, hu, prefix_d_iff, and_or_left, exists_or]
    · simp [Mistaken, hus, hu, prefix_sd_iff, and_or_left, exists_or]

/-- What is left after two keys that were not accepted: the last letter, if neither began as it had to. -/
theorem left_two (h₀ : ¬ Accepted (m₀ :: m₁ :: rest) 0) (h₁ : ¬ Accepted (m₀ :: m₁ :: rest) 1) :
    (allNext m₁.1 (allNext m₀.1 usd).2).2 = if ['U'] <+: m₀.1 ∨ ['S'] <+: m₁.1 then [] else ['D'] := by
  rw [accepted_zero] at h₀
  have hnot : ¬ m₁.1 <+: (allNext m₀.1 usd).2 := by simpa [Accepted] using h₁
  rw [left_usd h₀] at hnot ⊢
  by_cases hus : ['U', 'S'] <+: m₀.1
  · have hu : ['U'] <+: m₀.1 := (by simp : ['U'] <+: ['U', 'S']).trans hus
    rw [if_pos hus, if_pos (Or.inl hu), allNext_nil_right]
  · rw [if_neg hus] at hnot ⊢
    by_cases hu : ['U'] <+: m₀.1
    · rw [if_pos hu] at hnot ⊢
      rw [if_pos (Or.inl hu), allNext_last hnot]
    · rw [if_neg hu] at hnot ⊢
      rw [left_sd hnot]
      simp only [hu, false_or]

theorem accepted_two (h₀ : ¬ Accepted (m₀ :: m₁ :: rest) 0) (h₁ : ¬ Accepted (m₀ :: m₁ :: rest) 1) :
    Accepted (m₀ :: m₁ :: rest) 2 ↔ Mistaken (m₀ :: m₁ :: rest) 2 := by
  have hleft : leftAt Prod.fst (m₀ :: m₁ :: rest) usd 2 = (allNext m₁.1 (allNext m₀.1 usd).2).2 := by simp
  rw [Accepted, hleft, left_two h₀ h₁]
  by_cases hbegin : ['U'] <+: m₀.1 ∨ ['S'] <+: m₁.1
  · have hnot : ¬ (¬ ['U'] <+: m₀.1 ∧ ¬ ['S'] <+: m₁.1 ∧ keyAt rest 0 = some ['D']) := by tauto
    simp [Mistaken, hbegin, hnot]
  · obtain ⟨hu, hs⟩ := not_or.mp hbegin
    simp [Mistaken, hu, hs, prefix_d_iff, and_or_left, exists_or]

theorem accepted_later (h₀ : ¬ Accepted (m₀ :: m₁ :: m₂ :: rest) 0) (h₁ : ¬ Accepted (m₀ :: m₁ :: m₂ :: rest) 1)
    (h₂ : ¬ Accepted (m₀ :: m₁ :: m₂ :: rest) 2) :
    Accepted (m₀ :: m₁ :: m₂ :: rest) (i + 3) ↔ Mistaken (m₀ :: m₁ :: m₂ :: rest) (i + 3) := by
  have hnot : ¬ m₂.1 <+: (allNext m₁.1 (allNext m₀.1 usd).2).2 := by simpa [Accepted] using h₂
  have hused : (allNext m₂.1 (allNext m₁.1 (allNext m₀.1 usd).2).2).2 = [] := by
    rw [left_two h₀ h₁] at hnot ⊢
    split
    · exact allNext_nil_right _
    · rename_i hbegin
      rw [if_neg hbegin] at hnot
      exact allNext_last hnot
  simp [Accepted, Mistaken, hused]

end Places

/-- **Which key is accepted for `"USD"`**, when none before it is and the first is another. -/
theorem accepted_iff (hfirst : keyAt obj 0 ≠ some usd) (hnone : ∀ j < i, ¬ Accepted obj j) :
    Accepted obj i ↔ Mistaken obj i := by
  have hshort : keyAt obj i = none → (Accepted obj i ↔ Mistaken obj i) := by
    intro hnil
    refine iff_of_false ?_ ?_
    · rintro ⟨k, hk, _⟩
      rw [hnil] at hk
      cases hk
    · match i with
      | 0 | 1 | 2 | _ + 3 => simp [Mistaken, hnil]
  match i, obj with
  | 0, [] | 1, [] | 2, [] | _ + 3, [] => exact hshort rfl
  | 0, m₀ :: rest =>
    have hne : m₀.1 ≠ usd := fun h => hfirst (congrArg some h)
    rw [accepted_zero, prefix_usd_iff]
    simp [Mistaken, hne]
  | 1, m₀ :: rest => exact accepted_one (hnone 0 (by omega))
  | 2, [m₀] | _ + 3, [m₀] => exact hshort rfl
  | 2, m₀ :: m₁ :: rest => exact accepted_two (hnone 0 (by omega)) (hnone 1 (by omega))
  | _ + 3, [m₀, m₁] => exact hshort rfl
  | i + 3, m₀ :: m₁ :: m₂ :: rest =>
    exact accepted_later (hnone 0 (by omega)) (hnone 1 (by omega)) (hnone 2 (by omega))

/-- The first index that is accepted is the first that is mistaken. -/
theorem first_accepted_iff (hfirst : keyAt obj 0 ≠ some usd) :
    (Accepted obj i ∧ ∀ j < i, ¬ Accepted obj j) ↔ (Mistaken obj i ∧ ∀ j < i, ¬ Mistaken obj j) := by
  have hbefore : ∀ i, (∀ j < i, ¬ Accepted obj j) ↔ ∀ j < i, ¬ Mistaken obj j := by
    intro i
    induction i with
    | zero => simp
    | succ i ih =>
      rw [Nat.forall_lt_succ_right, Nat.forall_lt_succ_right, ← ih]
      exact and_congr_right fun hnone => not_congr (accepted_iff hfirst hnone)
  rw [← hbefore]
  exact and_congr_left fun hnone => accepted_iff hfirst hnone

/-! ## The price -/

theorem parsePrice_none_iff (hjson : parseJson text = some (.object obj)) :
    parsePrice parseJson p text = some none ↔ ∀ m n, findMember obj = some m → m.2 ≠ .number n := by
  have hparse : parsePrice parseJson p text = some none ↔ findNumber (.object obj) = none := by
    rw [parsePrice, hjson, Option.bind_some]
    cases findNumber (.object obj) with
    | none => simp
    | some n => simp
  rw [hparse, findNumber]
  rcases findMember obj with _ | ⟨k, value⟩
  · simp
  · have hvalue : (∀ m n, some (k, value) = some m → m.2 ≠ .number n) ↔ ∀ n, value ≠ .number n := by
      refine ⟨fun h n => h (k, value) n rfl, ?_⟩
      rintro h m n ⟨⟩
      exact h n
    rw [hvalue]
    cases value <;> simp

/-- The price is taken from the first member with the key `"USD"`, and there is none without such a member. -/
def FromUsd (parseJson : String → Option JsonValue) (p : Profile) (text : String)
    (obj : List (List Char × JsonValue)) : Prop :=
  (∀ m, obj.find? (fun m => m.1 = usd) = some m → findMember obj = some m) ∧
    (obj.find? (fun m => m.1 = usd) = none → parsePrice parseJson p text = some none)

/-- **When the price is taken from the `"USD"` member and from no other.** For every object, exactly when its first key
is `"USD"`, or no key is and the first key that is mistaken for it, if any, has a value that is not a number. -/
theorem usd_member_iff (hjson : parseJson text = some (.object obj)) : FromUsd parseJson p text obj ↔
    keyAt obj 0 = some usd ∨ ((∀ m ∈ obj, m.1 ≠ usd) ∧ ∀ i m n, obj[i]? = some m → Mistaken obj i →
      (∀ j < i, ¬ Mistaken obj j) → m.2 ≠ .number n) := by
  by_cases hfirst : keyAt obj 0 = some usd
  · -- the first member is found, and is the first with the key
    refine iff_of_true ?_ (Or.inl hfirst)
    cases obj with
    | nil => cases hfirst
    | cons m rest =>
      have hkey : m.1 = usd := Option.some.inj hfirst
      have hfind : (m :: rest).find? (fun m => m.1 = usd) = some m := List.find?_cons_of_pos (by simpa using hkey)
      have hfound : findMember (m :: rest) = some m := by
        rw [findMember, findNext_cons, if_pos (by rw [hkey])]
      constructor
      · intro m' hm'
        rw [hfind] at hm'
        cases hm'
        exact hfound
      · intro hnone
        rw [hfind] at hnone
        cases hnone
  · rw [or_iff_right hfirst]
    cases hfind : obj.find? (fun m => m.1 = usd) with
    | some m =>
      -- a later member with the key is never found
      have hkey : m.1 = usd := by simpa using List.find?_some hfind
      refine iff_of_false ?_ fun h => h.1 m (List.mem_of_find?_eq_some hfind) hkey
      rintro ⟨hselects, _⟩
      have hhead := findNext_whole (by decide) (hselects m hfind) hkey
      cases obj with
      | nil => cases hhead
      | cons m' rest =>
        cases hhead
        exact hfirst (congrArg some hkey)
    | none =>
      have hall : ∀ m ∈ obj, m.1 ≠ usd := by simpa using List.find?_eq_none.mp hfind
      have hproperty : FromUsd parseJson p text obj ↔ parsePrice parseJson p text = some none := by
        unfold FromUsd
        rw [hfind]
        simp
      rw [hproperty, parsePrice_none_iff hjson]
      constructor
      · intro h
        exact ⟨hall, fun i m n hm hmistaken hbefore =>
          h m n (findMember_iff.mpr ⟨i, hm, (first_accepted_iff hfirst).mpr ⟨hmistaken, hbefore⟩⟩)⟩
      · rintro ⟨_, h⟩ m n hm
        obtain ⟨i, hi, hfound⟩ := findMember_iff.mp hm
        obtain ⟨hmistaken, hbefore⟩ := (first_accepted_iff hfirst).mp hfound
        exact h i m n hi hmistaken hbefore

/-- A parser that knows one text. -/
def knows (text : String) (value : JsonValue) : String → Option JsonValue :=
  fun t => if t = text then some value else none

theorem knows_self (text : String) (value : JsonValue) : knows text value text = some value := if_pos rfl

/-- The price is the first member, and the one that is taken. -/
theorem usd_member_first : ∃ (parseJson : String → Option JsonValue) (obj : List (List Char × JsonValue)),
    parseJson "\x7b\"USD\":7,\"EUR\":6\x7d" = some (.object obj) ∧ obj.length = 2 ∧
    FromUsd parseJson .release "\x7b\"USD\":7,\"EUR\":6\x7d" obj := by
  have hjson := knows_self "\x7b\"USD\":7,\"EUR\":6\x7d"
    (.object [(usd, .number ⟨7, 0, 0, 0⟩), (['E', 'U', 'R'], .number ⟨6, 0, 0, 0⟩)])
  exact ⟨knows _ _, _, hjson, rfl, (usd_member_iff hjson).mpr (Or.inl rfl)⟩

/-- After another currency the price is not found, and under the key `"U"` it is found without any `"USD"`. -/
theorem usd_member_missed : ∃ parseJson parseJson' : String → Option JsonValue,
    (∃ obj, parseJson "\x7b\"EUR\":6,\"USD\":7\x7d" = some (.object obj) ∧
      obj.find? (fun m => m.1 = usd) = some (usd, .number ⟨7, 0, 0, 0⟩) ∧
      parsePrice parseJson .release "\x7b\"EUR\":6,\"USD\":7\x7d" = some none ∧
      ¬ FromUsd parseJson .release "\x7b\"EUR\":6,\"USD\":7\x7d" obj) ∧
    ∃ obj, parseJson' "\x7b\"U\":6\x7d" = some (.object obj) ∧ obj.find? (fun m => m.1 = usd) = none ∧
      parsePrice parseJson' .release "\x7b\"U\":6\x7d" = some (some 600) ∧
      ¬ FromUsd parseJson' .release "\x7b\"U\":6\x7d" obj := by
  have hjson := knows_self "\x7b\"EUR\":6,\"USD\":7\x7d"
    (.object [(['E', 'U', 'R'], .number ⟨6, 0, 0, 0⟩), (usd, .number ⟨7, 0, 0, 0⟩)])
  have hjson' := knows_self "\x7b\"U\":6\x7d" (.object [(['U'], .number ⟨6, 0, 0, 0⟩)])
  refine ⟨knows _ _, knows _ _, ⟨_, hjson, rfl, ?_, fun h => ?_⟩, ⟨_, hjson', rfl, ?_, fun h => ?_⟩⟩
  · rw [parsePrice, hjson]
    rfl
  · cases h.1 _ rfl
  · rw [parsePrice, hjson']
    decide
  · have hprice := h.2 rfl
    rw [parsePrice, hjson'] at hprice
    exact absurd hprice (by decide)

end Konomi.OffchainWorker
