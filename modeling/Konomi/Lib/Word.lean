import Mathlib.Data.BitVec
import Mathlib.Tactic

/-!
# Machine words under an overflow profile

A program over fixed-width words behaves the same under every build profile until an operation leaves the
range of its type. What happens then is the profile:

* `Profile.release` : plain operators wrap, saturating operators clamp;
* `Profile.checked` : a plain operator that would wrap stops the program (`none`), saturation is still allowed;
* `Profile.strict` : every operation that would wrap or clamp stops the program.

A computation is a `Profile → Option α`. It is `Mono` when a result under one profile is the result under every
more permissive one, so `f .checked = some a` says that the release program returns `a` without any wrap.
-/

namespace Machine

/-- What the build does with a result that does not fit. -/
structure Profile where
  wraps : Bool
  saturates : Bool
  deriving DecidableEq

namespace Profile

def release : Profile := ⟨true, true⟩

def checked : Profile := ⟨false, true⟩

def strict : Profile := ⟨false, false⟩

instance : LE Profile := ⟨fun p q => (p.wraps = true → q.wraps = true) ∧ (p.saturates = true → q.saturates = true)⟩

theorem checked_le_release : checked ≤ release := ⟨fun _ => rfl, fun _ => rfl⟩

theorem strict_le_release : strict ≤ release := ⟨fun _ => rfl, fun _ => rfl⟩

theorem strict_le (p : Profile) : strict ≤ p :=
  ⟨fun h => absurd h Bool.false_ne_true, fun h => absurd h Bool.false_ne_true⟩

variable {w : Nat}

/-- The plain operator `a + b`. -/
def add (p : Profile) (a b : BitVec w) : Option (BitVec w) :=
  if a.toNat + b.toNat < 2 ^ w ∨ p.wraps = true then some (a + b) else none

/-- The plain operator `a - b`. -/
def sub (p : Profile) (a b : BitVec w) : Option (BitVec w) :=
  if b.toNat ≤ a.toNat ∨ p.wraps = true then some (a - b) else none

/-- The plain operator `a * b`. -/
def mul (p : Profile) (a b : BitVec w) : Option (BitVec w) :=
  if a.toNat * b.toNat < 2 ^ w ∨ p.wraps = true then some (a * b) else none

/-- `a.pow(n)`: a power by multiplications, of which none wraps unless the result does. -/
def pow (p : Profile) (a : BitVec w) (n : Nat) : Option (BitVec w) :=
  if a.toNat ^ n < 2 ^ w ∨ p.wraps = true then some (BitVec.ofNat w (a.toNat ^ n)) else none

/-- The nearest word to a natural number. -/
def clamp (w n : Nat) : BitVec w := BitVec.ofNat w (min n (2 ^ w - 1))

/-- A saturating operator with the exact result `n`. -/
def saturate (p : Profile) (n : Nat) : Option (BitVec w) :=
  if n < 2 ^ w ∨ p.saturates = true then some (clamp w n) else none

end Profile

variable {w : Nat} {p : Profile} {a b c : BitVec w}

/-- Division stops the program on a zero divisor under every profile. -/
def div (a b : BitVec w) : Option (BitVec w) := if b = 0 then none else some (a / b)

/-- A result that has to fit, such as that of a checked operation that is unwrapped. -/
def fit (w n : Nat) : Option (BitVec w) := if n < 2 ^ w then some (BitVec.ofNat w n) else none

/-! ## Values -/

theorem add_eq (h : p.add a b = some c) : c = a + b := by
  unfold Profile.add at h
  split at h
  · exact (Option.some.inj h).symm
  · cases h

theorem sub_eq (h : p.sub a b = some c) : c = a - b := by
  unfold Profile.sub at h
  split at h
  · exact (Option.some.inj h).symm
  · cases h

theorem mul_eq (h : p.mul a b = some c) : c = a * b := by
  unfold Profile.mul at h
  split at h
  · exact (Option.some.inj h).symm
  · cases h

theorem toNat_add (hp : p.wraps = false) (h : p.add a b = some c) : c.toNat = a.toNat + b.toNat := by
  unfold Profile.add at h
  rw [hp] at h
  split at h
  · rename_i hlt
    have hlt : a.toNat + b.toNat < 2 ^ w := by simpa using hlt
    rw [← Option.some.inj h, BitVec.toNat_add, Nat.mod_eq_of_lt hlt]
  · cases h

theorem toNat_sub (hp : p.wraps = false) (h : p.sub a b = some c) : c.toNat + b.toNat = a.toNat := by
  unfold Profile.sub at h
  rw [hp] at h
  split at h
  · rename_i hle
    have hle : b.toNat ≤ a.toNat := by simpa using hle
    rw [← Option.some.inj h, BitVec.toNat_sub_of_le (BitVec.le_def.mpr hle)]
    omega
  · cases h

theorem toNat_mul (hp : p.wraps = false) (h : p.mul a b = some c) : c.toNat = a.toNat * b.toNat := by
  unfold Profile.mul at h
  rw [hp] at h
  split at h
  · rename_i hlt
    have hlt : a.toNat * b.toNat < 2 ^ w := by simpa using hlt
    rw [← Option.some.inj h, BitVec.toNat_mul, Nat.mod_eq_of_lt hlt]
  · cases h

theorem add_isSome_of_lt (h : a.toNat + b.toNat < 2 ^ w) : p.add a b = some (a + b) := if_pos (Or.inl h)

theorem sub_isSome_of_le (h : b.toNat ≤ a.toNat) : p.sub a b = some (a - b) := if_pos (Or.inl h)

@[simp] theorem add_release : Profile.release.add a b = some (a + b) := if_pos (Or.inr rfl)

@[simp] theorem sub_release : Profile.release.sub a b = some (a - b) := if_pos (Or.inr rfl)

@[simp] theorem mul_release : Profile.release.mul a b = some (a * b) := if_pos (Or.inr rfl)

@[simp] theorem pow_release {n : Nat} : Profile.release.pow a n = some (BitVec.ofNat w (a.toNat ^ n)) :=
  if_pos (Or.inr rfl)

theorem toNat_clamp (w n : Nat) : (Profile.clamp w n).toNat = min n (2 ^ w - 1) := by
  have hpos := Nat.two_pow_pos w
  rw [Profile.clamp, BitVec.toNat_ofNat, Nat.mod_eq_of_lt (by omega)]

theorem toNat_saturate {n : Nat} (h : p.saturate n = some c) : c.toNat = min n (2 ^ w - 1) := by
  unfold Profile.saturate at h
  split at h
  · rw [← Option.some.inj h, toNat_clamp]
  · cases h

theorem toNat_saturate_strict {n : Nat} (hp : p.saturates = false) (h : p.saturate n = some c) : c.toNat = n := by
  have hc := toNat_saturate h
  unfold Profile.saturate at h
  rw [hp] at h
  split at h
  · rename_i hlt
    have hlt : n < 2 ^ w := by simpa using hlt
    omega
  · cases h

theorem toNat_sum (l : List (BitVec w)) : l.sum.toNat = (l.map BitVec.toNat).sum % 2 ^ w := by
  induction l with
  | nil => simp
  | cons a l ih =>
    rw [List.sum_cons, List.map_cons, List.sum_cons, BitVec.toNat_add, ih, Nat.add_mod_mod]

theorem toNat_fit {n : Nat} (h : fit w n = some c) : c.toNat = n := by
  unfold fit at h
  split at h
  · rename_i hlt
    rw [← Option.some.inj h, BitVec.toNat_ofNat, Nat.mod_eq_of_lt hlt]
  · cases h

theorem div_eq (h : div a b = some c) : b ≠ 0 ∧ c = a / b := by
  unfold div at h
  split at h
  · cases h
  · exact ⟨‹_›, (Option.some.inj h).symm⟩

/-- A value that wraps is never divided to the exact quotient. -/
theorem mod_div_ne {n d : Nat} (hn : 2 ^ w ≤ n) (hpos : 0 < d) (hd : d < 2 ^ w) : n % 2 ^ w / d ≠ n / d := by
  have hwraps : 0 < n / 2 ^ w := Nat.div_pos hn (Nat.two_pow_pos w)
  have hsplit := Nat.mod_add_div n (2 ^ w)
  have hle : n % 2 ^ w + d ≤ n := by nlinarith
  have hquotient := Nat.div_le_div_right (c := d) hle
  rw [Nat.add_div_right _ hpos] at hquotient
  omega

/-! ## Monotonicity in the profile -/

/-- A result under one profile is the result under every more permissive profile. -/
def Mono {α : Type} (f : Profile → Option α) : Prop :=
  ∀ ⦃p q : Profile⦄, p ≤ q → ∀ ⦃r : α⦄, f p = some r → f q = some r

namespace Mono
variable {α β : Type}

/-- A computation that returns under a profile returns the same under every more permissive one. -/
theorem eq_of_isSome {f : Profile → Option α} (hf : Mono f) {p q : Profile} (hpq : p ≤ q) {r : α} (hq : f q = some r)
    (hp : (f p).isSome) : f p = some r := by
  obtain ⟨x, hx⟩ := Option.isSome_iff_exists.mp hp
  rw [hx, ← hq, hf hpq hx]

theorem const (x : Option α) : Mono (fun _ => x) := fun _ _ _ _ h => h

theorem bind {f : Profile → Option α} {g : α → Profile → Option β} (hf : Mono f) (hg : ∀ r, Mono (g r)) :
    Mono (fun p => f p >>= fun r => g r p) := by
  intro p q hpq r h
  obtain ⟨x, hx, hr⟩ := Option.bind_eq_some_iff.mp h
  exact Option.bind_eq_some_iff.mpr ⟨x, hf hpq hx, hg x hpq hr⟩

theorem map {f : Profile → Option α} (g : α → β) (hf : Mono f) : Mono (fun p => (f p).map g) := by
  intro p q hpq r h
  obtain ⟨x, hx, hr⟩ := Option.map_eq_some_iff.mp h
  exact Option.map_eq_some_iff.mpr ⟨x, hf hpq hx, hr⟩

theorem ite {c : Prop} [Decidable c] {f g : Profile → Option α} (hf : Mono f) (hg : Mono g) :
    Mono (fun p => if c then f p else g p) := by
  intro p q hpq r h
  by_cases hc : c
  · simp only [hc, if_true] at h ⊢
    exact hf hpq h
  · simp only [hc, if_false] at h ⊢
    exact hg hpq h

theorem guarded {c : Profile → Prop} [∀ p, Decidable (c p)] (hc : ∀ ⦃p q⦄, p ≤ q → c p → c q) (r : α) :
    Mono (fun p => if c p then some r else none) := by
  intro p q hpq s h
  change (if c p then some r else none) = some s at h
  show (if c q then some r else none) = some s
  split at h
  · rw [if_pos (hc hpq ‹_›)]
    exact h
  · cases h

theorem add (a b : BitVec w) : Mono (fun p => p.add a b) :=
  guarded (fun _ _ hpq h => h.imp_right hpq.1) _

theorem sub (a b : BitVec w) : Mono (fun p => p.sub a b) :=
  guarded (fun _ _ hpq h => h.imp_right hpq.1) _

theorem mul (a b : BitVec w) : Mono (fun p => p.mul a b) :=
  guarded (fun _ _ hpq h => h.imp_right hpq.1) _

theorem saturate (n : Nat) : Mono (fun p => (p.saturate n : Option (BitVec w))) :=
  guarded (fun _ _ hpq h => h.imp_right hpq.2) _

theorem foldlM {γ : Type} {f : β → γ → Profile → Option β} (hf : ∀ x y, Mono (f x y)) (ys : List γ) :
    ∀ x, Mono (fun p => ys.foldlM (fun acc y => f acc y p) x) := by
  induction ys with
  | nil => exact fun x => const (some x)
  | cons y ys ih =>
    intro x
    simp only [List.foldlM_cons]
    exact bind (hf x y) ih

end Mono

end Machine
