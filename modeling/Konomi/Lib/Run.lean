import Mathlib.Tactic

/-!
# Runs of a deterministic system

`step s l` is the state after the action `l`, or `none` when the action cannot be taken. `Run step ok s t` says
that `t` is reached from `s` by actions each of which met `ok` in the state it was taken in; `exec` plays a list
of actions and is executable.
-/

namespace Machine
variable {σ ℓ : Type} {step : σ → ℓ → Option σ} {ok : σ → ℓ → Prop} {s t u : σ}

/-- The states reached from `s` by actions that meet `ok`. -/
inductive Run (step : σ → ℓ → Option σ) (ok : σ → ℓ → Prop) (s : σ) : σ → Prop
  | refl : Run step ok s s
  | tail {t u : σ} {l : ℓ} : Run step ok s t → ok t l → step t l = some u → Run step ok s u

/-- What holds at the start and is kept by every step holds in every state of every run. -/
theorem Run.invariant {I : σ → Prop} (hs : I s) (hstep : ∀ t l u, I t → ok t l → step t l = some u → I u)
    (h : Run step ok s t) : I t := by
  induction h with
  | refl => exact hs
  | tail _ hok hl ih => exact hstep _ _ _ ih hok hl

theorem Run.trans (h₁ : Run step ok s t) (h₂ : Run step ok t u) : Run step ok s u := by
  induction h₂ with
  | refl => exact h₁
  | tail _ hok hl ih => exact ih.tail hok hl

theorem Run.mono {ok' : σ → ℓ → Prop} (hok : ∀ s l, ok s l → ok' s l) (h : Run step ok s t) : Run step ok' s t := by
  induction h with
  | refl => exact Run.refl
  | tail _ hl hstep ih => exact ih.tail (hok _ _ hl) hstep

/-- The state after a list of actions. -/
def exec (step : σ → ℓ → Option σ) : σ → List ℓ → Option σ
  | s, [] => some s
  | s, l :: ls => step s l >>= fun t => exec step t ls

theorem exec_cons {l : ℓ} {ls : List ℓ} (h : exec step s (l :: ls) = some u) :
    ∃ t, step s l = some t ∧ exec step t ls = some u := Option.bind_eq_some_iff.mp h

theorem exec_append {ls ms : List ℓ} (h : exec step s (ls ++ ms) = some u) :
    ∃ t, exec step s ls = some t ∧ exec step t ms = some u := by
  induction ls generalizing s with
  | nil => exact ⟨s, rfl, h⟩
  | cons l ls ih =>
    obtain ⟨v, hv, hrest⟩ := exec_cons h
    obtain ⟨t, ht, hms⟩ := ih hrest
    exact ⟨t, Option.bind_eq_some_iff.mpr ⟨v, hv, ht⟩, hms⟩

theorem exec_of_append {ls ms : List ℓ} (h : exec step s ls = some t) (h' : exec step t ms = some u) :
    exec step s (ls ++ ms) = some u := by
  induction ls generalizing s with
  | nil =>
    cases h
    exact h'
  | cons l ls ih =>
    obtain ⟨v, hv, h⟩ := exec_cons h
    exact Option.bind_eq_some_iff.mpr ⟨v, hv, ih h⟩

/-- Where `step` takes only actions that `step'` takes with the same result, a run of `step'` is one of `step` up to
the first action that `step` does not take. -/
theorem exec_or_stuck {step' : σ → ℓ → Option σ} (hstep : ∀ s l t, step s l = some t → step' s l = some t) {ls : List ℓ}
    (h : exec step' s ls = some t) : exec step s ls = some t ∨ ∃ before l after u, ls = before ++ l :: after ∧
      exec step s before = some u ∧ exec step' s before = some u ∧ step u l = none := by
  induction ls generalizing s with
  | nil => exact Or.inl h
  | cons l ls ih =>
    cases hl : step s l with
    | none => exact Or.inr ⟨[], l, ls, s, rfl, rfl, rfl, hl⟩
    | some v =>
      obtain ⟨v', hv', hrest⟩ := exec_cons h
      cases hv'.symm.trans (hstep s l v hl)
      rcases ih hrest with hall | ⟨before, m, after, u, rfl, hu, hu', hstuck⟩
      · exact Or.inl (Option.bind_eq_some_iff.mpr ⟨v, hl, hall⟩)
      · exact Or.inr ⟨l :: before, m, after, u, rfl, Option.bind_eq_some_iff.mpr ⟨v, hl, hu⟩,
          Option.bind_eq_some_iff.mpr ⟨v, hv', hu'⟩, hstuck⟩

/-- Unwinding: when a step shows of its result no more than `f` and `g` show of its state and its action, neither does a
run. -/
theorem exec_map_eq {τ κ : Type} {f : σ → τ} {g : ℓ → κ}
    (hstep : ∀ s s' l l', f s = f s' → g l = g l' → (step s l).map f = (step s' l').map f) :
    ∀ {ls ms : List ℓ} {s s' : σ}, f s = f s' → ls.map g = ms.map g →
      (exec step s ls).map f = (exec step s' ms).map f := by
  intro ls
  induction ls with
  | nil =>
    intro ms s s' hs hls
    cases List.map_eq_nil_iff.mp hls.symm
    exact congrArg some hs
  | cons l ls ih =>
    intro ms s s' hs hls
    obtain ⟨m, ms, rfl, hm, hms⟩ := List.map_eq_cons_iff.mp hls.symm
    have hhead := hstep s s' l m hs hm.symm
    change (step s l >>= fun t => exec step t ls).map f = (step s' m >>= fun t => exec step t ms).map f
    cases h : step s l with
    | none =>
      rw [h] at hhead
      rw [Option.map_eq_none_iff.mp hhead.symm]
      rfl
    | some t =>
      rw [h] at hhead
      obtain ⟨t', ht', hsame⟩ := Option.map_eq_some_iff.mp hhead.symm
      rw [ht']
      exact ih hsame.symm hms.symm

theorem exec_map {κ : Type} (f : κ → ℓ) (ks : List κ) : ∀ s : σ,
    exec step s (ks.map f) = exec (fun s k => step s (f k)) s ks := by
  induction ks with
  | nil => exact fun _ => rfl
  | cons k ks ih => exact fun s => congrArg (step s (f k) >>= ·) (funext ih)

theorem run_of_exec_all {ls : List ℓ} (h : exec step s ls = some t) : Run step (fun _ _ => True) s t := by
  induction ls generalizing s with
  | nil =>
    cases h
    exact Run.refl
  | cons l ls ih =>
    obtain ⟨v, hv, hrest⟩ := exec_cons h
    have hhead : Run step (fun _ _ => True) s v := Run.refl.tail trivial hv
    exact hhead.trans (ih hrest)

/-- The steps that meet `ok`. -/
def guarded (step : σ → ℓ → Option σ) (ok : σ → ℓ → Prop) [∀ s l, Decidable (ok s l)] (s : σ) (l : ℓ) : Option σ :=
  if ok s l then step s l else none

theorem run_of_exec [∀ s l, Decidable (ok s l)] {ls : List ℓ} (h : exec (guarded step ok) s ls = some t) :
    Run step ok s t := by
  induction ls generalizing s with
  | nil =>
    cases h
    exact Run.refl
  | cons l ls ih =>
    obtain ⟨v, hv, hrest⟩ := exec_cons h
    unfold guarded at hv
    split at hv
    · have hhead : Run step ok s v := Run.refl.tail ‹_› hv
      exact hhead.trans (ih hrest)
    · cases hv

end Machine
