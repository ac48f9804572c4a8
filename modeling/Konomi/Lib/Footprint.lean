import Mathlib.Logic.Function.Basic
import Konomi.Lib.Run

/-!
# Footprints

A part of the state is given by what it means to put it into another state (`Region`). A step is local to a region if
it reads and writes nothing else of the state that differs among the states considered (`Local`). Steps local to
regions apart from each other commute (`Local.comm`), so a list of them can be executed in any order (`exec_perm`), and
each does in its region what it does alone (`exec_alone`). A part of a map is its values at some keys (`overlay`).
-/

namespace Machine
variable {σ ℓ : Type}

/-! ## Parts of a map -/

section Overlay
variable {ι K V : Type} [DecidableEq K] {key : ι → K} {l l' : List K} {f g h : ι → V} {i : ι}

/-- `g`, with the values of `f` at the indexes whose keys are on the list. -/
def overlay (l : List K) (key : ι → K) (f g : ι → V) : ι → V := fun i => if key i ∈ l then f i else g i

theorem overlay_of_mem (hi : key i ∈ l) : overlay l key f g i = f i := if_pos hi

@[simp] theorem overlay_self : overlay l key f f = f := by
  funext i
  simp [overlay]

theorem overlay_comm (hl : ∀ k ∈ l, k ∉ l') :
    overlay l' key g (overlay l key f h) = overlay l key f (overlay l' key g h) := by
  funext i
  unfold overlay
  by_cases hi : key i ∈ l
  · simp [hi, hl _ hi]
  · simp [hi]

theorem update_overlay [DecidableEq ι] (hi : key i ∈ l) (x : V) :
    Function.update (overlay l key f g) i x = overlay l key (Function.update f i x) g := by
  funext j
  unfold overlay
  by_cases hj : j = i
  · subst hj
    simp [hi]
  · simp [hj]

end Overlay

/-! ## Regions -/

/-- A part of the state: `put s t` is `t` with this part from `s`. -/
structure Region (σ : Type) where
  put : σ → σ → σ
  put_self : ∀ s, put s s = s

/-- Two parts that have nothing in common. -/
def Region.Apart (r q : Region σ) : Prop := ∀ x y s, q.put y (r.put x s) = r.put x (q.put y s)

theorem Region.Apart.symm {r q : Region σ} (h : r.Apart q) : q.Apart r := fun x y s => (h y x s).symm

/-- On the states of `I`, which it does not leave, `f` reads and writes nothing outside `r`. -/
structure Local (I : σ → Prop) (r : Region σ) (f : σ → Option σ) : Prop where
  put : ∀ {s t}, I s → I t → f (r.put s t) = (f s).map fun s' => r.put s' t
  keeps : ∀ {s t}, I s → f s = some t → I t

section Steps
variable {I : σ → Prop} {r q : Region σ} {f g : σ → Option σ} {s s' t t' : σ}

theorem Local.frame (hf : Local I r f) (hs : I s) (h : f s = some s') : r.put s' s = s' := by
  have hself := hf.put hs hs
  rw [r.put_self, h] at hself
  exact (Option.some.inj hself).symm

/-- A step elsewhere does not change the part `r`. -/
theorem Local.kept (hg : Local I q g) (hrq : r.Apart q) (ht : I t) (h : g t = some t') (hs : r.put s t = t) :
    r.put s t' = t' := by
  have hframe := hg.frame ht h
  calc r.put s t' = r.put s (q.put t' t) := by rw [hframe]
    _ = q.put t' (r.put s t) := (hrq s t' t).symm
    _ = t' := by rw [hs, hframe]

/-- After a step elsewhere, a step does what it did before. -/
theorem Local.later (hf : Local I r f) (hg : Local I q g) (hrq : r.Apart q) (hs : I s) (h : g s = some t) :
    f t = (f s).map fun s' => r.put s' t := by
  have hsame : r.put s t = t := hg.kept hrq hs h (r.put_self s)
  rw [← hf.put hs (hg.keeps hs h), hsame]

/-- **Steps local to parts that are apart commute.** -/
theorem Local.comm (hf : Local I r f) (hg : Local I q g) (hrq : r.Apart q) (hs : I s) : f s >>= g = g s >>= f := by
  cases h₁ : f s with
  | none =>
    cases h₂ : g s with
    | none => rfl
    | some s₂ =>
      change none = f s₂
      rw [hf.later hg hrq hs h₂, h₁]
      rfl
  | some s₁ =>
    cases h₂ : g s with
    | none =>
      change g s₁ = none
      rw [hg.later hf hrq.symm hs h₁, h₂]
      rfl
    | some s₂ =>
      have hsame : q.put s₂ s₁ = r.put s₁ s₂ := by
        calc q.put s₂ s₁ = q.put s₂ (r.put s₁ s) := by rw [hf.frame hs h₁]
          _ = r.put s₁ (q.put s₂ s) := hrq s₁ s₂ s
          _ = r.put s₁ s₂ := by rw [hg.frame hs h₂]
      change g s₁ = f s₂
      rw [hg.later hf hrq.symm hs h₁, hf.later hg hrq hs h₂, h₁, h₂]
      exact congrArg some hsame

end Steps

section Lists
variable {I : σ → Prop} {step : σ → ℓ → Option σ} {region : ℓ → Region σ} {ls ms : List ℓ} {s s' t : σ}

/-- **Steps that are pairwise apart can be taken in any order.** -/
theorem exec_perm (hlocal : ∀ l, Local I (region l) fun s => step s l) (hperm : ls.Perm ms)
    (hapart : ls.Pairwise fun l m => (region l).Apart (region m)) :
    ∀ s, I s → exec step s ls = exec step s ms := by
  induction hperm with
  | nil => exact fun _ _ => rfl
  | @cons l ls ms _ ih =>
    intro s hs
    change (step s l >>= fun t => exec step t ls) = step s l >>= fun t => exec step t ms
    cases h : step s l with
    | none => rfl
    | some t => exact ih hapart.tail t ((hlocal l).keeps hs h)
  | swap l m ls =>
    intro s hs
    have hhead : (step s m >>= fun t => step t l) = step s l >>= fun t => step t m :=
      (hlocal m).comm (hlocal l) (List.rel_of_pairwise_cons hapart List.mem_cons_self) hs
    change (step s m >>= fun t => step t l >>= fun u => exec step u ls) =
      step s l >>= fun t => step t m >>= fun u => exec step u ls
    rw [← bind_assoc, ← bind_assoc, hhead]
  | trans hperm _ ih ih' =>
    intro s hs
    rw [ih hapart s hs, ih' (hperm.pairwise hapart fun h => h.symm) s hs]

theorem exec_kept {r : Region σ} (hlocal : ∀ l, Local I (region l) fun s => step s l)
    (hapart : ∀ l ∈ ls, r.Apart (region l)) (ht : I t) (h : exec step t ls = some s') (hs : r.put s t = t) :
    r.put s s' = s' := by
  induction ls generalizing t with
  | nil =>
    cases h
    exact hs
  | cons l ls ih =>
    obtain ⟨u, hu, hrest⟩ := exec_cons h
    have hkept : r.put s u = u := (hlocal l).kept (hapart l List.mem_cons_self) ht hu hs
    exact ih (fun m hm => hapart m (List.mem_cons_of_mem l hm)) ((hlocal l).keeps ht hu) hrest hkept

/-- **Each of several steps that are pairwise apart does in its region what it does alone.** -/
theorem exec_alone (hlocal : ∀ l, Local I (region l) fun s => step s l)
    (hapart : ls.Pairwise fun l m => (region l).Apart (region m)) (hs : I s) (h : exec step s ls = some t) {l : ℓ}
    (hl : l ∈ ls) : ∃ s', step s l = some s' ∧ (region l).put s' t = t := by
  obtain ⟨before, after, rfl⟩ := List.append_of_mem hl
  have hperm : (before ++ l :: after).Perm (l :: (before ++ after)) := List.perm_middle
  rw [exec_perm hlocal hperm hapart s hs] at h
  obtain ⟨s', hs', hrest⟩ := exec_cons h
  have hothers := hperm.pairwise hapart fun h => h.symm
  exact ⟨s', hs', exec_kept hlocal (fun m hm => List.rel_of_pairwise_cons hothers hm) ((hlocal l).keeps hs hs') hrest
    ((region l).put_self s')⟩

end Lists

end Machine
