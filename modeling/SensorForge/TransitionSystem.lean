import Mathlib

/-! Transition systems with labelled steps, and what holds of every state that their
runs reach. -/

namespace Transition

structure System (σ α : Type*) where
  start : σ → Prop
  next : σ → α → Option σ

variable {σ α : Type*} {M : System σ α} {guard : σ → α → Prop}

/-- The states reached by runs whose steps all meet `guard`. -/
inductive System.Reachable (M : System σ α) (guard : σ → α → Prop) : σ → Prop
  | start {s : σ} : M.start s → System.Reachable M guard s
  | step {s t : σ} {a : α} : System.Reachable M guard s → guard s a → M.next s a = some t →
      System.Reachable M guard t

def anyStep (_ : σ) (_ : α) : Prop := True

instance : ∀ (s : σ) (a : α), Decidable (anyStep s a) := fun _ _ => instDecidableTrue

/-- What holds at the start and is kept by every step holds in every reachable state. -/
theorem System.Reachable.invariant {P : σ → Prop} (hstart : ∀ s, M.start s → P s)
    (hstep : ∀ s a t, P s → guard s a → M.next s a = some t → P t) {s : σ}
    (h : M.Reachable guard s) : P s := by
  induction h with
  | start h0 => exact hstart _ h0
  | step _ hg hn ih => exact hstep _ _ _ ih hg hn

theorem System.Reachable.mono {guard' : σ → α → Prop} {s : σ} (h : M.Reachable guard s)
    (hguard : ∀ s a, guard s a → guard' s a) : M.Reachable guard' s := by
  induction h with
  | start h0 => exact .start h0
  | step _ hg hn ih => exact ih.step (hguard _ _ hg) hn

def System.run (M : System σ α) (guard : σ → α → Prop) [∀ s a, Decidable (guard s a)] (s : σ)
    (as : List α) : Option σ :=
  as.foldlM (fun s a => if guard s a then M.next s a else none) s

theorem System.run_cons [∀ s a, Decidable (guard s a)] {s t : σ} {a : α} {as : List α} :
    M.run guard s (a :: as) = some t ↔
      ∃ u, guard s a ∧ M.next s a = some u ∧ M.run guard u as = some t := by
  rw [System.run, List.foldlM_cons]
  by_cases hg : guard s a <;> simp [hg, System.run, Option.bind_eq_some_iff]

theorem System.run_append [∀ s a, Decidable (guard s a)] {s t : σ} {as bs : List α} :
    M.run guard s (as ++ bs) = some t ↔
      ∃ u, M.run guard s as = some u ∧ M.run guard u bs = some t := by
  rw [System.run, List.foldlM_append]
  exact Option.bind_eq_some_iff

theorem System.Reachable.run [∀ s a, Decidable (guard s a)] {s t : σ} {as : List α}
    (h : M.Reachable guard s) (hr : M.run guard s as = some t) : M.Reachable guard t := by
  induction as generalizing s with
  | nil =>
    cases hr
    exact h
  | cons a as ih =>
    obtain ⟨u, hg, hu, hr⟩ := System.run_cons.mp hr
    exact ih (h.step hg hu) hr

end Transition
