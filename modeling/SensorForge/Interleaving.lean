import SensorForge.TransitionSystem

/-! Several machines of one kind, each step of which happens at one of them: what a
machine goes through depends only on the steps at it. -/

namespace Transition

/-- Where each step happens, whether it can, and what it does there. -/
structure Net (ι σ β : Type*) where
  place : β → ι
  allowed : β → Prop
  step : σ → β → Option σ

variable {ι σ β : Type*} [DecidableEq ι] (N : Net ι σ β) [DecidablePred N.allowed]

def Net.system (start : (ι → σ) → Prop) : System (ι → σ) β where
  start := start
  next s b :=
    if N.allowed b then (N.step (s (N.place b)) b).map (Function.update s (N.place b)) else none

def Net.toward (i : ι) (bs : List β) : List β := bs.filter fun b => N.place b = i

variable {N} {start : (ι → σ) → Prop}

theorem Net.next_eq_some {s t : ι → σ} {b : β} :
    (N.system start).next s b = some t ↔ N.allowed b ∧
      ∃ u, N.step (s (N.place b)) b = some u ∧ t = Function.update s (N.place b) u := by
  simp only [Net.system]
  by_cases h : N.allowed b
  · simp [h, eq_comm]
  · simp [h]

theorem Net.run_allowed {s t : ι → σ} {bs : List β}
    (h : (N.system start).run anyStep s bs = some t) : ∀ b ∈ bs, N.allowed b := by
  induction bs generalizing s with
  | nil => simp
  | cons b bs ih =>
    obtain ⟨u, _, hu, hr⟩ := System.run_cons.mp h
    intro c hc
    rcases List.mem_cons.mp hc with rfl | hc
    · exact (Net.next_eq_some.mp hu).1
    · exact ih hr c hc

/-- A machine's own steps, run on it alone, take it where the whole run does. -/
theorem Net.run_at {s t : ι → σ} {bs : List β}
    (h : (N.system start).run anyStep s bs = some t) (i : ι) :
    (N.toward i bs).foldlM N.step (s i) = some (t i) := by
  induction bs generalizing s with
  | nil =>
    cases h
    rfl
  | cons b bs ih =>
    obtain ⟨u, _, hu, hr⟩ := System.run_cons.mp h
    obtain ⟨_, v, hv, rfl⟩ := Net.next_eq_some.mp hu
    have hrest := ih hr
    by_cases hi : N.place b = i
    · subst hi
      rw [Function.update_self] at hrest
      rw [Net.toward, List.filter_cons_of_pos (by simp), List.foldlM_cons, hv]
      exact hrest
    · rw [Function.update_of_ne (Ne.symm hi)] at hrest
      rw [Net.toward, List.filter_cons_of_neg (by simpa using hi)]
      exact hrest

theorem Net.run_alone {i : ι} {bs : List β} (hbs : ∀ b ∈ bs, N.place b = i ∧ N.allowed b)
    {s : ι → σ} {u : σ} (h : bs.foldlM N.step (s i) = some u) :
    ∃ t, (N.system start).run anyStep s bs = some t ∧ t i = u := by
  induction bs generalizing s with
  | nil =>
    cases h
    exact ⟨s, rfl, rfl⟩
  | cons b bs ih =>
    obtain ⟨hi, hallowed⟩ := hbs b List.mem_cons_self
    rw [List.foldlM_cons] at h
    obtain ⟨v, hv, h⟩ := Option.bind_eq_some_iff.mp h
    have hnext : (N.system start).next s b = some (Function.update s i v) :=
      Net.next_eq_some.mpr ⟨hallowed, v, hi ▸ hv, hi ▸ rfl⟩
    obtain ⟨t, ht, hu⟩ := ih (fun c hc => hbs c (List.mem_cons_of_mem b hc))
      (s := Function.update s i v) (by rwa [Function.update_self])
    exact ⟨t, System.run_cons.mpr ⟨_, trivial, hnext, ht⟩, hu⟩

end Transition
