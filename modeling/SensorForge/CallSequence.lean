import Mathlib

/-! Components whose calls run one after the other, and when one of them answers every
sequence of calls as another does. -/

namespace CallSequence

/-- `none` where a call does not return. -/
structure Component (σ κ ρ : Type*) where
  call : σ → κ → Option (σ × ρ)

variable {σ τ κ ρ : Type*} {M : Component σ κ ρ} {N : Component τ κ ρ} {R : σ → τ → Prop}

def Component.run (M : Component σ κ ρ) (s : σ) : List κ → Option (σ × List ρ)
  | [] => some (s, [])
  | c :: cs => (M.call s c).bind fun x => (M.run x.1 cs).map fun y => (y.1, x.2 :: y.2)

/-- Related states answer alike, or not at all, and stay related. -/
def Component.Refines (M : Component σ κ ρ) (N : Component τ κ ρ) (R : σ → τ → Prop) : Prop :=
  ∀ s t, R s t → ∀ c, Option.Rel (fun x y => R x.1 y.1 ∧ x.2 = y.2) (M.call s c) (N.call t c)

/-- A call taken in steps that nothing comes in between of, `n` of them at most. -/
def finish {π : Type*} (step : σ → π → σ × (π ⊕ ρ)) : Nat → σ → π → Option (σ × ρ)
  | 0, _, _ => none
  | n + 1, s, pc =>
    match step s pc with
    | (s, .inl pc) => finish step n s pc
    | (s, .inr r) => some (s, r)

theorem rel_bind {α β γ δ : Type*} {P : α → β → Prop} {Q : γ → δ → Prop} {o : Option α}
    {p : Option β} {f : α → Option γ} {g : β → Option δ} (h : Option.Rel P o p)
    (hfg : ∀ a b, P a b → Option.Rel Q (f a) (g b)) : Option.Rel Q (o.bind f) (p.bind g) := by
  cases h with
  | none => exact .none
  | some hab => exact hfg _ _ hab

theorem rel_imp {α β : Type*} {P Q : α → β → Prop} {o : Option α} {p : Option β}
    (h : Option.Rel P o p) (hpq : ∀ a b, P a b → Q a b) : Option.Rel Q o p := by
  cases h with
  | none => exact .none
  | some hab => exact .some (hpq _ _ hab)

theorem Component.Refines.run (h : M.Refines N R) {s : σ} {t : τ} (hst : R s t) (cs : List κ) :
    Option.Rel (fun x y => R x.1 y.1 ∧ x.2 = y.2) (M.run s cs) (N.run t cs) := by
  induction cs generalizing s t with
  | nil => exact .some ⟨hst, rfl⟩
  | cons c cs ih =>
    rw [Component.run, Component.run]
    refine rel_bind (h s t hst c) ?_
    rintro x y ⟨hxy, hreply⟩
    rw [Option.map_eq_bind, Option.map_eq_bind]
    refine rel_bind (ih hxy) ?_
    rintro u v ⟨huv, hreplies⟩
    refine .some ⟨huv, ?_⟩
    dsimp only
    rw [hreply, hreplies]

/-- A run returns when each of its calls does, from any state. -/
theorem Component.run_isSome {p : κ → Prop} (h : ∀ s c, p c → (M.call s c).isSome) (s : σ)
    {cs : List κ} (hcs : ∀ c ∈ cs, p c) : (M.run s cs).isSome := by
  induction cs generalizing s with
  | nil => rfl
  | cons c cs ih =>
    obtain ⟨x, hx⟩ := Option.isSome_iff_exists.mp (h s c (hcs c (by simp)))
    have hrest := ih x.1 fun d hd => hcs d (by simp [hd])
    rw [Component.run, hx, Option.bind_some, Option.isSome_map]
    exact hrest

end CallSequence
