import Mathlib

/-! Ranges of positions that lie in increasing order, the positions that none of them
covers, and how many maximal runs such positions form. -/

namespace Coverage

open Finset

/-- A start and a length. -/
abbrev Range := Nat × Nat

def Range.Covers (r : Range) (p : Nat) : Prop := r.1 ≤ p ∧ p < r.1 + r.2

def Uncovered (rs : List Range) (p : Nat) : Prop := ∀ r ∈ rs, ¬ r.Covers p

instance (r : Range) : DecidablePred r.Covers := fun _ => inferInstanceAs (Decidable (_ ∧ _))

instance (rs : List Range) : DecidablePred (Uncovered rs) :=
  fun p => inferInstanceAs (Decidable (∀ r ∈ rs, ¬ r.Covers p))

/-- The ranges lie between `first` and `last`, each behind the ones before it. -/
structure Disposed (first last : Nat) (rs : List Range) : Prop where
  within : ∀ r ∈ rs, first ≤ r.1 ∧ r.1 + r.2 ≤ last
  increasing : rs.Pairwise fun r s => r.1 + r.2 ≤ s.1

theorem Disposed.nil (first last : Nat) : Disposed first last [] :=
  ⟨fun _ h => absurd h List.not_mem_nil, List.Pairwise.nil⟩

theorem Disposed.mono {first first' last : Nat} {rs : List Range} (h : Disposed first' last rs)
    (hle : first ≤ first') : Disposed first last rs :=
  ⟨fun r hr => ⟨hle.trans (h.within r hr).1, (h.within r hr).2⟩, h.increasing⟩

theorem Disposed.cons {first last : Nat} {r : Range} {rs : List Range} (hfirst : first ≤ r.1)
    (hlast : r.1 + r.2 ≤ last) (h : Disposed (r.1 + r.2) last rs) : Disposed first last (r :: rs) := by
  refine ⟨?_, List.Pairwise.cons (fun s hs => (h.within s hs).1) h.increasing⟩
  intro s hs
  rcases List.mem_cons.mp hs with rfl | hs
  · exact ⟨hfirst, hlast⟩
  · exact ⟨by have := (h.within s hs).1; omega, (h.within s hs).2⟩

theorem Disposed.tail {first last : Nat} {r : Range} {rs : List Range}
    (h : Disposed first last (r :: rs)) : Disposed (r.1 + r.2) last rs :=
  ⟨fun s hs => ⟨(List.pairwise_cons.mp h.increasing).1 s hs,
    (h.within s (List.mem_cons_of_mem r hs)).2⟩, (List.pairwise_cons.mp h.increasing).2⟩

theorem Disposed.uncovered_of_lt {first last : Nat} {rs : List Range} (h : Disposed first last rs)
    {p : Nat} (hp : p < first) : Uncovered rs p := by
  intro r hr hcov
  have := (h.within r hr).1
  have := hcov.1
  omega

theorem uncovered_cons {r : Range} {rs : List Range} {p : Nat}
    (hp : r.1 + r.2 ≤ p) : Uncovered (r :: rs) p ↔ Uncovered rs p := by
  refine ⟨fun h s hs => h s (List.mem_cons_of_mem r hs), fun h s hs => ?_⟩
  rcases List.mem_cons.mp hs with rfl | hs
  · exact fun hcov => absurd hcov.2 (by omega)
  · exact h s hs

theorem Disposed.covered_once {first last : Nat} {rs : List Range} (h : Disposed first last rs)
    {p : Nat} (hp : ¬ Uncovered rs p) : ∃! r, r ∈ rs ∧ r.Covers p := by
  induction rs generalizing first with
  | nil => exact absurd (fun r hr => absurd hr List.not_mem_nil) hp
  | cons r rs ih =>
    by_cases hcov : r.Covers p
    · refine ⟨r, ⟨List.mem_cons_self, hcov⟩, ?_⟩
      rintro s ⟨hs, hscov⟩
      rcases List.mem_cons.mp hs with rfl | hs
      · rfl
      · exact absurd hscov (h.tail.uncovered_of_lt hcov.2 s hs)
    · have hrest : ¬ Uncovered rs p := by
        intro hun
        refine hp fun s hs => ?_
        rcases List.mem_cons.mp hs with rfl | hs
        · exact hcov
        · exact hun s hs
      obtain ⟨s, ⟨hs, hscov⟩, huniq⟩ := ih h.tail hrest
      refine ⟨s, ⟨List.mem_cons_of_mem r hs, hscov⟩, ?_⟩
      rintro t ⟨ht, htcov⟩
      rcases List.mem_cons.mp ht with rfl | ht
      · exact absurd htcov hcov
      · exact huniq t ⟨ht, htcov⟩

section Count

variable {P Q : Nat → Prop} [DecidablePred P] [DecidablePred Q]

theorem card_filter_Ico_succ {a b : Nat} (h : a < b) :
    #{p ∈ Ico a b | P p} = (if P a then 1 else 0) + #{p ∈ Ico (a + 1) b | P p} := by
  rw [card_filter, card_filter, sum_eq_sum_Ico_succ_bot h]

theorem card_filter_Ico_add {a b c : Nat} (hab : a ≤ b) (hbc : b ≤ c) :
    #{p ∈ Ico a c | P p} = #{p ∈ Ico a b | P p} + #{p ∈ Ico b c | P p} := by
  rw [card_filter, card_filter, card_filter, sum_Ico_consecutive _ hab hbc]

theorem card_filter_Ico_none {a b : Nat} (h : ∀ p, a ≤ p → p < b → ¬ P p) :
    #{p ∈ Ico a b | P p} = 0 := by
  rw [card_eq_zero, filter_eq_empty_iff]
  exact fun p hp => h p (mem_Ico.mp hp).1 (mem_Ico.mp hp).2

theorem card_filter_Ico_all {a b : Nat} (h : ∀ p, a ≤ p → p < b → P p) :
    #{p ∈ Ico a b | P p} = b - a := by
  rw [filter_true_of_mem (fun p hp => h p (mem_Ico.mp hp).1 (mem_Ico.mp hp).2), Nat.card_Ico]

theorem card_filter_Ico_congr {a b : Nat} (h : ∀ p, a ≤ p → p < b → (P p ↔ Q p)) :
    #{p ∈ Ico a b | P p} = #{p ∈ Ico a b | Q p} := by
  refine congrArg card (filter_congr ?_)
  exact fun p hp => h p (mem_Ico.mp hp).1 (mem_Ico.mp hp).2

end Count

/-- What is covered and what is not make up the whole. -/
theorem Disposed.sum_add_uncovered {first last : Nat} {rs : List Range}
    (h : Disposed first last rs) (hle : first ≤ last) :
    (rs.map Prod.snd).sum + #{p ∈ Ico first last | Uncovered rs p} = last - first := by
  induction rs generalizing first with
  | nil => simp [Uncovered]
  | cons r rs ih =>
    obtain ⟨hfirst, hlast⟩ := h.within r List.mem_cons_self
    have hrest := ih h.tail hlast
    have hbefore : #{p ∈ Ico first r.1 | Uncovered (r :: rs) p} = r.1 - first := by
      refine card_filter_Ico_all fun p _ hp => ?_
      have hlater : Disposed r.1 last (r :: rs) := Disposed.cons (le_refl _) hlast h.tail
      exact hlater.uncovered_of_lt hp
    have hin : #{p ∈ Ico r.1 (r.1 + r.2) | Uncovered (r :: rs) p} = 0 :=
      card_filter_Ico_none fun p hlo hhi hun => hun r List.mem_cons_self ⟨hlo, hhi⟩
    have hafter : #{p ∈ Ico (r.1 + r.2) last | Uncovered (r :: rs) p} =
        #{p ∈ Ico (r.1 + r.2) last | Uncovered rs p} :=
      card_filter_Ico_congr fun p hlo _ => uncovered_cons hlo
    rw [card_filter_Ico_add hfirst (Nat.le_trans (Nat.le_add_right _ _) hlast),
      card_filter_Ico_add (Nat.le_add_right _ _) hlast, hbefore, hin, hafter, List.map_cons,
      List.sum_cons]
    omega

section Runs

variable (G : Nat → Prop)

/-- A longest interval of positions below `last` that all satisfy `G`, end excluded. -/
def MaximalRun (last : Nat) (r : Nat × Nat) : Prop :=
  r.1 < r.2 ∧ r.2 ≤ last ∧ (∀ p ∈ Ico r.1 r.2, G p) ∧ (r.1 = 0 ∨ ¬ G (r.1 - 1)) ∧
    (r.2 = last ∨ ¬ G r.2)

def RunStart (p : Nat) : Prop := G p ∧ (p = 0 ∨ ¬ G (p - 1))

variable {G} in
theorem MaximalRun.end_le {last a b b' : Nat} (h : MaximalRun G last (a, b))
    (h' : MaximalRun G last (a, b')) : b ≤ b' := by
  by_contra hlt
  obtain ⟨_, hle, hall, _⟩ := h
  obtain ⟨hpos, _, _, _, hstop⟩ := h'
  simp only at hle hpos hstop hall
  rcases hstop with rfl | hstop
  · omega
  · exact hstop (hall b' (mem_Ico.mpr ⟨by omega, by omega⟩))

variable [DecidablePred G]

instance (last : Nat) : DecidablePred (MaximalRun G last) :=
  fun _ => inferInstanceAs (Decidable (_ ∧ _))

instance : DecidablePred (RunStart G) := fun _ => inferInstanceAs (Decidable (_ ∧ _))

def maximalRuns (last : Nat) : Finset (Nat × Nat) :=
  {r ∈ range last ×ˢ range (last + 1) | MaximalRun G last r}

variable {G}

theorem mem_maximalRuns {last : Nat} {r : Nat × Nat} :
    r ∈ maximalRuns G last ↔ MaximalRun G last r := by
  simp only [maximalRuns, mem_filter, mem_product, mem_range, and_iff_right_iff_imp]
  rintro ⟨hlt, hle, _⟩
  exact ⟨by omega, by omega⟩

theorem RunStart.exists_run {last p : Nat} (h : RunStart G p) (hp : p < last) :
    ∃ e, MaximalRun G last (p, e) := by
  have hend : ∃ e, p < e ∧ (e = last ∨ ¬ G e) := ⟨last, hp, .inl rfl⟩
  refine ⟨Nat.find hend, (Nat.find_spec hend).1, Nat.find_min' hend ⟨hp, .inl rfl⟩, ?_, h.2,
    (Nat.find_spec hend).2⟩
  intro q hq
  obtain ⟨hlo, hhi⟩ := mem_Ico.mp hq
  rcases Nat.eq_or_lt_of_le hlo with heq | hlt
  · exact heq ▸ h.1
  · by_contra hG
    exact Nat.find_min hend hhi ⟨hlt, .inr hG⟩

/-- There are as many maximal runs as positions at which one begins. -/
theorem card_maximalRuns (last : Nat) :
    #(maximalRuns G last) = #{p ∈ Ico 0 last | RunStart G p} := by
  refine card_bij (fun r _ => r.1) ?_ ?_ ?_
  · intro r hr
    obtain ⟨hlt, hle, hall, hstart, _⟩ := mem_maximalRuns.mp hr
    rw [mem_filter, mem_Ico]
    exact ⟨⟨Nat.zero_le _, by omega⟩, hall r.1 (mem_Ico.mpr ⟨le_refl _, hlt⟩), hstart⟩
  · rintro ⟨a, b⟩ hr ⟨a', b'⟩ hs (rfl : a = a')
    have hrun := mem_maximalRuns.mp hr
    have hrun' := mem_maximalRuns.mp hs
    rw [le_antisymm (hrun.end_le hrun') (hrun'.end_le hrun)]
  · intro p hp
    rw [mem_filter, mem_Ico] at hp
    obtain ⟨e, he⟩ := RunStart.exists_run hp.2 hp.1.2
    exact ⟨(p, e), mem_maximalRuns.mpr he, rfl⟩

end Runs

end Coverage
