import Mathlib

/-! A latch that fires at the first of several marked elements and is set from there until
an element clears it: it fires once in each maximal run of marked elements exactly if
each gap between two runs has an element that clears it. -/

namespace EdgeLatch

variable {α : Type*} (p clear : α → Bool)

def maximalRuns (xs : List α) : List (List α) :=
  (xs.splitBy fun a b => p a == p b).filter fun run => run.all p

structure Latch where
  set : Bool := false
  fired : Nat := 0
  deriving DecidableEq

def Latch.mark (l : Latch) : Latch :=
  if l.set then l else { set := true, fired := l.fired + 1 }

def Latch.step (l : Latch) (a : α) : Latch :=
  if p a then l.mark
  else if clear a then { l with set := false }
  else l

def latch (xs : List α) : Latch := xs.foldl (Latch.step p clear) {}

/-- Every gap between two maximal runs of marked elements has an element that clears. -/
def Separated (xs : List α) : Prop :=
  ∀ before c gap d after, xs = before ++ c :: (gap ++ d :: after) → p c → p d → gap ≠ [] →
    (∀ g ∈ gap, p g = false) → ∃ g ∈ gap, clear g

variable {p clear}

theorem Latch.mark_set (l : Latch) : l.mark.set = true := by
  cases hset : l.set <;> simp [Latch.mark, hset]

theorem Latch.mark_mark (l : Latch) : l.mark.mark = l.mark := if_pos l.mark_set

/-- An element that is related to the last one goes to the last run. -/
theorem splitBy_append_related {r : α → α → Bool} (xs : List α) {b a : α} (h : r b a = true) :
    ∃ front last, (xs ++ [b]).splitBy r = front ++ [last ++ [b]] ∧
      (xs ++ [b] ++ [a]).splitBy r = front ++ [last ++ [b] ++ [a]] := by
  have hne : (xs ++ [b]).splitBy r ≠ [] := by simp
  rcases List.eq_nil_or_concat' ((xs ++ [b]).splitBy r) with hnil | ⟨front, run, hsplit⟩
  · exact absurd hnil hne
  obtain ⟨hflat, hempty, hchain, hsep⟩ := List.splitBy_eq_iff.mp hsplit
  rcases List.eq_nil_or_concat' run with rfl | ⟨last, b', rfl⟩
  · exact absurd (List.mem_append_right front (List.mem_singleton_self [])) hempty
  have hlast : xs ++ [b] = front.flatten ++ last ++ [b'] := by simpa using hflat
  obtain ⟨rfl, hb⟩ := List.append_inj' hlast rfl
  obtain rfl : b = b' := by simpa using hb
  refine ⟨front, last, hsplit, List.splitBy_eq_iff.mpr ⟨by simp, ?_, ?_, ?_⟩⟩
  · simpa using hempty
  · intro m hm
    rcases List.mem_append.mp hm with hm | hm
    · exact hchain m (List.mem_append_left _ hm)
    · have hrun := hchain _ (List.mem_append_right front (List.mem_singleton_self (last ++ [b])))
      rw [List.mem_singleton.mp hm, List.isChain_append]
      exact ⟨hrun, by simp, by simpa using h⟩
  · rw [List.isChain_append] at hsep ⊢
    refine ⟨hsep.1, by simp, ?_⟩
    intro m hm m' hm'
    obtain ⟨hm₀, _, hr⟩ := hsep.2.2 m hm (last ++ [b]) (by simp)
    obtain rfl : last ++ [b] ++ [a] = m' := by simpa using hm'
    exact ⟨hm₀, by simp, by rwa [List.head_append_of_ne_nil]⟩

theorem maximalRuns_append (xs : List α) (a : α) :
    (maximalRuns p (xs ++ [a])).length =
      (maximalRuns p xs).length + if p a ∧ xs.getLast?.any p = false then 1 else 0 := by
  unfold maximalRuns
  by_cases hrelated : ∀ b ∈ xs.getLast?, (p b == p a) = false
  · rw [List.splitBy_append_cons [] hrelated, List.filter_append, List.length_append]
    congr 1
    change (List.filter (fun run => run.all p) [[a]]).length = _
    cases hlast : xs.getLast? with
    | none => cases ha : p a <;> simp [ha]
    | some b =>
      have hb := hrelated b hlast
      cases ha : p a <;> simp_all
  · obtain ⟨b, hb, hab⟩ : ∃ b ∈ xs.getLast?, (p b == p a) = true := by simpa using hrelated
    obtain ⟨ys, rfl⟩ := List.getLast?_eq_some_iff.mp hb
    obtain ⟨front, last, hold, hnew⟩ :=
      splitBy_append_related (r := fun a b => p a == p b) ys hab
    have hpb : p b = p a := by simpa using hab
    rw [hold, hnew, List.filter_append, List.filter_append]
    -- the last run stays marked or unmarked, whichever it was
    cases ha : p a with
    | false => simp [hpb, ha]
    | true =>
      simp only [List.filter_cons, List.filter_nil, List.all_append, List.all_cons, List.all_nil,
        hpb, ha, Bool.and_true]
      by_cases hall : last.all p = true <;> simp [hall, hpb, ha]

theorem latch_append (xs : List α) (a : α) :
    latch p clear (xs ++ [a]) = (latch p clear xs).step p clear a := by
  rw [latch, List.foldl_append]
  rfl

theorem append_singleton_split {xs before gap : List α} {a c : α}
    (h : xs ++ [a] = before ++ c :: gap) :
    (xs = before ∧ a = c ∧ gap = []) ∨ ∃ gap', gap = gap' ++ [a] ∧ xs = before ++ c :: gap' := by
  rcases List.eq_nil_or_concat' gap with rfl | ⟨gap', b, rfl⟩
  · obtain ⟨rfl, hac⟩ := List.append_inj' h rfl
    exact .inl ⟨rfl, by simpa using hac, rfl⟩
  · have hassoc : xs ++ [a] = before ++ c :: gap' ++ [b] := by simpa using h
    obtain ⟨rfl, hab⟩ := List.append_inj' hassoc rfl
    obtain rfl : a = b := by simpa using hab
    exact .inr ⟨gap', rfl, rfl⟩

/-- The latch is set while nothing has cleared it since the last marked element. -/
theorem latch_set_iff (xs : List α) : (latch p clear xs).set = true ↔
    ∃ before c gap, xs = before ++ c :: gap ∧ p c = true ∧
      ∀ g ∈ gap, p g = false ∧ clear g = false := by
  induction xs using List.reverseRecOn with
  | nil => simp [latch]
  | append_singleton xs a ih =>
    rw [latch_append, Latch.step]
    by_cases ha : p a = true
    · rw [if_pos ha]
      exact iff_of_true (Latch.mark_set _) ⟨xs, a, [], by simp, ha, by simp⟩
    rw [if_neg ha]
    by_cases hclear : clear a = true
    · rw [if_pos hclear]
      refine iff_of_false (by simp) ?_
      rintro ⟨before, c, gap, heq, hc, hgap⟩
      rcases append_singleton_split heq with ⟨rfl, rfl, rfl⟩ | ⟨gap', rfl, rfl⟩
      · exact ha hc
      · have hkept := (hgap a (by simp)).2
        rw [hclear] at hkept
        cases hkept
    · rw [if_neg hclear, ih]
      constructor
      · rintro ⟨before, c, gap, rfl, hc, hgap⟩
        refine ⟨before, c, gap ++ [a], by simp, hc, ?_⟩
        simpa [or_imp, forall_and, ha, hclear] using hgap
      · rintro ⟨before, c, gap, heq, hc, hgap⟩
        rcases append_singleton_split heq with ⟨rfl, rfl, rfl⟩ | ⟨gap', rfl, rfl⟩
        · exact absurd hc ha
        · exact ⟨before, c, gap', rfl, hc, fun g hg => hgap g (List.mem_append_left _ hg)⟩

/-- Only a gap that ends with the last element can be new. -/
theorem separated_append (xs : List α) (a : α) : Separated p clear (xs ++ [a]) ↔
    Separated p clear xs ∧
      ¬ (p a = true ∧ xs.getLast?.any p = false ∧ (latch p clear xs).set = true) := by
  rw [latch_set_iff]
  constructor
  · intro h
    refine ⟨fun before c gap d after heq => h before c gap d (after ++ [a]) (by simp [heq]), ?_⟩
    rintro ⟨ha, hlast, before, c, gap, rfl, hc, hgap⟩
    have hne : gap ≠ [] := by
      rintro rfl
      simp [hc] at hlast
    obtain ⟨g, hg, hclear⟩ := h before c gap a [] (by simp) hc ha hne fun g hg => (hgap g hg).1
    have hkept := (hgap g hg).2
    rw [hclear] at hkept
    cases hkept
  · rintro ⟨hold, hnew⟩ before c gap d after heq hc hd hne hgap
    rw [← List.cons_append, ← List.append_assoc] at heq
    rcases append_singleton_split heq with ⟨rfl, rfl, rfl⟩ | ⟨after', rfl, rfl⟩
    · by_contra hclear
      refine hnew ⟨hd, ?_, before, c, gap, rfl, hc, fun g hg => ⟨hgap g hg, ?_⟩⟩
      · rcases List.eq_nil_or_concat' gap with rfl | ⟨gap', g, rfl⟩
        · exact absurd rfl hne
        · rw [← List.cons_append, ← List.append_assoc, List.getLast?_append]
          simpa using hgap g (by simp)
      · exact Bool.eq_false_iff.mpr fun h => hclear ⟨g, hg, h⟩
    · exact hold before c gap d after' (by simp) hc hd hne hgap

theorem set_of_marked {xs : List α} (h : xs.getLast?.any p = true) :
    (latch p clear xs).set = true := by
  obtain ⟨c, hc, hmarked⟩ := (Option.any_eq_true p xs.getLast?).mp h
  obtain ⟨before, rfl⟩ := List.getLast?_eq_some_iff.mp hc
  exact (latch_set_iff _).mpr ⟨before, c, [], rfl, hmarked, by simp⟩

theorem fired_append (xs : List α) (a : α) : (latch p clear (xs ++ [a])).fired =
    (latch p clear xs).fired + if p a ∧ (latch p clear xs).set = false then 1 else 0 := by
  rw [latch_append, Latch.step]
  by_cases ha : p a = true
  · cases hset : (latch p clear xs).set <;> simp [Latch.mark, ha, hset]
  · by_cases hclear : clear a = true <;> simp [ha, hclear]

/-- The latch fires once in each maximal run exactly if the runs are separated. -/
theorem fired_eq_iff (xs : List α) :
    (latch p clear xs).fired = (maximalRuns p xs).length ↔ Separated p clear xs := by
  suffices h : (latch p clear xs).fired ≤ (maximalRuns p xs).length ∧
      ((latch p clear xs).fired = (maximalRuns p xs).length ↔ Separated p clear xs) from h.2
  induction xs using List.reverseRecOn with
  | nil => exact ⟨le_rfl, iff_of_true rfl fun before c gap d after h => by simp at h⟩
  | append_singleton xs a ih =>
    obtain ⟨hle, hiff⟩ := ih
    rw [fired_append, maximalRuns_append, separated_append, ← hiff]
    have hset : xs.getLast?.any p = true → (latch p clear xs).set = true := set_of_marked
    by_cases ha : p a = true
    · cases hlast : xs.getLast?.any p with
      | true => simp [hset hlast, hle]
      | false =>
        cases (latch p clear xs).set with
        | true =>
          simp [ha]
          omega
        | false => simp [ha, hle]
    · simp [ha, hle]

end EdgeLatch
