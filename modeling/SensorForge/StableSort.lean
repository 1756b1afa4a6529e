import Mathlib

/-! Stable sorting by a comparison and searching a sorted range, as the standard
algorithms of that name specify them. -/

namespace StableSort

variable {α : Type*}

/-- `std::stable_sort` with the strict comparison `lt`. -/
def stableSort (lt : α → α → Bool) (l : List α) : List α :=
  l.mergeSort fun a b => !lt b a

/-- `std::lower_bound` on a range partitioned by `p`: how many elements satisfy it. -/
def lowerBound (p : α → Bool) (l : List α) : Nat := (l.takeWhile p).length

theorem stableSort_perm (lt : α → α → Bool) (l : List α) : (stableSort lt l).Perm l :=
  List.mergeSort_perm _ _

section Key

variable {β : Type*} [LinearOrder β] {lt : α → α → Bool} {key : α → β}

theorem not_lt_iff (hkey : ∀ a b, lt a b = true ↔ key a < key b) (a b : α) :
    (!lt b a) = true ↔ key a ≤ key b := by
  rw [Bool.not_eq_true', ← Bool.not_eq_true, hkey, not_lt]

theorem not_lt_trans (hkey : ∀ a b, lt a b = true ↔ key a < key b) (a b c : α)
    (hab : (!lt b a) = true) (hbc : (!lt c b) = true) : (!lt c a) = true := by
  rw [not_lt_iff hkey] at hab hbc ⊢
  exact hab.trans hbc

theorem not_lt_total (hkey : ∀ a b, lt a b = true ↔ key a < key b) (a b : α) :
    ((!lt b a) || !lt a b) = true := by
  rw [Bool.or_eq_true, not_lt_iff hkey, not_lt_iff hkey]
  exact le_total _ _

theorem stableSort_sorted (hkey : ∀ a b, lt a b = true ↔ key a < key b) (l : List α) :
    (stableSort lt l).Pairwise fun a b => key a ≤ key b := by
  have hsorted : (stableSort lt l).Pairwise fun a b => (!lt b a) = true :=
    List.pairwise_mergeSort (not_lt_trans hkey) (not_lt_total hkey) l
  exact hsorted.imp fun {a b} h => (not_lt_iff hkey a b).mp h

theorem stableSort_eq_of_perm (hkey : ∀ a b, lt a b = true ↔ key a < key b) {l l' : List α}
    (hp : l.Perm l') (hs : l'.Pairwise fun a b => key a < key b) : stableSort lt l = l' := by
  have hinj : ∀ a ∈ l', ∀ b ∈ l', key a = key b → a = b := by
    have hd : (l'.map key).Nodup := by
      rw [List.nodup_iff_pairwise_ne, List.pairwise_map]
      exact hs.imp fun h => ne_of_lt h
    exact fun a ha b hb he => List.inj_on_of_nodup_map hd ha hb he
  have hperm := (stableSort_perm lt l).trans hp
  have hle : l'.Pairwise fun a b => key a ≤ key b := hs.imp fun h => le_of_lt h
  refine List.Perm.eq_of_pairwise ?_ (stableSort_sorted hkey l) hle hperm
  intro a b ha hb hab hba
  exact hinj a (hperm.mem_iff.mp ha) b hb (le_antisymm hab hba)

theorem stableSort_of_sorted (hkey : ∀ a b, lt a b = true ↔ key a < key b) {l : List α}
    (hs : l.Pairwise fun a b => key a ≤ key b) : stableSort lt l = l := by
  refine List.mergeSort_of_pairwise (hs.imp ?_)
  exact fun {a b} h => (not_lt_iff hkey a b).mpr h

/-- Elements that are already in order among themselves keep their order. -/
theorem stableSort_filter (hkey : ∀ a b, lt a b = true ↔ key a < key b) {l : List α}
    {p : α → Bool} (hp : (l.filter p).Pairwise fun a b => key a ≤ key b) :
    (stableSort lt l).filter p = l.filter p := by
  have hle : (l.filter p).Pairwise fun a b => (!lt b a) = true :=
    hp.imp fun {a b} h => (not_lt_iff hkey a b).mpr h
  have hsub : (l.filter p).Sublist (stableSort lt l) :=
    List.sublist_mergeSort (not_lt_trans hkey) (not_lt_total hkey) hle List.filter_sublist
  have hfilter := hsub.filter p
  simp only [List.filter_filter, Bool.and_self] at hfilter
  exact (hfilter.eq_of_length ((stableSort_perm lt l).filter p).length_eq.symm).symm

theorem stableSort_filter_key (hkey : ∀ a b, lt a b = true ↔ key a < key b) (l : List α) (k : β) :
    (stableSort lt l).filter (fun a => key a = k) = l.filter fun a => key a = k := by
  refine stableSort_filter hkey (List.pairwise_filter.mpr ?_)
  refine List.pairwise_of_forall_mem_list fun a _ b _ ha hb => ?_
  rw [of_decide_eq_true ha, of_decide_eq_true hb]

/-- Sorted lists that agree on the elements of each key are equal. -/
theorem eq_of_filter_key {l l' : List α} (hs : l.Pairwise fun a b => key a ≤ key b)
    (hs' : l'.Pairwise fun a b => key a ≤ key b)
    (h : ∀ k, l.filter (fun a => key a = k) = l'.filter fun a => key a = k) : l = l' := by
  induction l generalizing l' with
  | nil =>
    cases l' with
    | nil => rfl
    | cons b l' => simpa using h (key b)
  | cons a l ih =>
    obtain ⟨ha, hl⟩ := List.pairwise_cons.mp hs
    cases l' with
    | nil => simpa using h (key a)
    | cons b l' =>
      obtain ⟨hb, hl'⟩ := List.pairwise_cons.mp hs'
      have hba : key b ≤ key a := by
        have hmem : a ∈ (b :: l').filter fun c => key c = key a := by
          rw [← h (key a)]
          simp
        rcases List.mem_cons.mp (List.mem_of_mem_filter hmem) with rfl | hmem
        · exact le_refl _
        · exact hb a hmem
      have hab : key a ≤ key b := by
        have hmem : b ∈ (a :: l).filter fun c => key c = key b := by
          rw [h (key b)]
          simp
        rcases List.mem_cons.mp (List.mem_of_mem_filter hmem) with rfl | hmem
        · exact le_refl _
        · exact ha b hmem
      have heq : key a = key b := le_antisymm hab hba
      have hhead : a = b := by
        have hh := h (key a)
        simp only [List.filter_cons, heq, decide_true, if_true] at hh
        exact (List.cons.inj hh).1
      subst hhead
      rw [ih hl hl' fun k => ?_]
      have hk := h k
      simp only [List.filter_cons] at hk
      split at hk
      · exact (List.cons.inj hk).2
      · exact hk

/-- `l'` is in order, and each key has the elements that it has in `l`, as they stand there. -/
structure StableSorted (key : α → β) (l l' : List α) : Prop where
  sorted : l'.Pairwise fun a b => key a ≤ key b
  stable : ∀ k, l'.filter (fun a => key a = k) = l.filter fun a => key a = k

theorem stableSorted_iff (hkey : ∀ a b, lt a b = true ↔ key a < key b) {l l' : List α} :
    StableSorted key l l' ↔ l' = stableSort lt l := by
  constructor
  · intro h
    refine eq_of_filter_key h.sorted (stableSort_sorted hkey l) fun k => ?_
    rw [stableSort_filter_key hkey, h.stable]
  · rintro rfl
    exact ⟨stableSort_sorted hkey l, stableSort_filter_key hkey l⟩

/-- What has been sorted before may be sorted again together with what comes behind it. -/
theorem stableSort_append (hkey : ∀ a b, lt a b = true ↔ key a < key b) (l m : List α) :
    stableSort lt (stableSort lt l ++ m) = stableSort lt (l ++ m) := by
  refine eq_of_filter_key (stableSort_sorted hkey _) (stableSort_sorted hkey _) fun k => ?_
  rw [stableSort_filter_key hkey, stableSort_filter_key hkey, List.filter_append,
    List.filter_append, stableSort_filter_key hkey]

/-- Sorting by a second key as well changes nothing exactly when that key is already
in order among equal first keys. -/
theorem stableSort_lex_eq_iff {γ : Type*} [LinearOrder γ] {lt' : α → α → Bool} {tie : α → γ}
    (hkey : ∀ a b, lt a b = true ↔ key a < key b)
    (hlex : ∀ a b, lt' a b = true ↔ toLex (key a, tie a) < toLex (key b, tie b)) (l : List α) :
    stableSort lt' l = stableSort lt l ↔
      l.Pairwise fun a b => key a = key b → tie a ≤ tie b := by
  have hsorted := stableSort_sorted hlex l
  constructor
  · intro heq
    rw [heq] at hsorted
    have hclass : ∀ k, l.Pairwise fun a b => key a = k → key b = k → tie a ≤ tie b := by
      intro k
      have hk := hsorted.filter fun a => key a = k
      rw [stableSort_filter_key hkey, List.pairwise_filter] at hk
      refine hk.imp fun {a b} h ha hb => ?_
      rcases Prod.Lex.toLex_le_toLex.mp (h (decide_eq_true ha) (decide_eq_true hb)) with hlt | hle
      · exact absurd hlt (by simp [ha, hb])
      · exact hle.2
    rw [List.pairwise_iff_forall_sublist]
    intro a b hsub hab
    exact List.pairwise_iff_forall_sublist.mp (hclass (key b)) hsub hab rfl
  · intro hties
    have hfirst : (stableSort lt' l).Pairwise fun a b => key a ≤ key b := by
      refine hsorted.imp fun {a b} hab => ?_
      rcases Prod.Lex.toLex_le_toLex.mp hab with hlt | hle
      · exact le_of_lt hlt
      · exact le_of_eq hle.1
    refine eq_of_filter_key hfirst (stableSort_sorted hkey l) fun k => ?_
    rw [stableSort_filter_key hkey]
    refine stableSort_filter hlex (List.pairwise_filter.mpr (hties.imp ?_))
    intro a b htie ha hb
    have hab : key a = key b := by rw [of_decide_eq_true ha, of_decide_eq_true hb]
    exact Prod.Lex.toLex_le_toLex.mpr (.inr ⟨hab, htie hab⟩)

end Key

theorem stableSort_map {β : Type*} {lt : α → α → Bool} {lt' : β → β → Bool} {f : α → β}
    (h : ∀ a b, lt' (f a) (f b) = lt a b) (l : List α) :
    stableSort lt' (l.map f) = (stableSort lt l).map f := by
  refine (List.map_mergeSort ?_).symm
  intro a _ b _
  rw [h]

theorem lowerBound_map {β : Type*} (p : β → Bool) (f : α → β) (l : List α) :
    lowerBound p (l.map f) = lowerBound (fun a => p (f a)) l := by
  rw [lowerBound, List.takeWhile_map, List.length_map]
  rfl

theorem drop_lowerBound {β : Type*} [LinearOrder β] (key : α → β) (t : β) {l : List α}
    (h : l.Pairwise fun a b => key a ≤ key b) :
    l.drop (lowerBound (fun a => key a < t) l) = l.filter (fun a => t ≤ key a) := by
  induction l with
  | nil => rfl
  | cons a l ih =>
    obtain ⟨ha, hl⟩ := List.pairwise_cons.mp h
    by_cases hat : key a < t
    · have hh := ih hl
      simpa [lowerBound, hat, not_le.mpr hat] using hh
    · have hall : ∀ b ∈ a :: l, t ≤ key b := by
        intro b hb
        rcases List.mem_cons.mp hb with rfl | hb
        · exact not_lt.mp hat
        · exact (not_lt.mp hat).trans (ha b hb)
      rw [List.filter_eq_self.mpr (by simpa using hall)]
      simp [lowerBound, hat]

theorem lowerBound_eq_countP {β : Type*} [LinearOrder β] (key : α → β) (t : β) {l : List α}
    (h : l.Pairwise fun a b => key a ≤ key b) :
    lowerBound (fun a => key a < t) l = l.countP fun a => key a < t := by
  induction l with
  | nil => rfl
  | cons a l ih =>
    obtain ⟨ha, hl⟩ := List.pairwise_cons.mp h
    by_cases hat : key a < t
    · have hh := ih hl
      simpa [lowerBound, hat] using hh
    · have hnone : l.countP (fun a => key a < t) = 0 := by
        rw [List.countP_eq_zero]
        intro b hb
        simpa using (not_lt.mp hat).trans (ha b hb)
      simp [lowerBound, hat, hnone]

end StableSort
