import Mathlib

/-! The elements of a list by rank. How many elements are at most `y` is how far down
the sorted list stays at most `y`. -/

namespace OrderStatistic

variable {α : Type*} [LinearOrder α]

def sorted (xs : List α) : List α := xs.mergeSort fun a b => decide (a ≤ b)

theorem sorted_perm (xs : List α) : (sorted xs).Perm xs := List.mergeSort_perm _ _

@[simp] theorem sorted_length (xs : List α) : (sorted xs).length = xs.length :=
  (sorted_perm xs).length_eq

theorem sorted_pairwise (xs : List α) : (sorted xs).Pairwise (· ≤ ·) := by
  have h : (sorted xs).Pairwise fun a b => decide (a ≤ b) = true :=
    List.pairwise_mergeSort (fun a b c hab hbc => by
      rw [decide_eq_true_eq] at hab hbc ⊢
      exact hab.trans hbc) (fun a b => by
      rw [Bool.or_eq_true, decide_eq_true_eq, decide_eq_true_eq]
      exact le_total a b) xs
  exact h.imp fun {a b} hab => of_decide_eq_true hab

theorem sorted_congr {xs ys : List α} (h : xs.Perm ys) : sorted xs = sorted ys := by
  have hperm : (sorted xs).Perm (sorted ys) :=
    (sorted_perm xs).trans (h.trans (sorted_perm ys).symm)
  exact hperm.eq_of_pairwise (fun a b _ _ hab hba => le_antisymm hab hba) (sorted_pairwise xs)
    (sorted_pairwise ys)

theorem sorted_mono (xs : List α) {i j : Nat} (hij : i ≤ j) (hj : j < (sorted xs).length) :
    (sorted xs)[i] ≤ (sorted xs)[j] := by
  rcases Nat.eq_or_lt_of_le hij with rfl | hlt
  · exact le_refl _
  · exact List.pairwise_iff_getElem.mp (sorted_pairwise xs) i j (by omega) hj hlt

theorem sorted_mem (xs : List α) {k : Nat} (hk : k < (sorted xs).length) :
    (sorted xs)[k] ∈ xs :=
  (sorted_perm xs).mem_iff.mp (List.getElem_mem hk)

/-- More than `k` elements are at most `y` exactly if the element of rank `k` is. -/
theorem lt_countP_le_iff (xs : List α) {k : Nat} (hk : k < (sorted xs).length) (y : α) :
    k < xs.countP (fun x => x ≤ y) ↔ (sorted xs)[k] ≤ y := by
  have hsplit : ∀ n, xs.countP (fun x => x ≤ y) =
      ((sorted xs).take n).countP (fun x => x ≤ y) +
        ((sorted xs).drop n).countP (fun x => x ≤ y) := by
    intro n
    rw [← List.countP_append, List.take_append_drop]
    exact ((sorted_perm xs).countP_eq _).symm
  constructor
  · intro h
    by_contra hgt
    have hlow : ((sorted xs).take k).countP (fun x => x ≤ y) ≤ k :=
      List.countP_le_length.trans (List.length_take_le k _)
    have hhigh : ((sorted xs).drop k).countP (fun x => x ≤ y) = 0 := by
      rw [List.countP_eq_zero]
      intro x hx hle
      obtain ⟨i, hi, rfl⟩ := List.getElem_of_mem hx
      rw [List.getElem_drop] at hle
      exact hgt ((sorted_mono xs (Nat.le_add_right k i) _).trans (of_decide_eq_true hle))
    rw [hsplit k] at h
    omega
  · intro hle
    have htake : ((sorted xs).take (k + 1)).length = k + 1 := by
      rw [List.length_take]
      omega
    have hlow : ((sorted xs).take (k + 1)).countP (fun x => x ≤ y) = k + 1 := by
      conv_rhs => rw [← htake]
      rw [List.countP_eq_length]
      intro x hx
      obtain ⟨i, hi, rfl⟩ := List.getElem_of_mem hx
      rw [List.getElem_take]
      exact decide_eq_true ((sorted_mono xs (by omega) hk).trans hle)
    rw [hsplit (k + 1)]
    omega

/-- One more element is at most the one of rank `k` exactly if the next in rank equals it. -/
theorem succ_lt_countP_iff (xs : List α) {k : Nat} (hk : k < (sorted xs).length) :
    k + 1 < xs.countP (fun x => x ≤ (sorted xs)[k]) ↔
      (sorted xs)[k + 1]? = (sorted xs)[k]? := by
  rw [List.getElem?_eq_getElem hk]
  constructor
  · intro h
    have hnext : k + 1 < (sorted xs).length := by
      rw [sorted_length]
      exact h.trans_le List.countP_le_length
    have hle := (lt_countP_le_iff xs hnext _).mp h
    rw [List.getElem?_eq_getElem hnext]
    exact congrArg some (le_antisymm hle (sorted_mono xs (Nat.le_succ k) hnext))
  · intro h
    obtain ⟨hnext, heq⟩ := List.getElem?_eq_some_iff.mp h
    exact (lt_countP_le_iff xs hnext _).mpr heq.le

theorem countP_add_countP_le (xs : List α) {y x : α} (h : y < x) :
    xs.countP (x ≤ ·) + xs.countP (· ≤ y) ≤ xs.length := by
  have hlen := List.length_eq_countP_add_countP (fun z => decide (z ≤ y)) (l := xs)
  have hnot : xs.countP (x ≤ ·) ≤ xs.countP fun z => ¬ decide (z ≤ y) = true := by
    refine List.countP_mono_left fun z _ hz => ?_
    rw [decide_eq_true_eq, decide_eq_true_eq, not_le]
    exact h.trans_le (of_decide_eq_true hz)
  omega

end OrderStatistic
