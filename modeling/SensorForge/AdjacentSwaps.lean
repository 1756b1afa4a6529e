import Mathlib

/-! Lists with some disjoint pairs of neighbours swapped. No element of such a list is more
than one place away from its own. -/

namespace AdjacentSwaps

variable {α : Type*}

inductive Swapped : List α → List α → Prop
  | nil : Swapped [] []
  | keep (x : α) {l m : List α} : Swapped l m → Swapped (x :: l) (x :: m)
  | swap (x y : α) {l m : List α} : Swapped l m → Swapped (x :: y :: l) (y :: x :: m)

theorem Swapped.refl (l : List α) : Swapped l l := by
  induction l with
  | nil => exact .nil
  | cons x l ih => exact .keep x ih

theorem Swapped.append {l m l' m' : List α} (h : Swapped l m) (h' : Swapped l' m') :
    Swapped (l ++ l') (m ++ m') := by
  induction h with
  | nil => exact h'
  | keep x _ ih => exact .keep x ih
  | swap x y _ ih => exact .swap x y ih

theorem Swapped.perm {l m : List α} (h : Swapped l m) : l.Perm m := by
  induction h with
  | nil => exact .nil
  | keep x _ ih => exact .cons x ih
  | swap x y _ ih => exact (List.Perm.swap y x _).trans ((ih.cons x).cons y)

theorem Swapped.exists_near {l m : List α} (h : Swapped l m) {i : Nat} {x : α}
    (hi : l[i]? = some x) : ∃ j, m[j]? = some x ∧ i ≤ j + 1 ∧ j ≤ i + 1 := by
  induction h generalizing i with
  | nil => cases hi
  | keep y _ ih =>
    cases i with
    | zero => exact ⟨0, hi, by omega, by omega⟩
    | succ i =>
      obtain ⟨j, hj, hij, hji⟩ := ih (i := i) hi
      exact ⟨j + 1, hj, by omega, by omega⟩
  | swap y z _ ih =>
    match i with
    | 0 => exact ⟨1, hi, by omega, by omega⟩
    | 1 => exact ⟨0, hi, by omega, by omega⟩
    | i + 2 =>
      obtain ⟨j, hj, hij, hji⟩ := ih (i := i) hi
      exact ⟨j + 2, hj, by omega, by omega⟩

/-- The bound on the places, for elements that occur once. -/
theorem Swapped.near {l m : List α} (h : Swapped l m) (hl : l.Nodup) {i j : Nat} {x : α}
    (hi : l[i]? = some x) (hj : m[j]? = some x) : i ≤ j + 1 ∧ j ≤ i + 1 := by
  obtain ⟨k, hk, hnear⟩ := h.exists_near hi
  have hm : m.Nodup := h.perm.nodup_iff.mp hl
  obtain ⟨hlt, _⟩ := List.getElem?_eq_some_iff.mp hj
  obtain rfl : j = k := (List.getElem?_inj hlt hm).mp (hj.trans hk.symm)
  exact hnear

end AdjacentSwaps
