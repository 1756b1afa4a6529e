import Mathlib

/-! The running maxima of a list: what a filter lets through that only remembers the last
element it has let through and refuses what lies below. -/

namespace RunningMaxima

variable {α : Type*} [LinearOrder α]

def step (kept : List α) (x : α) : List α :=
  if ∀ y ∈ kept.getLast?, y ≤ x then kept ++ [x] else kept

def maxima (l : List α) : List α := l.foldl step []

theorem maxima_append_singleton (l : List α) (x : α) :
    maxima (l ++ [x]) = step (maxima l) x := by
  rw [maxima, List.foldl_append]
  rfl

theorem maxima_sublist (l : List α) : (maxima l).Sublist l := by
  induction l using List.reverseRecOn with
  | nil => exact List.Sublist.slnil
  | append_singleton l x ih =>
    rw [maxima_append_singleton, step]
    split
    · exact ih.append (List.Sublist.refl [x])
    · exact ih.trans (List.sublist_append_left l [x])

end RunningMaxima
