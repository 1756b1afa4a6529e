import Mathlib.Data.List.NodupEquivFin
import Mathlib.Data.List.Sort

/-! Lists that are made of the items of another in its order, each taken once, or as often as one
likes before going on. -/

namespace Selections

variable {α : Type*} {again : Bool} {xs ys zs : List α}

def Follows (again : Bool) (i j : Nat) : Prop := if again then i ≤ j else i < j

theorem Follows.of_lt {i j : Nat} (h : i < j) : Follows again i j := by
  cases again
  · exact h
  · exact Nat.le_of_lt h

/-- `ys` has the items of `xs` at the positions in a list that goes on. -/
def Picks (again : Bool) (xs ys : List α) : Prop :=
  ∃ is : List Nat, is.Pairwise (Follows again) ∧ ys.map some = is.map (xs[·]?)

theorem Picks.nil : Picks again xs [] := ⟨[], List.Pairwise.nil, rfl⟩

theorem Picks.lt_length {is : List Nat} (h : ys.map some = is.map (xs[·]?)) :
    ∀ i ∈ is, i < xs.length := by
  intro i hi
  have hmem : xs[i]? ∈ ys.map some := h ▸ List.mem_map_of_mem hi
  obtain ⟨y, _, hy⟩ := List.mem_map.mp hmem
  exact (List.getElem?_eq_some_iff.mp hy.symm).1

theorem Picks.sublist (h : Picks again xs ys) (hsub : zs.Sublist ys) : Picks again xs zs := by
  obtain ⟨is, hpairs, hmap⟩ := h
  have hsome := hsub.map some
  rw [hmap, List.sublist_map_iff] at hsome
  obtain ⟨js, hjs, heq⟩ := hsome
  exact ⟨js, hpairs.sublist hjs, heq⟩

theorem Picks.of_sublist (h : Picks again xs ys) (hsub : xs.Sublist zs) : Picks again zs ys := by
  obtain ⟨is, hpairs, hmap⟩ := h
  obtain ⟨f, hf⟩ := List.sublist_iff_exists_orderEmbedding_getElem?_eq.mp hsub
  refine ⟨is.map f, ?_, ?_⟩
  · refine List.pairwise_map.mpr (hpairs.imp fun {i j} hij => ?_)
    cases again
    · exact f.strictMono hij
    · exact f.monotone hij
  · rw [hmap, List.map_map]
    exact List.map_congr_left fun i _ => hf i

/-- The next item is picked as soon as it is there. -/
theorem Picks.concat (h : Picks again xs ys) (x : α) : Picks again (xs ++ [x]) (ys ++ [x]) := by
  obtain ⟨is, hpairs, hmap⟩ := h
  have hlt := Picks.lt_length hmap
  refine ⟨is ++ [xs.length], ?_, ?_⟩
  · refine List.pairwise_append.mpr ⟨hpairs, List.pairwise_singleton _ _, fun i hi j hj => ?_⟩
    rw [List.mem_singleton.mp hj]
    exact Follows.of_lt (hlt i hi)
  · have hold : is.map (xs[·]?) = is.map ((xs ++ [x])[·]?) :=
      List.map_congr_left fun i hi => (List.getElem?_append_left (hlt i hi)).symm
    simp [hmap, hold]

/-- The last item is picked once more. -/
theorem Picks.last (h : Picks true xs ys) {x : α} (hx : xs.getLast? = some x) :
    Picks true xs (ys ++ [x]) := by
  obtain ⟨is, hpairs, hmap⟩ := h
  have hlt := Picks.lt_length hmap
  rw [List.getLast?_eq_getElem?] at hx
  refine ⟨is ++ [xs.length - 1], ?_, by simp [hmap, hx]⟩
  refine List.pairwise_append.mpr ⟨hpairs, List.pairwise_singleton _ _, fun i hi j hj => ?_⟩
  rw [List.mem_singleton.mp hj]
  exact Nat.le_sub_one_of_lt (hlt i hi)

end Selections
