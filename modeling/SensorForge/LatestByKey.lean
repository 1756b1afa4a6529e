import Mathlib

/-! Lists of keyed items: the last item of every key, in the order in which the keys first
appear, and an index of the keys' positions. -/

namespace LatestByKey

variable {α κ : Type*} {key : α → κ} {xs : List α} {x : α} {k : κ} {index : κ → Option Nat}
  {ks : List κ}

/-- Every key is mapped to its position, and nothing else to any. -/
def Indexes (index : κ → Option Nat) (ks : List κ) : Prop :=
  ∀ k i, index k = some i ↔ ks[i]? = some k

theorem Indexes.empty : Indexes (fun _ : κ => none) [] := by
  intro k i
  simp

theorem Indexes.eq_none_iff (h : Indexes index ks) : index k = none ↔ k ∉ ks := by
  rw [Option.eq_none_iff_forall_ne_some, List.mem_iff_getElem?]
  constructor
  · rintro hnone ⟨i, hi⟩
    exact hnone i ((h k i).mpr hi)
  · intro hmem i hi
    exact hmem ⟨i, (h k i).mp hi⟩

theorem getElem?_filterMap_of_isSome {β : Type*} {f : κ → Option β}
    (h : ∀ k ∈ ks, (f k).isSome) (i : Nat) : (ks.filterMap f)[i]? = ks[i]?.bind f := by
  induction ks generalizing i with
  | nil => rfl
  | cons k ks ih =>
    obtain ⟨y, hy⟩ := Option.isSome_iff_exists.mp (h k (by simp))
    rw [List.filterMap_cons, hy]
    cases i with
    | zero => simp [hy]
    | succ i => simpa using ih (fun k' hk' => h k' (by simp [hk'])) i

variable [DecidableEq κ]

theorem Indexes.concat (h : Indexes index ks) (hk : index k = none) :
    Indexes (Function.update index k (some ks.length)) (ks ++ [k]) := by
  have hmem := h.eq_none_iff.mp hk
  intro k' i
  by_cases hk' : k' = k
  · subst hk'
    rw [Function.update_self, Option.some.injEq]
    constructor
    · rintro rfl
      simp
    · intro hi
      by_contra hne
      rw [List.getElem?_append] at hi
      split at hi
      · exact hmem (List.mem_of_getElem? hi)
      · obtain ⟨hlt, _⟩ := List.getElem?_eq_some_iff.mp hi
        rw [List.length_singleton] at hlt
        omega
  · rw [Function.update_of_ne hk', h k' i]
    by_cases hi : i < ks.length
    · rw [List.getElem?_append_left hi]
    · rw [List.getElem?_append_right (by omega), List.getElem?_eq_none (by omega),
        List.getElem?_singleton]
      split
      · simp [Ne.symm hk']
      · simp

/-- The keys, each once. -/
def keys (key : α → κ) (xs : List α) : List κ := (xs.map key).eraseDups

def lastWith (key : α → κ) (k : κ) (xs : List α) : Option α :=
  xs.reverse.find? fun x => key x = k

def latest (key : α → κ) (xs : List α) : List α :=
  (keys key xs).filterMap fun k => lastWith key k xs

theorem keys_concat (key : α → κ) (xs : List α) (x : α) :
    keys key (xs ++ [x]) = if key x ∈ xs.map key then keys key xs else keys key xs ++ [key x] := by
  rw [keys, List.map_append, List.map_singleton, List.eraseDups_append]
  split
  · next h =>
    rw [List.removeAll, List.filter_cons_of_neg (by simpa using h), List.filter_nil,
      List.eraseDups_nil, List.append_nil, keys]
  · next h =>
    rw [List.removeAll, List.filter_cons_of_pos (by simpa using h), List.filter_nil, keys]
    rfl

theorem mem_keys : k ∈ keys key xs ↔ k ∈ xs.map key := by
  induction xs using List.reverseRecOn with
  | nil => simp [keys]
  | append_singleton xs x ih =>
    rw [keys_concat]
    split
    · next h =>
      rw [ih, List.map_append, List.mem_append, List.map_singleton, List.mem_singleton]
      constructor
      · exact Or.inl
      · rintro (hk | rfl)
        · exact hk
        · exact h
    · rw [List.mem_append, ih, List.map_append, List.mem_append, List.map_singleton]

theorem keys_nodup (key : α → κ) (xs : List α) : (keys key xs).Nodup := by
  induction xs using List.reverseRecOn with
  | nil => simp [keys]
  | append_singleton xs x ih =>
    rw [keys_concat]
    split
    · exact ih
    · next h =>
      rw [List.nodup_append]
      refine ⟨ih, List.nodup_singleton _, ?_⟩
      intro a ha b hb hab
      rw [List.mem_singleton.mp hb] at hab
      exact h (mem_keys.mp (hab ▸ ha))

theorem keys_concat_new (h : key x ∉ keys key xs) : keys key (xs ++ [x]) = keys key xs ++ [key x] := by
  rw [keys_concat, if_neg fun hx => h (mem_keys.mpr hx)]

theorem keys_concat_known (h : key x ∈ keys key xs) : keys key (xs ++ [x]) = keys key xs := by
  rw [keys_concat, if_pos (mem_keys.mp h)]

theorem lastWith_concat (key : α → κ) (k : κ) (xs : List α) (x : α) :
    lastWith key k (xs ++ [x]) = if key x = k then some x else lastWith key k xs := by
  rw [lastWith, List.reverse_append, List.reverse_singleton, List.singleton_append,
    List.find?_cons]
  split
  · next h => rw [if_pos (by simpa using h)]
  · next h => rw [if_neg (by simpa using h), lastWith]

theorem lastWith_of_mem (h : k ∈ keys key xs) : ∃ x, lastWith key k xs = some x ∧ key x = k := by
  obtain ⟨y, hy, rfl⟩ := List.mem_map.mp (mem_keys.mp h)
  cases hlast : lastWith key (key y) xs with
  | none =>
    have hnone := List.find?_eq_none.mp hlast y (List.mem_reverse.mpr hy)
    simp at hnone
  | some x => exact ⟨x, rfl, by simpa using List.find?_some hlast⟩

theorem getElem?_latest (key : α → κ) (xs : List α) (i : Nat) :
    (latest key xs)[i]? = (keys key xs)[i]?.bind fun k => lastWith key k xs := by
  apply getElem?_filterMap_of_isSome
  intro k hk
  obtain ⟨x, hx, _⟩ := lastWith_of_mem hk
  rw [hx]
  rfl

theorem map_latest (key : α → κ) (xs : List α) : (latest key xs).map key = keys key xs := by
  apply List.ext_getElem?
  intro i
  rw [List.getElem?_map, getElem?_latest]
  cases hk : (keys key xs)[i]? with
  | none => rfl
  | some k =>
    obtain ⟨x, hx, hkey⟩ := lastWith_of_mem (List.mem_of_getElem? hk)
    rw [Option.bind_some, hx, Option.map_some, hkey]

theorem length_latest (key : α → κ) (xs : List α) :
    (latest key xs).length = (keys key xs).length := by
  rw [← map_latest, List.length_map]

theorem latest_concat_new (h : key x ∉ keys key xs) :
    latest key (xs ++ [x]) = latest key xs ++ [x] := by
  rw [latest, keys_concat_new h, List.filterMap_append, latest]
  congr 1
  · apply List.filterMap_congr
    intro k hk
    rw [lastWith_concat, if_neg]
    rintro rfl
    exact h hk
  · simp [lastWith_concat]

theorem latest_concat_known {i : Nat} (h : (keys key xs)[i]? = some (key x)) :
    latest key (xs ++ [x]) = (latest key xs).set i x := by
  have hlt := (List.getElem?_eq_some_iff.mp h).1
  apply List.ext_getElem?
  intro j
  rw [getElem?_latest, keys_concat_known (List.mem_of_getElem? h), List.getElem?_set]
  split
  · next hij =>
    subst hij
    rw [h, Option.bind_some, lastWith_concat, if_pos rfl, length_latest, if_pos hlt]
  · next hij =>
    rw [getElem?_latest]
    cases hk : (keys key xs)[j]? with
    | none => rfl
    | some k =>
      rw [Option.bind_some, Option.bind_some, lastWith_concat, if_neg]
      rintro rfl
      obtain ⟨hj, hkj⟩ := List.getElem?_eq_some_iff.mp hk
      obtain ⟨hi, hki⟩ := List.getElem?_eq_some_iff.mp h
      exact hij ((keys_nodup key xs).getElem_inj_iff.mp (hki.trans hkj.symm))

end LatestByKey
