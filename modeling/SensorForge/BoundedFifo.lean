import Mathlib

/-! Queues of bounded length, oldest item first. -/

structure BoundedFifo (T : Type*) (bound : Nat) where
  items : List T
  length_le : items.length ≤ bound

namespace BoundedFifo

variable {T : Type*} {bound : Nat} {q q' : BoundedFifo T bound} {x : T}

def empty : BoundedFifo T bound := ⟨[], Nat.zero_le _⟩

def push (q : BoundedFifo T bound) (x : T) : Option (BoundedFifo T bound) :=
  if h : q.items.length < bound then some ⟨q.items ++ [x], by simpa using h⟩ else none

def pop (q : BoundedFifo T bound) : Option (T × BoundedFifo T bound) :=
  match q with
  | ⟨[], _⟩ => none
  | ⟨x :: xs, h⟩ => some (x, ⟨xs, (Nat.le_succ _).trans h⟩)

/-- The oldest item goes when there is no room. -/
def pushOverwrite [NeZero bound] (q : BoundedFifo T bound) (x : T) : BoundedFifo T bound :=
  if h : q.items.length < bound then ⟨q.items ++ [x], by simpa using h⟩
  else ⟨q.items.tail ++ [x], by
    have hle := q.length_le
    have hpos := NeZero.pos bound
    rw [List.length_append, List.length_tail, List.length_singleton]
    omega⟩

def map {U : Type*} (f : T → U) (q : BoundedFifo T bound) : BoundedFifo U bound :=
  ⟨q.items.map f, by simpa using q.length_le⟩

theorem ext_items (h : q.items = q'.items) : q = q' := by
  cases q
  cases q'
  simpa using h

@[simp] theorem empty_items : (empty : BoundedFifo T bound).items = [] := rfl

theorem push_eq_some_iff : q.push x = some q' ↔
    q.items.length < bound ∧ q'.items = q.items ++ [x] := by
  unfold push
  split
  · next h =>
    rw [Option.some.injEq]
    constructor
    · rintro rfl
      exact ⟨h, rfl⟩
    · rintro ⟨_, hitems⟩
      exact ext_items hitems.symm
  · next h => simp [h]

theorem push_eq_none_iff : q.push x = none ↔ q.items.length = bound := by
  have hle := q.length_le
  unfold push
  split
  · next h =>
    simp only [reduceCtorEq, false_iff]
    omega
  · next h =>
    simp only [true_iff]
    omega

theorem pop_eq_some_iff : q.pop = some (x, q') ↔ q.items = x :: q'.items := by
  obtain ⟨items, h⟩ := q
  obtain ⟨items', h'⟩ := q'
  cases items with
  | nil => simp [pop]
  | cons y ys => simp [pop]

theorem pop_eq_none_iff : q.pop = none ↔ q.items = [] := by
  obtain ⟨items, h⟩ := q
  cases items <;> simp [pop]

theorem pushOverwrite_of_push [NeZero bound] (h : q.push x = some q') :
    q.pushOverwrite x = q' := by
  unfold push at h
  unfold pushOverwrite
  split at h
  · next hlt =>
    rw [dif_pos hlt]
    exact Option.some.inj h
  · cases h

theorem pushOverwrite_items [NeZero bound] (h : q.items.length = bound) :
    (q.pushOverwrite x).items = q.items.tail ++ [x] := by
  rw [pushOverwrite, dif_neg (by omega)]

section map

variable {U : Type*} {f : T → U}

@[simp] theorem map_items (f : T → U) (q : BoundedFifo T bound) :
    (q.map f).items = q.items.map f := rfl

theorem push_map (f : T → U) (q : BoundedFifo T bound) (x : T) :
    (q.map f).push (f x) = (q.push x).map (map f) := by
  cases hq : q.push x with
  | some q' =>
    obtain ⟨hlt, hitems⟩ := push_eq_some_iff.mp hq
    exact push_eq_some_iff.mpr ⟨by simpa using hlt, by simp [hitems]⟩
  | none => exact push_eq_none_iff.mpr (by simpa using push_eq_none_iff.mp hq)

theorem pop_map (f : T → U) (q : BoundedFifo T bound) :
    (q.map f).pop = q.pop.map (Prod.map f (map f)) := by
  cases hq : q.pop with
  | some x => exact pop_eq_some_iff.mpr (by simp [pop_eq_some_iff.mp hq])
  | none => exact pop_eq_none_iff.mpr (by simp [pop_eq_none_iff.mp hq])

theorem pushOverwrite_map [NeZero bound] (f : T → U) (q : BoundedFifo T bound) (x : T)
    (h : q.items.length = bound) : (q.map f).pushOverwrite (f x) = (q.pushOverwrite x).map f :=
  ext_items (by rw [pushOverwrite_items (by simpa using h)]; simp [pushOverwrite_items h])

end map

end BoundedFifo
