import Mathlib

/-! The ring buffer and the atomic steps of its push and pop. Indices are below the
capacity by masking; absolute positions count items from the start of a run. -/

namespace SensorForge.Core

/-- What the class asserts of its capacity. -/
structure Capacity where
  size : Nat
  size_t : size < 2 ^ 64
  two_le : 2 ≤ size
  pow_two : size &&& (size - 1) = 0

def Capacity.kMask (C : Capacity) : Nat := C.size - 1

theorem Capacity.size_eq_two_pow (C : Capacity) : ∃ k, C.size = 2 ^ k := by
  have hne : C.size ≠ 0 := by
    have := C.two_le
    omega
  exact (Nat.ne_zero_and_sub_one_eq_zero_iff_isPowerOfTwo (n := C.size)).mp ⟨hne, C.pow_two⟩

theorem Capacity.and_kMask (C : Capacity) (n : Nat) : n &&& C.kMask = n % C.size := by
  obtain ⟨k, hk⟩ := C.size_eq_two_pow
  rw [Capacity.kMask, hk, Nat.and_two_pow_sub_one_eq_mod]

theorem Capacity.size_dvd (C : Capacity) : C.size ∣ 2 ^ 64 := by
  obtain ⟨k, hk⟩ := C.size_eq_two_pow
  have hlt := C.size_t
  rw [hk] at hlt ⊢
  exact Nat.pow_dvd_pow 2 (le_of_lt ((Nat.pow_lt_pow_iff_right (by omega)).mp hlt))

variable {T : Type*} {C : Capacity}

def Capacity.slot (C : Capacity) (n : Nat) : Fin C.size :=
  ⟨n &&& C.kMask, by
    rw [C.and_kMask]
    exact Nat.mod_lt n (lt_of_lt_of_le two_pos C.two_le)⟩

def Capacity.next (C : Capacity) (i : Fin C.size) : Fin C.size := C.slot (i + 1)

theorem Capacity.slot_val (C : Capacity) (n : Nat) : (C.slot n).val = n % C.size := C.and_kMask n

theorem Capacity.next_slot (C : Capacity) (n : Nat) : C.next (C.slot n) = C.slot (n + 1) := by
  apply Fin.ext
  rw [Capacity.next, C.slot_val, C.slot_val, C.slot_val, Nat.mod_add_mod]

theorem Capacity.slot_eq_iff {a b : Nat} (hab : a ≤ b) (hb : b < a + C.size) :
    C.slot a = C.slot b ↔ a = b := by
  rw [Fin.ext_iff, C.slot_val, C.slot_val]
  constructor
  · intro h
    have hd : (b - a) % C.size = 0 := by
      have := Nat.sub_mod_eq_zero_of_mod_eq h.symm
      exact this
    rw [Nat.mod_eq_of_lt (by omega)] at hd
    omega
  · rintro rfl
    rfl

theorem Capacity.slot_add_size (C : Capacity) (n : Nat) : C.slot (n + C.size) = C.slot n := by
  apply Fin.ext
  rw [C.slot_val, C.slot_val, Nat.add_mod_right]

structure SPSCRing (T : Type*) (C : Capacity) where
  head : Fin C.size
  tail : Fin C.size
  buffer : Fin C.size → T

def SPSCRing.create [Inhabited T] : SPSCRing T C :=
  { head := C.slot 0, tail := C.slot 0, buffer := fun _ => default }

def SPSCRing.sizeApprox (ring : SPSCRing T C) : Nat :=
  (ring.head + 2 ^ 64 - ring.tail) % 2 ^ 64 &&& C.kMask

def SPSCRing.items (ring : SPSCRing T C) : List T :=
  (List.range ring.sizeApprox).map fun i => ring.buffer (C.slot (ring.tail + i))

/-- Where a call of `try_push` stands: what it does next, and what it has loaded. -/
inductive PushPc (T : Type*) (C : Capacity) where
  | loadHead (item : T)
  | loadTail (item : T) (head : Fin C.size)
  | writeSlot (item : T) (head : Fin C.size)
  | storeHead (item : T) (head : Fin C.size)

def PushPc.item : PushPc T C → T
  | .loadHead item => item
  | .loadTail item _ => item
  | .writeSlot item _ => item
  | .storeHead item _ => item

def PushPc.step (ring : SPSCRing T C) : PushPc T C → SPSCRing T C × (PushPc T C ⊕ Bool)
  | .loadHead item => (ring, .inl (.loadTail item ring.head))
  | .loadTail item head =>
    if C.next head = ring.tail then (ring, .inr false) else (ring, .inl (.writeSlot item head))
  | .writeSlot item head =>
    ({ ring with buffer := Function.update ring.buffer head item }, .inl (.storeHead item head))
  | .storeHead _ head => ({ ring with head := C.next head }, .inr true)

inductive PopPc (T : Type*) (C : Capacity) where
  | loadTail
  | loadHead (tail : Fin C.size)
  | readSlot (tail : Fin C.size)
  | storeTail (tail : Fin C.size) (out : T)

/-- One step of `try_pop`. Moving an item out of its slot leaves `movedFrom` of it. -/
def PopPc.step (movedFrom : T → T) (ring : SPSCRing T C) :
    PopPc T C → SPSCRing T C × (PopPc T C ⊕ Option T)
  | .loadTail => (ring, .inl (.loadHead ring.tail))
  | .loadHead tail =>
    if tail = ring.head then (ring, .inr none) else (ring, .inl (.readSlot tail))
  | .readSlot tail =>
    ({ ring with buffer := Function.update ring.buffer tail (movedFrom (ring.buffer tail)) },
      .inl (.storeTail tail (ring.buffer tail)))
  | .storeTail tail out => ({ ring with tail := C.next tail }, .inr (some out))

/-- The ring in absolute terms: `taken` of the `pushed` items have left it, and the
slots from position `live` on hold theirs. -/
structure SPSCRing.Holds (ring : SPSCRing T C) (pushed : List T) (taken live : Nat) : Prop where
  head : ring.head = C.slot pushed.length
  tail : ring.tail = C.slot taken
  le : taken ≤ pushed.length
  lt : pushed.length < taken + C.size
  slots : ∀ i x, live ≤ i → pushed[i]? = some x → ring.buffer (C.slot i) = x

section Holds

variable {ring : SPSCRing T C} {pushed : List T} {taken live : Nat}

theorem SPSCRing.create_holds [Inhabited T] : (SPSCRing.create : SPSCRing T C).Holds [] 0 0 :=
  ⟨rfl, rfl, le_refl _, by have := C.two_le; simp; omega, by simp⟩

theorem SPSCRing.Holds.full_iff (h : ring.Holds pushed taken live) :
    C.next ring.head = ring.tail ↔ pushed.length + 1 = taken + C.size := by
  have hle := h.le
  have hlt := h.lt
  rw [h.head, h.tail, C.next_slot]
  constructor
  · intro heq
    by_contra hne
    have := (Capacity.slot_eq_iff (C := C) (a := taken) (b := pushed.length + 1) (by omega)
      (by omega)).mp heq.symm
    omega
  · intro heq
    rw [heq, C.slot_add_size]

theorem SPSCRing.Holds.empty_iff (h : ring.Holds pushed taken live) :
    ring.tail = ring.head ↔ taken = pushed.length := by
  rw [h.head, h.tail]
  exact Capacity.slot_eq_iff h.le h.lt

theorem SPSCRing.Holds.head_ne_slot (h : ring.Holds pushed taken live) {i : Nat}
    (hi : taken ≤ i) (hlt : i < pushed.length) : C.slot i ≠ ring.head := by
  have hroom := h.lt
  rw [h.head, Ne, Capacity.slot_eq_iff (by omega) (by omega)]
  omega

theorem SPSCRing.Holds.write (h : ring.Holds pushed taken live) (hlive : taken ≤ live) (item : T) :
    SPSCRing.Holds { ring with buffer := Function.update ring.buffer ring.head item }
      pushed taken live := by
  refine ⟨h.head, h.tail, h.le, h.lt, ?_⟩
  intro i x hi hx
  have hlt : i < pushed.length := (List.getElem?_eq_some_iff.mp hx).1
  have hne := h.head_ne_slot (hlive.trans hi) hlt
  simp only [Function.update_of_ne hne]
  exact h.slots i x hi hx

theorem SPSCRing.Holds.publish (h : ring.Holds pushed taken live)
    (hroom : pushed.length + 1 < taken + C.size) :
    SPSCRing.Holds { ring with head := C.next ring.head } (pushed ++ [ring.buffer ring.head])
      taken live := by
  have hle := h.le
  refine ⟨?_, h.tail, ?_, ?_, ?_⟩
  · simp only [h.head, C.next_slot, List.length_append, List.length_singleton]
  · rw [List.length_append]
    omega
  · rw [List.length_append, List.length_singleton]
    exact hroom
  · intro i x hi hx
    by_cases hlt : i < pushed.length
    · rw [List.getElem?_append_left hlt] at hx
      exact h.slots i x hi hx
    · rw [List.getElem?_append_right (by omega), List.getElem?_singleton] at hx
      split at hx
      · next heq =>
        have hi' : i = pushed.length := by omega
        rw [hi', ← h.head]
        exact Option.some.inj hx
      · cases hx

theorem SPSCRing.Holds.oldest (h : ring.Holds pushed taken taken) (hlt : taken < pushed.length) :
    pushed[taken]? = some (ring.buffer ring.tail) := by
  have hx := List.getElem?_eq_getElem hlt
  rw [hx, h.tail, h.slots taken _ (le_refl _) hx]

theorem SPSCRing.Holds.read (h : ring.Holds pushed taken taken) (y : T) :
    SPSCRing.Holds { ring with buffer := Function.update ring.buffer ring.tail y }
      pushed taken (taken + 1) := by
  refine ⟨h.head, h.tail, h.le, h.lt, ?_⟩
  intro i x hi hx
  have hlt : i < pushed.length := (List.getElem?_eq_some_iff.mp hx).1
  have hroom := h.lt
  have hne : C.slot i ≠ ring.tail := by
    rw [h.tail, ne_comm, Ne, Capacity.slot_eq_iff (by omega) (by omega)]
    omega
  simp only [Function.update_of_ne hne]
  exact h.slots i x (by omega) hx

theorem SPSCRing.Holds.release (h : ring.Holds pushed taken live) (hlt : taken < pushed.length)
    (hlive : live ≤ taken + 1) :
    SPSCRing.Holds { ring with tail := C.next ring.tail } pushed (taken + 1) (taken + 1) := by
  have hroom := h.lt
  refine ⟨h.head, ?_, hlt, by omega, ?_⟩
  · simp only [h.tail, C.next_slot]
  · intro i x hi hx
    exact h.slots i x (hlive.trans hi) hx

theorem SPSCRing.Holds.sizeApprox (h : ring.Holds pushed taken live) :
    ring.sizeApprox = pushed.length - taken := by
  have hle := h.le
  have hlt := h.lt
  have hhead : ring.head.val = pushed.length % C.size := by rw [h.head, C.slot_val]
  have htail : ring.tail.val = taken % C.size := by rw [h.tail, C.slot_val]
  have hbound : ring.tail.val < 2 ^ 64 := ring.tail.isLt.trans C.size_t
  rw [SPSCRing.sizeApprox, C.and_kMask, Nat.mod_mod_of_dvd _ C.size_dvd]
  have hwrap : ring.head.val + 2 ^ 64 - ring.tail.val + ring.tail.val = ring.head.val + 2 ^ 64 := by
    omega
  have hsum : (ring.head.val + 2 ^ 64 - ring.tail.val) + taken ≡
      (pushed.length - taken) + taken [MOD C.size] := by
    calc (ring.head.val + 2 ^ 64 - ring.tail.val) + taken
        ≡ (ring.head.val + 2 ^ 64 - ring.tail.val) + ring.tail.val [MOD C.size] := by
          rw [htail]
          exact Nat.ModEq.add_left _ (Nat.mod_modEq _ _).symm
      _ = ring.head.val + 2 ^ 64 := hwrap
      _ ≡ ring.head.val + 0 [MOD C.size] :=
          Nat.ModEq.add_left _ ((Nat.modEq_zero_iff_dvd).mpr C.size_dvd)
      _ ≡ pushed.length [MOD C.size] := by
          rw [hhead]
          exact Nat.mod_modEq _ _
      _ = (pushed.length - taken) + taken := by omega
  have hmod := Nat.ModEq.add_right_cancel' taken hsum
  rw [hmod, Nat.mod_eq_of_lt (by omega)]

theorem SPSCRing.Holds.slot_tail (h : ring.Holds pushed taken live) (i : Nat) :
    C.slot (ring.tail + i) = C.slot (taken + i) := by
  apply Fin.ext
  rw [h.tail, C.slot_val, C.slot_val, C.slot_val, Nat.mod_add_mod]

theorem SPSCRing.Holds.drop_items (h : ring.Holds pushed taken live) (hlive : taken ≤ live) :
    ring.items.drop (live - taken) = pushed.drop live := by
  apply List.ext_getElem?
  intro i
  rw [List.getElem?_drop, List.getElem?_drop, SPSCRing.items, h.sizeApprox, List.getElem?_map]
  by_cases hlt : live + i < pushed.length
  · have hx := List.getElem?_eq_getElem hlt
    rw [List.getElem?_range (by omega), hx, Option.map_some, h.slot_tail,
      show taken + (live - taken + i) = live + i by omega, h.slots _ _ (by omega) hx]
  · have hle := h.le
    rw [List.getElem?_eq_none (by simp; omega), List.getElem?_eq_none (by omega), Option.map_none]

end Holds

end SensorForge.Core
