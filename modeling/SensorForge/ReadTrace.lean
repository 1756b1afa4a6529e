import Mathlib.Data.List.Basic
import Mathlib.Tactic.Common

/-! Computations that read a buffer through indices. Each carries the indices that it
has read, so that a bound on all of them can be stated and composed. -/

namespace ReadTrace

universe u

structure Reads (α : Type u) where
  value : α
  indices : List Nat

instance : Monad Reads where
  pure x := ⟨x, []⟩
  bind r f := ⟨(f r.value).value, r.indices ++ (f r.value).indices⟩

namespace Reads

variable {α β : Type u}

/-- The result together with the fact that it is the result. -/
def attach (r : Reads α) : Reads { x : α // x = r.value } := ⟨⟨r.value, rfl⟩, r.indices⟩

/-- No index that is read reaches `n`. -/
def Within (r : Reads α) (n : Nat) : Prop := ∀ i ∈ r.indices, i < n

@[simp] theorem value_pure (x : α) : (pure x : Reads α).value = x := rfl

@[simp] theorem value_bind (r : Reads α) (f : α → Reads β) :
    (r >>= f).value = (f r.value).value := rfl

@[simp] theorem value_attach (r : Reads α) : r.attach.value = ⟨r.value, rfl⟩ := rfl

theorem value_ite (c : Prop) [Decidable c] (r s : Reads α) :
    (if c then r else s).value = if c then r.value else s.value :=
  apply_ite value c r s

@[simp] theorem within_pure (x : α) (n : Nat) : (pure x : Reads α).Within n := by
  intro i hi
  cases hi

@[simp] theorem within_bind (r : Reads α) (f : α → Reads β) (n : Nat) :
    (r >>= f).Within n ↔ r.Within n ∧ (f r.value).Within n := by
  change (∀ i ∈ r.indices ++ (f r.value).indices, i < n) ↔ _
  simp only [List.mem_append, or_imp, forall_and]
  rfl

@[simp] theorem within_attach (r : Reads α) (n : Nat) : r.attach.Within n ↔ r.Within n := Iff.rfl

theorem within_then {r : Reads α} {f : α → Reads β} {n : Nat} (hr : r.Within n)
    (hf : (f r.value).Within n) : (r >>= f).Within n :=
  (within_bind r f n).mpr ⟨hr, hf⟩

/-- An early return reads nothing. -/
theorem within_else {c : Prop} [Decidable c] {x : α} {r : Reads α} {n : Nat}
    (h : ¬ c → r.Within n) : (if c then pure x else r).Within n := by
  by_cases hc : c
  · rw [if_pos hc]
    exact within_pure x n
  · rw [if_neg hc]
    exact h hc

end Reads

def slice {α : Type u} (buf : List α) (start len : Nat) : List α := (buf.drop start).take len

def readAt {α : Type u} [Inhabited α] (buf : List α) (i : Nat) : Reads α :=
  ⟨buf.getD i default, [i]⟩

/-- A block copy. -/
def readRange {α : Type u} (buf : List α) (start len : Nat) : Reads (List α) :=
  ⟨slice buf start len, (List.range len).map (start + ·)⟩

section

variable {α β : Type u} (buf : List α)

theorem slice_add (start m n : Nat) :
    slice buf start (m + n) = slice buf start m ++ slice buf (start + m) n := by
  rw [slice, List.take_add, List.drop_drop]
  rfl

@[simp] theorem slice_length {start len : Nat} (h : start + len ≤ buf.length) :
    (slice buf start len).length = len := by
  rw [slice, List.length_take, List.length_drop]
  omega

theorem readRange_within {start len n : Nat} (h : start + len ≤ n) :
    (readRange buf start len).Within n := by
  intro i hi
  obtain ⟨k, hk, rfl⟩ := List.mem_map.mp hi
  have := List.mem_range.mp hk
  omega

variable [Inhabited α]

@[simp] theorem readAt_within (i n : Nat) : (readAt buf i).Within n ↔ i < n := by
  simp [Reads.Within, readAt]

/-- `for (; i < len; ++i) acc = step(acc, data[i])` through a pointer `data` into the
buffer. -/
def readLoop (step : β → α → β) (data len i : Nat) (acc : β) : Reads β :=
  if _h : i < len then do
    let x ← readAt buf (data + i)
    readLoop step data len (i + 1) (step acc x)
  else pure acc
termination_by len - i

omit [Inhabited α] in
theorem getD_of_lt {i : Nat} (h : i < buf.length) (d : α) : buf.getD i d = buf[i] := by
  rw [List.getD_eq_getElem?_getD, List.getElem?_eq_getElem h, Option.getD_some]

theorem slice_cons {start len : Nat} (h : start < buf.length) :
    slice buf start (len + 1) = buf.getD start default :: slice buf (start + 1) len := by
  rw [slice, slice, List.drop_eq_getElem_cons h, List.take_succ_cons, getD_of_lt buf h]

theorem readLoop_value (step : β → α → β) {data len i : Nat} (h : data + len ≤ buf.length)
    (acc : β) :
    (readLoop buf step data len i acc).value =
      (slice buf (data + i) (len - i)).foldl step acc := by
  fun_induction readLoop buf step data len i acc with
  | case1 i acc hlt ih =>
    have hlen : len - i = len - (i + 1) + 1 := by omega
    rw [hlen, slice_cons buf (by omega), List.foldl_cons]
    exact ih _
  | case2 i acc hge =>
    have hlen : len - i = 0 := by omega
    rw [hlen]
    rfl

theorem readLoop_within (step : β → α → β) {data len i n : Nat} (h : data + len ≤ n) (acc : β) :
    (readLoop buf step data len i acc).Within n := by
  fun_induction readLoop buf step data len i acc with
  | case1 i acc hlt ih =>
    rw [Reads.within_bind, readAt_within]
    exact ⟨by omega, ih _⟩
  | case2 i acc hge => exact Reads.within_pure acc n

end

end ReadTrace
