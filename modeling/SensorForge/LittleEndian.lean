import SensorForge.ByteOrder

/-! The little-endian accessors shared by the frame codec and the record codec,
as the sources write them: shifts, masks and ors on fixed-width integers. -/

namespace SensorForge

open ByteOrder

abbrev Bytes := List UInt8

def putU16 (v : UInt16) : Bytes :=
  [(v &&& 0xFF).toUInt8, ((v >>> 8) &&& 0xFF).toUInt8]

def putU32 (v : UInt32) : Bytes :=
  [(v &&& 0xFF).toUInt8, ((v >>> 8) &&& 0xFF).toUInt8,
    ((v >>> 16) &&& 0xFF).toUInt8, ((v >>> 24) &&& 0xFF).toUInt8]

def putU64 (v : UInt64) : Bytes :=
  (List.range 8).map fun i => ((v >>> (8 * i).toUInt64) &&& 0xFF).toUInt8

/-- A read through a pointer: `p` is what lies in the buffer from it on. -/
def getU16 (p : Bytes) : UInt16 :=
  (p.getD 0 0).toUInt16 ||| ((p.getD 1 0).toUInt16 <<< 8)

def getU32 (p : Bytes) : UInt32 :=
  (p.getD 0 0).toUInt32 ||| ((p.getD 1 0).toUInt32 <<< 8) |||
    ((p.getD 2 0).toUInt32 <<< 16) ||| ((p.getD 3 0).toUInt32 <<< 24)

def getU64 (p : Bytes) : UInt64 :=
  (List.range 8).foldl (fun v i => v ||| ((p.getD i 0).toUInt64 <<< (8 * i).toUInt64)) 0

theorem putU16_eq (v : UInt16) : putU16 v = toLE 2 v.toNat := by
  simp only [putU16, toLE, List.cons.injEq, and_true]
  refine ⟨?_, ?_⟩ <;> apply UInt8.toNat_inj.mp <;>
    simp [Nat.shiftRight_eq_div_pow, Nat.and_two_pow_sub_one_eq_mod _ 8]

theorem putU32_eq (v : UInt32) : putU32 v = toLE 4 v.toNat := by
  simp only [putU32, toLE, List.cons.injEq, and_true, Nat.div_div_eq_div_mul]
  refine ⟨?_, ?_, ?_, ?_⟩ <;> apply UInt8.toNat_inj.mp <;>
    simp [Nat.shiftRight_eq_div_pow, Nat.and_two_pow_sub_one_eq_mod _ 8]

theorem putU64_eq (v : UInt64) : putU64 v = toLE 8 v.toNat := by
  simp only [putU64, toLE, List.range, List.range.loop, List.map, List.cons.injEq, and_true,
    Nat.div_div_eq_div_mul]
  refine ⟨?_, ?_, ?_, ?_, ?_, ?_, ?_, ?_⟩ <;> apply UInt8.toNat_inj.mp <;>
    simp [Nat.shiftRight_eq_div_pow, Nat.and_two_pow_sub_one_eq_mod _ 8]

@[simp] theorem putU16_length (v : UInt16) : (putU16 v).length = 2 := rfl

@[simp] theorem putU32_length (v : UInt32) : (putU32 v).length = 4 := rfl

@[simp] theorem putU64_length (v : UInt64) : (putU64 v).length = 8 := rfl

@[simp] theorem drop_putU16 (v : UInt16) (rest : Bytes) (n : Nat) :
    (putU16 v ++ rest).drop (n + 2) = rest.drop n := by
  simp [putU16]

@[simp] theorem drop_putU32 (v : UInt32) (rest : Bytes) (n : Nat) :
    (putU32 v ++ rest).drop (n + 4) = rest.drop n := by
  simp [putU32]

@[simp] theorem drop_putU64 (v : UInt64) (rest : Bytes) (n : Nat) :
    (putU64 v ++ rest).drop (n + 8) = rest.drop n := by
  rw [Nat.add_comm, ← List.drop_drop, List.drop_left' (putU64_length v)]

theorem shiftLeft_mod (x : UInt8) {k w : Nat} (hk : k + 8 ≤ w) :
    x.toNat <<< k % 2 ^ w = x.toNat <<< k := by
  rw [Nat.shiftLeft_eq]
  apply Nat.mod_eq_of_lt
  calc x.toNat * 2 ^ k < 2 ^ 8 * 2 ^ k := Nat.mul_lt_mul_of_pos_right x.toNat_lt (by positivity)
    _ = 2 ^ (8 + k) := (Nat.pow_add 2 8 k).symm
    _ ≤ 2 ^ w := Nat.pow_le_pow_right (by omega) (by omega)

theorem getU16_append (a rest : Bytes) (h : a.length = 2) :
    (getU16 (a ++ rest)).toNat = ofLE a := by
  obtain ⟨a0, a1, rfl⟩ := List.length_eq_two.mp h
  have h0 := a0.toNat_lt
  simp only [getU16, List.cons_append, List.getD_cons_zero, List.getD_cons_succ,
    UInt16.toNat_or, UInt16.toNat_shiftLeft, UInt8.toNat_toUInt16, ofLE]
  change a0.toNat ||| a1.toNat <<< 8 % 2 ^ 16 = _
  rw [shiftLeft_mod a1 (by omega), or_shiftLeft_eq_add h0]
  ring

theorem getU32_append (a rest : Bytes) (h : a.length = 4) :
    (getU32 (a ++ rest)).toNat = ofLE a := by
  obtain ⟨a0, a1, a2, a3, rfl⟩ : ∃ a0 a1 a2 a3, a = [a0, a1, a2, a3] := by
    match a, h with
    | [a0, a1, a2, a3], _ => exact ⟨a0, a1, a2, a3, rfl⟩
  have h0 := a0.toNat_lt
  have h1 := a1.toNat_lt
  have h2 := a2.toNat_lt
  simp only [getU32, List.cons_append, List.getD_cons_zero, List.getD_cons_succ,
    UInt32.toNat_or, UInt32.toNat_shiftLeft, UInt8.toNat_toUInt32, ofLE]
  change a0.toNat ||| a1.toNat <<< 8 % 2 ^ 32 ||| a2.toNat <<< 16 % 2 ^ 32 |||
    a3.toNat <<< 24 % 2 ^ 32 = _
  rw [shiftLeft_mod a1 (by omega), shiftLeft_mod a2 (by omega), shiftLeft_mod a3 (by omega),
    or_shiftLeft_eq_add h0,
    or_shiftLeft_eq_add (by omega : a0.toNat + 2 ^ 8 * a1.toNat < 2 ^ 16),
    or_shiftLeft_eq_add (by omega : a0.toNat + 2 ^ 8 * a1.toNat + 2 ^ 16 * a2.toNat < 2 ^ 24)]
  ring

theorem getU64_loop (p : Bytes) {k : Nat} (hk : k ≤ 8) (hl : k ≤ p.length) :
    ((List.range k).foldl
      (fun v i => v ||| ((p.getD i 0).toUInt64 <<< (8 * i).toUInt64)) 0).toNat =
      ofLE (p.take k) := by
  induction k with
  | zero => simp [ofLE]
  | succ k ih =>
    have hlt : k < p.length := by omega
    have hacc : ofLE (p.take k) < 2 ^ (8 * k) := by
      have hh := ofLE_lt (p.take k)
      rwa [List.length_take, Nat.min_eq_left (by omega),
        show (256 : Nat) ^ k = 2 ^ (8 * k) by rw [Nat.pow_mul]] at hh
    have hshift : ((8 * k).toUInt64.toNat) % 64 = 8 * k := by
      simp only [Nat.toUInt64, UInt64.toNat_ofNat']
      omega
    have hs : (p[k]).toNat <<< (8 * k) % 2 ^ 64 = (p[k]).toNat <<< (8 * k) :=
      shiftLeft_mod _ (by omega)
    have hget : p.getD k 0 = p[k] := by simp [hlt]
    rw [List.range_succ, List.foldl_append, List.foldl_cons, List.foldl_nil, UInt64.toNat_or,
      ih (by omega) (by omega), UInt64.toNat_shiftLeft, hget, UInt8.toNat_toUInt64, hshift, hs,
      or_shiftLeft_eq_add hacc, List.take_succ_eq_append_getElem hlt, ofLE_append,
      List.length_take, Nat.min_eq_left (by omega), show (256 : Nat) ^ k = 2 ^ (8 * k) by
        rw [Nat.pow_mul]]
    simp [ofLE]

theorem getU64_append (a rest : Bytes) (h : a.length = 8) :
    (getU64 (a ++ rest)).toNat = ofLE a := by
  have hh := getU64_loop (a ++ rest) (Nat.le_refl 8) (by simp [h])
  rwa [List.take_left' h] at hh

@[simp] theorem getU16_putU16 (v : UInt16) (rest : Bytes) : getU16 (putU16 v ++ rest) = v := by
  apply UInt16.toNat_inj.mp
  rw [getU16_append _ _ rfl, putU16_eq, ofLE_toLE_of_lt v.toNat_lt]

@[simp] theorem getU32_putU32 (v : UInt32) (rest : Bytes) : getU32 (putU32 v ++ rest) = v := by
  apply UInt32.toNat_inj.mp
  rw [getU32_append _ _ rfl, putU32_eq, ofLE_toLE_of_lt v.toNat_lt]

@[simp] theorem getU64_putU64 (v : UInt64) (rest : Bytes) : getU64 (putU64 v ++ rest) = v := by
  apply UInt64.toNat_inj.mp
  rw [getU64_append _ _ rfl, putU64_eq, ofLE_toLE_of_lt v.toNat_lt]

theorem field_split (data : Bytes) {off k next : Nat} (hn : off + k = next)
    (h : next ≤ data.length) :
    ∃ field, field.length = k ∧ data.drop off = field ++ data.drop next := by
  subst hn
  refine ⟨(data.drop off).take k, ?_, ?_⟩
  · rw [List.length_take, List.length_drop]
    omega
  · rw [← List.drop_drop, List.take_append_drop]

theorem putU16_getU16 (data : Bytes) {off next : Nat} (hn : off + 2 = next)
    (h : next ≤ data.length) :
    putU16 (getU16 (data.drop off)) ++ data.drop next = data.drop off := by
  obtain ⟨field, hl, hs⟩ := field_split data hn h
  have hfield := toLE_ofLE field
  rw [hl] at hfield
  rw [hs, putU16_eq, getU16_append _ _ hl, hfield]

theorem putU32_getU32 (data : Bytes) {off next : Nat} (hn : off + 4 = next)
    (h : next ≤ data.length) :
    putU32 (getU32 (data.drop off)) ++ data.drop next = data.drop off := by
  obtain ⟨field, hl, hs⟩ := field_split data hn h
  have hfield := toLE_ofLE field
  rw [hl] at hfield
  rw [hs, putU32_eq, getU32_append _ _ hl, hfield]

theorem putU64_getU64 (data : Bytes) {off next : Nat} (hn : off + 8 = next)
    (h : next ≤ data.length) :
    putU64 (getU64 (data.drop off)) ++ data.drop next = data.drop off := by
  obtain ⟨field, hl, hs⟩ := field_split data hn h
  have hfield := toLE_ofLE field
  rw [hl] at hfield
  rw [hs, putU64_eq, getU64_append _ _ hl, hfield]

end SensorForge
