import SensorForge.ByteOrder

/-! The reflected CRC register over any polynomial with its top bit set. One bit
step is a linear bijection of the register, so a register run is injective in its
start and in every block no wider than the register. -/

namespace Crc

open ByteOrder

variable {w : Nat}

def bitStep (poly r : BitVec w) : BitVec w :=
  if r.getLsbD 0 then (r >>> 1) ^^^ poly else r >>> 1

def bitSteps (poly : BitVec w) : Nat → BitVec w → BitVec w
  | 0, r => r
  | n + 1, r => bitSteps poly n (bitStep poly r)

def byteStep (poly r : BitVec w) (b : UInt8) : BitVec w :=
  bitSteps poly 8 (r ^^^ BitVec.ofNat w b.toNat)

def feed (poly : BitVec w) (r : BitVec w) (bs : List UInt8) : BitVec w :=
  bs.foldl (byteStep poly) r

theorem bitStep_xor (poly a b : BitVec w) :
    bitStep poly (a ^^^ b) = bitStep poly a ^^^ bitStep poly b := by
  unfold bitStep
  simp only [BitVec.getLsbD_xor, BitVec.ushiftRight_xor_distrib]
  cases ha : a.getLsbD 0 <;> cases hb : b.getLsbD 0 <;> simp
  · ac_rfl
  · ac_rfl
  · ext i
    simp only [BitVec.getElem_xor]
    cases (a >>> 1)[i] <;> cases (b >>> 1)[i] <;> cases poly[i] <;> rfl

theorem bitSteps_xor (poly : BitVec w) (n : Nat) (a b : BitVec w) :
    bitSteps poly n (a ^^^ b) = bitSteps poly n a ^^^ bitSteps poly n b := by
  induction n generalizing a b with
  | zero => rfl
  | succ n ih => simp only [bitSteps, bitStep_xor, ih]

theorem bitSteps_add (poly : BitVec w) (m n : Nat) (r : BitVec w) :
    bitSteps poly (m + n) r = bitSteps poly n (bitSteps poly m r) := by
  induction m generalizing r with
  | zero => simp [bitSteps]
  | succ m ih =>
    rw [Nat.succ_add]
    exact ih (bitStep poly r)

theorem bitStep_eq_zero {poly : BitVec w} (hp : poly.msb = true) {r : BitVec w}
    (h : bitStep poly r = 0#w) : r = 0#w := by
  unfold bitStep at h
  split at h
  · rename_i hlow
    have hm := congrArg BitVec.msb h
    have hw : 0 < w := by
      rcases Nat.eq_zero_or_pos w with rfl | hw
      · simp [BitVec.eq_nil poly] at hp
      · exact hw
    simp [BitVec.msb_xor, BitVec.msb_ushiftRight, hp] at hm
  · rename_i hlow
    apply BitVec.eq_of_getLsbD_eq
    intro i hi
    cases i with
    | zero => simpa using hlow
    | succ i =>
      have hh := congrArg (fun x : BitVec w => x.getLsbD i) h
      simpa [BitVec.getLsbD_ushiftRight, Nat.add_comm 1 i] using hh

theorem bitStep_injective {poly : BitVec w} (hp : poly.msb = true) :
    Function.Injective (bitStep poly) := by
  intro a b h
  have hz : bitStep poly (a ^^^ b) = 0#w := by rw [bitStep_xor, h, BitVec.xor_self]
  exact BitVec.xor_eq_zero_iff.mp (bitStep_eq_zero hp hz)

theorem bitSteps_injective {poly : BitVec w} (hp : poly.msb = true) (n : Nat) :
    Function.Injective (bitSteps poly n) := by
  induction n with
  | zero => exact fun _ _ h => h
  | succ n ih => exact ih.comp (bitStep_injective hp)

theorem bitSteps_mul_two_pow (poly : BitVec w) {n x : Nat} (h : x * 2 ^ n < 2 ^ w) :
    bitSteps poly n (BitVec.ofNat w (x * 2 ^ n)) = BitVec.ofNat w x := by
  induction n with
  | zero => simp [bitSteps]
  | succ n ih =>
    have hx : x * 2 ^ (n + 1) = 2 * (x * 2 ^ n) := by ring
    have hlt : x * 2 ^ n < 2 ^ w := by omega
    have hstep : bitStep poly (BitVec.ofNat w (x * 2 ^ (n + 1))) = BitVec.ofNat w (x * 2 ^ n) := by
      have hlow : (BitVec.ofNat w (x * 2 ^ (n + 1))).getLsbD 0 = false := by
        simp [BitVec.getLsbD_ofNat, hx]
      apply BitVec.eq_of_toNat_eq
      simp only [bitStep, hlow, Bool.false_eq_true, if_false, BitVec.toNat_ushiftRight,
        BitVec.toNat_ofNat, Nat.mod_eq_of_lt h, Nat.mod_eq_of_lt hlt, Nat.shiftRight_eq_div_pow]
      omega
    rw [bitSteps, hstep, ih hlt]

theorem ofNat_add_mul_two_pow {a k : Nat} (h : a < 2 ^ k) (b : Nat) :
    BitVec.ofNat w (a + 2 ^ k * b) = BitVec.ofNat w a ^^^ BitVec.ofNat w (b * 2 ^ k) := by
  have hx : a + 2 ^ k * b = a ^^^ (b * 2 ^ k) := by
    apply Nat.eq_of_testBit_eq
    intro i
    rw [Nat.add_comm, Nat.testBit_two_pow_mul_add b h, Nat.testBit_xor, Nat.testBit_mul_two_pow]
    by_cases hi : i < k
    · simp [hi, Nat.not_le.mpr hi]
    · have ha : a.testBit i = false :=
        Nat.testBit_eq_false_of_lt (h.trans_le (Nat.pow_le_pow_right (by omega) (by omega)))
      simp [hi, ha, Nat.not_lt.mp hi]
  rw [hx, BitVec.ofNat_xor]

theorem bitSteps_split (poly : BitVec w) (k : Nat) (r : BitVec w) :
    bitSteps poly k r = bitSteps poly k (BitVec.ofNat w (r.toNat % 2 ^ k)) ^^^ (r >>> k) := by
  have hhigh : r.toNat / 2 ^ k * 2 ^ k < 2 ^ w :=
    (Nat.div_mul_le_self _ _).trans_lt r.isLt
  have hr : r = BitVec.ofNat w (r.toNat % 2 ^ k) ^^^ BitVec.ofNat w (r.toNat / 2 ^ k * 2 ^ k) := by
    rw [← ofNat_add_mul_two_pow (Nat.mod_lt _ (by positivity)), Nat.mod_add_div,
      BitVec.ofNat_toNat, BitVec.setWidth_eq]
  have hshift : r >>> k = BitVec.ofNat w (r.toNat / 2 ^ k) := by
    apply BitVec.eq_of_toNat_eq
    have hlt : r.toNat / 2 ^ k < 2 ^ w := (Nat.div_le_self _ _).trans_lt r.isLt
    rw [BitVec.toNat_ushiftRight, BitVec.toNat_ofNat, Nat.mod_eq_of_lt hlt,
      Nat.shiftRight_eq_div_pow]
  rw [hshift, ← bitSteps_mul_two_pow poly hhigh, ← bitSteps_xor, ← hr]

theorem feed_block (poly r : BitVec w) {bs : List UInt8} (h : 8 * bs.length ≤ w) :
    feed poly r bs = bitSteps poly (8 * bs.length) (r ^^^ BitVec.ofNat w (ofLE bs)) := by
  induction bs generalizing r with
  | nil => simp [feed, bitSteps, ofLE]
  | cons b bs ih =>
    have hlen : 8 * (b :: bs).length = 8 + 8 * bs.length := by simp only [List.length_cons]; omega
    have hbound : ofLE bs * 2 ^ 8 < 2 ^ w := by
      have hl := ofLE_lt bs
      have hp : (256 : Nat) ^ bs.length * 2 ^ 8 = 2 ^ (8 + 8 * bs.length) := by
        rw [Nat.pow_add, Nat.pow_mul]
        ring
      have hw : 2 ^ (8 + 8 * bs.length) ≤ 2 ^ w := Nat.pow_le_pow_right (by omega) (by omega)
      omega
    have hsplit : BitVec.ofNat w (ofLE (b :: bs)) =
        BitVec.ofNat w b.toNat ^^^ BitVec.ofNat w (ofLE bs * 2 ^ 8) :=
      ofNat_add_mul_two_pow (k := 8) b.toNat_lt (ofLE bs)
    have hh := ih (byteStep poly r b) (by omega)
    calc feed poly r (b :: bs)
        = bitSteps poly (8 * bs.length) (byteStep poly r b ^^^ BitVec.ofNat w (ofLE bs)) := hh
      _ = bitSteps poly (8 * bs.length)
            (bitSteps poly 8 ((r ^^^ BitVec.ofNat w b.toNat) ^^^
              BitVec.ofNat w (ofLE bs * 2 ^ 8))) := by
          rw [bitSteps_xor poly 8, bitSteps_mul_two_pow poly hbound, byteStep]
      _ = bitSteps poly (8 * (b :: bs).length) (r ^^^ BitVec.ofNat w (ofLE (b :: bs))) := by
          rw [hlen, bitSteps_add, hsplit, BitVec.xor_assoc]

theorem feed_append (poly r : BitVec w) (as bs : List UInt8) :
    feed poly r (as ++ bs) = feed poly (feed poly r as) bs := by
  simp [feed, List.foldl_append]

theorem feed_register_injective {poly : BitVec w} (hp : poly.msb = true) (bs : List UInt8)
    {r r' : BitVec w} (h : feed poly r bs = feed poly r' bs) : r = r' := by
  induction bs generalizing r r' with
  | nil => exact h
  | cons b bs ih =>
    have hh := bitSteps_injective hp 8 (ih h)
    simpa using hh

theorem feed_block_injective {poly : BitVec w} (hp : poly.msb = true) (r : BitVec w)
    {as bs : List UInt8} (hl : as.length = bs.length) (hw : 8 * as.length ≤ w)
    (h : feed poly r as = feed poly r bs) : as = bs := by
  rw [feed_block poly r hw, feed_block poly r (by omega), hl] at h
  have hx : BitVec.ofNat w (ofLE as) = BitVec.ofNat w (ofLE bs) := by
    simpa using bitSteps_injective hp _ h
  have hbound : ∀ cs : List UInt8, 8 * cs.length ≤ w → ofLE cs < 2 ^ w := by
    intro cs hc
    have hp : (256 : Nat) ^ cs.length = 2 ^ (8 * cs.length) := by rw [Nat.pow_mul]
    have hle : 2 ^ (8 * cs.length) ≤ 2 ^ w := Nat.pow_le_pow_right (by omega) hc
    have := ofLE_lt cs
    omega
  apply ofLE_injective hl
  have hn := congrArg BitVec.toNat hx
  simpa [BitVec.toNat_ofNat, Nat.mod_eq_of_lt (hbound as hw),
    Nat.mod_eq_of_lt (hbound bs (by omega))] using hn

theorem feed_burst {poly : BitVec w} (hp : poly.msb = true) (r : BitVec w)
    (pre post : List UInt8) {as bs : List UInt8} (hl : as.length = bs.length)
    (hw : 8 * as.length ≤ w)
    (h : feed poly r (pre ++ as ++ post) = feed poly r (pre ++ bs ++ post)) : as = bs := by
  simp only [feed_append] at h
  exact feed_block_injective hp _ hl hw (feed_register_injective hp post h)

/-- Two strings of one length that differ, and only at positions in some window of
`k` consecutive ones. -/
structure Burst {α : Type*} (k : Nat) (as bs : List α) : Prop where
  length_eq : as.length = bs.length
  ne : as ≠ bs
  window : ∃ start, ∀ i, as[i]? ≠ bs[i]? → start ≤ i ∧ i < start + k

theorem Burst.take {α : Type*} {k : Nat} {as bs : List α} (h : Burst k as bs) (n : Nat)
    (hn : as.take n ≠ bs.take n) : Burst k (as.take n) (bs.take n) := by
  obtain ⟨start, hw⟩ := h.window
  refine ⟨by simp [h.length_eq], hn, start, ?_⟩
  intro i hi
  apply hw i
  intro he
  apply hi
  simp [List.getElem?_take, he]

theorem Burst.drop {α : Type*} {k : Nat} {as bs : List α} (h : Burst k as bs) (n : Nat)
    (hn : as.drop n ≠ bs.drop n) : Burst k (as.drop n) (bs.drop n) := by
  obtain ⟨start, hw⟩ := h.window
  by_cases hs : n ≤ start
  · refine ⟨by simp [h.length_eq], hn, start - n, ?_⟩
    intro i hi
    have hh := hw (n + i) (by simpa only [List.getElem?_drop] using hi)
    omega
  · refine ⟨by simp [h.length_eq], hn, 0, ?_⟩
    intro i hi
    have hh := hw (n + i) (by simpa only [List.getElem?_drop] using hi)
    omega

theorem Burst.feed_ne {poly : BitVec w} (hp : poly.msb = true) (r : BitVec w) {k : Nat}
    (hk : 8 * k ≤ w) {as bs : List UInt8} (h : Burst k as bs) : feed poly r as ≠ feed poly r bs := by
  obtain ⟨start, hw⟩ := h.window
  have hsplit : ∀ cs : List UInt8,
      cs = cs.take start ++ (cs.drop start).take k ++ cs.drop (start + k) := by
    intro cs
    rw [← List.drop_drop, List.append_assoc, List.take_append_drop, List.take_append_drop]
  have hpre : as.take start = bs.take start := by
    apply List.ext_getElem?
    intro i
    rw [List.getElem?_take, List.getElem?_take]
    split
    · by_contra hi
      have := hw i hi
      omega
    · rfl
  have hpost : as.drop (start + k) = bs.drop (start + k) := by
    apply List.ext_getElem?
    intro i
    rw [List.getElem?_drop, List.getElem?_drop]
    by_contra hi
    have := hw _ hi
    omega
  intro he
  rw [hsplit as, hsplit bs, hpre, hpost] at he
  have hl : ((as.drop start).take k).length = ((bs.drop start).take k).length := by
    simp [h.length_eq]
  have hk' : 8 * ((as.drop start).take k).length ≤ w := by
    rw [List.length_take]
    omega
  apply h.ne
  rw [hsplit as, hsplit bs, hpre, hpost, feed_burst hp r _ _ hl hk' he]

def residue (poly xorOut : BitVec w) : BitVec w := bitSteps poly w xorOut

/-- A stored checksum is the right one exactly when feeding it after the string
leaves the residue. -/
theorem feed_checksum_iff {poly : BitVec w} (hp : poly.msb = true) (r xorOut : BitVec w)
    (data : List UInt8) {stored : List UInt8} (hw : 8 * stored.length = w) :
    feed poly r (data ++ stored) = residue poly xorOut ↔
      feed poly r data ^^^ xorOut = BitVec.ofNat w (ofLE stored) := by
  rw [feed_append, feed_block poly _ (by omega), hw, residue]
  constructor
  · intro h
    have hh := bitSteps_injective hp w h
    rw [← hh, ← BitVec.xor_assoc, BitVec.xor_self, BitVec.zero_xor]
  · intro h
    rw [← h, ← BitVec.xor_assoc, BitVec.xor_self, BitVec.zero_xor]

/-- The bits of a word of `n` bits, the least significant one first. -/
def bitsOf (n x : Nat) : List Bool := (List.range n).map x.testBit

def serialStep (poly r : BitVec w) (bit : Bool) : BitVec w :=
  bitStep poly (r ^^^ BitVec.ofNat w bit.toNat)

def serial (poly r : BitVec w) (bits : List Bool) : BitVec w :=
  bits.foldl (serialStep poly) r

theorem bitsOf_succ (n x : Nat) : bitsOf (n + 1) x = x.testBit 0 :: bitsOf n (x / 2) := by
  rw [bitsOf, List.range_succ_eq_map, List.map_cons, List.map_map, bitsOf]
  congr 1
  apply List.map_congr_left
  intro i _
  exact Nat.testBit_succ x i

theorem bitsOf_add (m n x : Nat) : bitsOf (m + n) x = bitsOf m x ++ bitsOf n (x / 2 ^ m) := by
  rw [bitsOf, List.range_add, List.map_append, List.map_map, bitsOf, bitsOf]
  congr 1
  apply List.map_congr_left
  intro i _
  rw [Nat.testBit_div_two_pow, Nat.add_comm]
  rfl

theorem bitsOf_mod (n x : Nat) : bitsOf n (x % 2 ^ n) = bitsOf n x := by
  apply List.map_congr_left
  intro i hi
  rw [Nat.testBit_mod_two_pow, decide_eq_true (List.mem_range.mp hi), Bool.true_and]

theorem bitsOf_ofLE (bs : List UInt8) :
    bitsOf (8 * bs.length) (ofLE bs) = bs.flatMap fun b => bitsOf 8 b.toNat := by
  induction bs with
  | nil => rfl
  | cons b bs ih =>
    have hlen : 8 * (b :: bs).length = 8 + 8 * bs.length := by
      rw [List.length_cons]
      omega
    have hlow : ofLE (b :: bs) % 2 ^ 8 = b.toNat := by
      have := b.toNat_lt
      rw [ofLE]
      omega
    have hhigh : ofLE (b :: bs) / 2 ^ 8 = ofLE bs := by
      have := b.toNat_lt
      rw [ofLE]
      omega
    rw [hlen, bitsOf_add, ← bitsOf_mod, hlow, hhigh, ih, List.flatMap_cons]

theorem serial_append (poly r : BitVec w) (as bs : List Bool) :
    serial poly r (as ++ bs) = serial poly (serial poly r as) bs :=
  List.foldl_append

/-- Feeding a word bit by bit is adding it to the register and stepping. -/
theorem serial_bitsOf (poly r : BitVec w) {n x : Nat} (hx : x < 2 ^ n) (hn : n ≤ w) :
    serial poly r (bitsOf n x) = bitSteps poly n (r ^^^ BitVec.ofNat w x) := by
  induction n generalizing r x with
  | zero =>
    rw [Nat.lt_one_iff.mp hx]
    simp [bitsOf, serial, bitSteps]
  | succ n ih =>
    have hhalf : x / 2 * 2 ^ 1 < 2 ^ w :=
      lt_of_le_of_lt (Nat.div_mul_le_self x 2) (hx.trans_le (Nat.pow_le_pow_right (by omega) hn))
    have hshift : bitStep poly (BitVec.ofNat w (x / 2 * 2 ^ 1)) = BitVec.ofNat w (x / 2) :=
      bitSteps_mul_two_pow poly hhalf
    have hbit : (x.testBit 0).toNat = x % 2 := by
      rcases Nat.mod_two_eq_zero_or_one x with h | h <;> simp [Nat.testBit_zero, h]
    have hsplit : BitVec.ofNat w x =
        BitVec.ofNat w (x % 2) ^^^ BitVec.ofNat w (x / 2 * 2 ^ 1) := by
      have hlow : x % 2 < 2 ^ 1 := Nat.mod_lt x (by omega)
      rw [← ofNat_add_mul_two_pow hlow, pow_one, Nat.mod_add_div]
    rw [bitsOf_succ]
    calc serial poly (serialStep poly r (x.testBit 0)) (bitsOf n (x / 2))
        = bitSteps poly n (serialStep poly r (x.testBit 0) ^^^ BitVec.ofNat w (x / 2)) :=
          ih _ (by omega) (by omega)
      _ = bitSteps poly n (bitStep poly ((r ^^^ BitVec.ofNat w (x % 2)) ^^^
            BitVec.ofNat w (x / 2 * 2 ^ 1))) := by
          rw [serialStep, hbit, bitStep_xor poly (r ^^^ _), hshift]
      _ = bitSteps poly (n + 1) (r ^^^ BitVec.ofNat w x) := by
          rw [BitVec.xor_assoc, ← hsplit, bitSteps]

theorem serialByte_eq (poly r : BitVec w) (hw : 8 ≤ w) (b : UInt8) :
    serial poly r (bitsOf 8 b.toNat) = byteStep poly r b :=
  serial_bitsOf poly r b.toNat_lt hw

theorem feed_eq_serial (poly r : BitVec w) (hw : 8 ≤ w) (bs : List UInt8) :
    feed poly r bs = serial poly r (bs.flatMap fun b => bitsOf 8 b.toNat) := by
  induction bs generalizing r with
  | nil => rfl
  | cons b bs ih =>
    rw [List.flatMap_cons, serial_append, serialByte_eq poly r hw]
    exact ih _

/-- Nothing bounds the word by the width of the register. -/
theorem serial_word (poly r : BitVec w) (hw : 8 ≤ w) (bs : List UInt8) :
    serial poly r (bitsOf (8 * bs.length) (ofLE bs)) = feed poly r bs := by
  rw [bitsOf_ofLE, feed_eq_serial poly r hw]

end Crc
