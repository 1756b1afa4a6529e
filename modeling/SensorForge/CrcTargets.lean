import SensorForge.Crc32c
import SensorForge.ReadTrace

/-! CRC32C on each target as it walks the buffer: the table loop and the two loops
over the CRC instructions. All run one register, the bit-serial one. -/

namespace SensorForge

open ByteOrder ReadTrace

def readU16 (buf : Bytes) (p : Nat) : Reads UInt16 := do
  let b0 ← readAt buf p
  let b1 ← readAt buf (p + 1)
  return b0.toUInt16 ||| (b1.toUInt16 <<< 8)

def readU32 (buf : Bytes) (p : Nat) : Reads UInt32 := do
  let b0 ← readAt buf p
  let b1 ← readAt buf (p + 1)
  let b2 ← readAt buf (p + 2)
  let b3 ← readAt buf (p + 3)
  return b0.toUInt32 ||| (b1.toUInt32 <<< 8) ||| (b2.toUInt32 <<< 16) ||| (b3.toUInt32 <<< 24)

def readU64 (buf : Bytes) (p : Nat) : Reads UInt64 :=
  (List.range 8).foldlM
    (fun v i => do
      let b ← readAt buf (p + i)
      return v ||| (b.toUInt64 <<< (8 * i).toUInt64)) 0

/-- The bit-serial register over the `n` bits of `x`, the least significant one first. -/
def crcBits (crc : UInt32) (n x : Nat) : UInt32 :=
  ⟨Crc.serial kPoly.toBitVec crc.toBitVec (Crc.bitsOf n x)⟩

def crc32cSerial (crc : UInt32) (data : Bytes) : UInt32 :=
  data.foldl (fun crc b => crcBits crc 8 b.toNat) crc

def mmCrc32U8 (crc : UInt32) (v : UInt8) : UInt32 := crcBits crc 8 v.toNat

/-- The register is the low half of the operand; the high half of the result is zero. -/
def mmCrc32U64 (crc v : UInt64) : UInt64 := (crcBits crc.toUInt32 64 v.toNat).toUInt64

def armCrc32cb (crc : UInt32) (v : UInt8) : UInt32 := crcBits crc 8 v.toNat

def armCrc32cd (crc : UInt32) (v : UInt64) : UInt32 := crcBits crc 64 v.toNat

/-- `for (; i + 8 <= len; i += 8)`, with the index at which it stops. -/
def chunkLoop (crc64 : UInt32 → UInt64 → UInt32) (buf : Bytes) (data len i : Nat) (crc : UInt32) :
    Reads (UInt32 × Nat) :=
  if _h : i + 8 ≤ len then do
    let chunk ← readU64 buf (data + i)
    chunkLoop crc64 buf data len (i + 8) (crc64 crc chunk)
  else pure (crc, i)
termination_by len - i

def crcInstructions (crc64 : UInt32 → UInt64 → UInt32) (crc8 : UInt32 → UInt8 → UInt32)
    (crc : UInt32) (buf : Bytes) (data len : Nat) : Reads UInt32 := do
  let (crc, i) ← chunkLoop crc64 buf data len 0 crc
  readLoop buf crc8 data len i crc

def crc32cHwX86 : UInt32 → Bytes → Nat → Nat → Reads UInt32 :=
  crcInstructions (fun crc chunk => (mmCrc32U64 crc.toUInt64 chunk).toUInt32) mmCrc32U8

def crc32cHwArm : UInt32 → Bytes → Nat → Nat → Reads UInt32 :=
  crcInstructions armCrc32cd armCrc32cb

def tableIndex (x : UInt32) : Fin 256 := ⟨(x &&& 0xFF).toNat, and_ff_lt x⟩

def crc32cSoftwareAt (crc : UInt32) (buf : Bytes) (data len : Nat) : Reads UInt32 :=
  readLoop buf (fun crc b => kTable.get (tableIndex (crc ^^^ b.toUInt32)) ^^^ (crc >>> 8))
    data len 0 crc

/-- What the source is compiled for and, on x86, what the processor reports. -/
inductive Target where
  | x86 (hasSse42 : Bool)
  | arm
  | generic
  deriving DecidableEq

def crc32cDispatch (target : Target) (crc : UInt32) (buf : Bytes) (data len : Nat) :
    Reads UInt32 :=
  match target with
  | .x86 hasSse42 =>
    if hasSse42 then crc32cHwX86 crc buf data len else crc32cSoftwareAt crc buf data len
  | .arm => crc32cHwArm crc buf data len
  | .generic => crc32cSoftwareAt crc buf data len

def crc32cAt (target : Target) (buf : Bytes) (data len : Nat) : Reads UInt32 := do
  let crc ← crc32cDispatch target 0xFFFFFFFF buf data len
  return crc ^^^ 0xFFFFFFFF

theorem getD_drop (buf : Bytes) (p i : Nat) : (buf.drop p).getD i 0 = buf.getD (p + i) 0 := by
  rw [List.getD_eq_getElem?_getD, List.getD_eq_getElem?_getD, List.getElem?_drop]

@[simp] theorem readU16_value (buf : Bytes) (p : Nat) :
    (readU16 buf p).value = getU16 (buf.drop p) := by
  simp only [getU16, getD_drop]
  rfl

@[simp] theorem readU32_value (buf : Bytes) (p : Nat) :
    (readU32 buf p).value = getU32 (buf.drop p) := by
  simp only [getU32, getD_drop]
  rfl

@[simp] theorem readU64_value (buf : Bytes) (p : Nat) :
    (readU64 buf p).value = getU64 (buf.drop p) := by
  simp only [getU64, getD_drop]
  rfl

@[simp] theorem readU16_within (buf : Bytes) (p n : Nat) :
    (readU16 buf p).Within n ↔ p + 2 ≤ n := by
  simp only [readU16, Reads.within_bind, readAt_within, Reads.within_pure, and_true]
  omega

@[simp] theorem readU32_within (buf : Bytes) (p n : Nat) :
    (readU32 buf p).Within n ↔ p + 4 ≤ n := by
  simp only [readU32, Reads.within_bind, readAt_within, Reads.within_pure, and_true]
  omega

@[simp] theorem readU64_within (buf : Bytes) (p n : Nat) :
    (readU64 buf p).Within n ↔ p + 8 ≤ n := by
  simp only [readU64, List.range, List.range.loop, List.foldlM, Reads.within_bind, readAt_within,
    Reads.within_pure, and_true]
  omega

theorem crcByte_toBitVec (crc : UInt32) (b : UInt8) :
    (crcBits crc 8 b.toNat).toBitVec = Crc.byteStep kPoly.toBitVec crc.toBitVec b :=
  Crc.serialByte_eq kPoly.toBitVec crc.toBitVec (by omega) b

theorem crcByte_foldl (crc : UInt32) (data : Bytes) :
    (data.foldl (fun crc b => crcBits crc 8 b.toNat) crc).toBitVec =
      Crc.feed kPoly.toBitVec crc.toBitVec data := by
  induction data generalizing crc with
  | nil => rfl
  | cons b data ih =>
    rw [List.foldl_cons, ih, crcByte_toBitVec]
    rfl

theorem getU64_slice {buf : Bytes} {p : Nat} (h : p + 8 ≤ buf.length) :
    (getU64 (buf.drop p)).toNat = ofLE (slice buf p 8) := by
  have hlen : (slice buf p 8).length = 8 := slice_length buf h
  have hget := getU64_append (slice buf p 8) ((buf.drop p).drop 8) hlen
  rwa [slice, List.take_append_drop] at hget

theorem crcChunk_toBitVec (crc : UInt32) {buf : Bytes} {p : Nat} (h : p + 8 ≤ buf.length) :
    (crcBits crc 64 (getU64 (buf.drop p)).toNat).toBitVec =
      Crc.feed kPoly.toBitVec crc.toBitVec (slice buf p 8) := by
  have hlen : (slice buf p 8).length = 8 := slice_length buf h
  have hword := Crc.serial_word kPoly.toBitVec crc.toBitVec (by omega) (slice buf p 8)
  rwa [hlen, ← getU64_slice h] at hword

theorem chunkLoop_value {crc64 : UInt32 → UInt64 → UInt32}
    (h64 : ∀ crc v, crc64 crc v = crcBits crc 64 v.toNat) {buf : Bytes} {data len i : Nat}
    (hbuf : data + len ≤ buf.length) (hi : i ≤ len) (crc : UInt32) :
    ∃ stop, (chunkLoop crc64 buf data len i crc).value.2 = stop ∧ i ≤ stop ∧ stop ≤ len ∧
      (chunkLoop crc64 buf data len i crc).value.1.toBitVec =
        Crc.feed kPoly.toBitVec crc.toBitVec (slice buf (data + i) (stop - i)) := by
  fun_induction chunkLoop crc64 buf data len i crc with
  | case1 i crc hle ih =>
    obtain ⟨stop, hstop, hge, hlen, hcrc⟩ := ih (readU64 buf (data + i)).value hle
    refine ⟨stop, hstop, by omega, hlen, ?_⟩
    have hsplit : stop - i = 8 + (stop - (i + 8)) := by omega
    rw [readU64_value, h64, crcChunk_toBitVec crc (by omega), ← Crc.feed_append] at hcrc
    rw [Reads.value_bind, readU64_value, h64, hsplit, slice_add, Nat.add_assoc]
    exact hcrc
  | case2 i crc hgt => exact ⟨i, rfl, le_refl i, hi, by rw [Nat.sub_self]; rfl⟩

theorem chunkLoop_within (crc64 : UInt32 → UInt64 → UInt32) (buf : Bytes) {data len i n : Nat}
    (h : data + len ≤ n) (crc : UInt32) : (chunkLoop crc64 buf data len i crc).Within n := by
  fun_induction chunkLoop crc64 buf data len i crc with
  | case1 i crc hle ih =>
    rw [Reads.within_bind, readU64_within]
    exact ⟨by omega, ih _⟩
  | case2 i crc hgt => exact Reads.within_pure _ n

theorem crcInstructions_value {crc64 : UInt32 → UInt64 → UInt32} {crc8 : UInt32 → UInt8 → UInt32}
    (h64 : ∀ crc v, crc64 crc v = crcBits crc 64 v.toNat)
    (h8 : ∀ crc v, crc8 crc v = crcBits crc 8 v.toNat) (crc : UInt32) {buf : Bytes}
    {data len : Nat} (hbuf : data + len ≤ buf.length) :
    (crcInstructions crc64 crc8 crc buf data len).value.toBitVec =
      Crc.feed kPoly.toBitVec crc.toBitVec (slice buf data len) := by
  obtain ⟨stop, hstop, _, hlen, hcrc⟩ := chunkLoop_value h64 hbuf (Nat.zero_le len) crc
  have hcrc8 : crc8 = fun crc b => crcBits crc 8 b.toNat := by
    funext crc v
    exact h8 crc v
  have hsplit : slice buf data len = slice buf data stop ++ slice buf (data + stop) (len - stop) := by
    rw [← slice_add, Nat.add_sub_cancel' hlen]
  calc (crcInstructions crc64 crc8 crc buf data len).value.toBitVec
      = (readLoop buf crc8 data len stop
          (chunkLoop crc64 buf data len 0 crc).value.1).value.toBitVec := by
        rw [← hstop]
        rfl
    _ = Crc.feed kPoly.toBitVec (chunkLoop crc64 buf data len 0 crc).value.1.toBitVec
          (slice buf (data + stop) (len - stop)) := by
        rw [readLoop_value buf crc8 hbuf, hcrc8, crcByte_foldl]
    _ = Crc.feed kPoly.toBitVec crc.toBitVec (slice buf data len) := by
        rw [hcrc, hsplit, Crc.feed_append]
        rfl

theorem crcInstructions_within (crc64 : UInt32 → UInt64 → UInt32)
    (crc8 : UInt32 → UInt8 → UInt32) (crc : UInt32) (buf : Bytes) {data len n : Nat}
    (h : data + len ≤ n) : (crcInstructions crc64 crc8 crc buf data len).Within n := by
  rw [crcInstructions, Reads.within_bind]
  exact ⟨chunkLoop_within crc64 buf h crc, readLoop_within buf crc8 h _⟩

theorem mmCrc32U64_eq (crc : UInt32) (v : UInt64) :
    (mmCrc32U64 crc.toUInt64 v).toUInt32 = crcBits crc 64 v.toNat := by
  simp [mmCrc32U64]

theorem crc32cHwX86_value (crc : UInt32) {buf : Bytes} {data len : Nat}
    (h : data + len ≤ buf.length) :
    (crc32cHwX86 crc buf data len).value = crc32cSoftware crc (slice buf data len) := by
  apply UInt32.toBitVec_inj.mp
  rw [crc32cSoftware_toBitVec]
  exact crcInstructions_value mmCrc32U64_eq (fun _ _ => rfl) crc h

theorem crc32cHwArm_value (crc : UInt32) {buf : Bytes} {data len : Nat}
    (h : data + len ≤ buf.length) :
    (crc32cHwArm crc buf data len).value = crc32cSoftware crc (slice buf data len) := by
  apply UInt32.toBitVec_inj.mp
  rw [crc32cSoftware_toBitVec]
  exact crcInstructions_value (fun _ _ => rfl) (fun _ _ => rfl) crc h

theorem crc32cSoftwareAt_value (crc : UInt32) {buf : Bytes} {data len : Nat}
    (h : data + len ≤ buf.length) :
    (crc32cSoftwareAt crc buf data len).value = crc32cSoftware crc (slice buf data len) :=
  readLoop_value buf _ h crc

theorem crc32cSerial_eq (crc : UInt32) (data : Bytes) :
    crc32cSerial crc data = crc32cSoftware crc data := by
  apply UInt32.toBitVec_inj.mp
  rw [crc32cSoftware_toBitVec]
  exact crcByte_foldl crc data

theorem crc32cDispatch_value (target : Target) (crc : UInt32) {buf : Bytes} {data len : Nat}
    (h : data + len ≤ buf.length) :
    (crc32cDispatch target crc buf data len).value = crc32cSoftware crc (slice buf data len) := by
  match target with
  | .x86 true => exact crc32cHwX86_value crc h
  | .x86 false => exact crc32cSoftwareAt_value crc h
  | .arm => exact crc32cHwArm_value crc h
  | .generic => exact crc32cSoftwareAt_value crc h

theorem crc32cDispatch_within (target : Target) (crc : UInt32) (buf : Bytes) {data len n : Nat}
    (h : data + len ≤ n) : (crc32cDispatch target crc buf data len).Within n := by
  match target with
  | .x86 true => exact crcInstructions_within _ _ crc buf h
  | .x86 false => exact readLoop_within buf _ h crc
  | .arm => exact crcInstructions_within _ _ crc buf h
  | .generic => exact readLoop_within buf _ h crc

theorem crc32cAt_value (target : Target) {buf : Bytes} {data len : Nat}
    (h : data + len ≤ buf.length) :
    (crc32cAt target buf data len).value = crc32c (slice buf data len) := by
  rw [crc32cAt, Reads.value_bind, Reads.value_pure, crc32cDispatch_value target _ h, crc32c]

theorem crc32cAt_within (target : Target) (buf : Bytes) {data len n : Nat} (h : data + len ≤ n) :
    (crc32cAt target buf data len).Within n := by
  rw [crc32cAt, Reads.within_bind]
  exact ⟨crc32cDispatch_within target _ buf h, Reads.within_pure _ n⟩

end SensorForge
