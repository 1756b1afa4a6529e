import SensorForge.CrcRegister
import SensorForge.LittleEndian

/-! CRC32C as the table-driven software path computes it, and the register it
runs. Every target of the source returns the same value as this path. -/

namespace SensorForge

open ByteOrder

def kPoly : UInt32 := 0x82F63B78

def tableStep (crc : UInt32) : UInt32 :=
  if crc &&& 1 != 0 then (crc >>> 1) ^^^ kPoly else crc >>> 1

def tableEntry (i : UInt32) : UInt32 :=
  (List.range 8).foldl (fun crc _ => tableStep crc) i

def makeTable : Vector UInt32 256 :=
  Vector.ofFn fun i => tableEntry i.val.toUInt32

def kTable : Vector UInt32 256 := makeTable

theorem and_ff_lt (x : UInt32) : (x &&& 0xFF).toNat < 256 := by
  rw [UInt32.toNat_and]
  exact Nat.lt_of_le_of_lt Nat.and_le_right (by decide)

def crc32cSoftware (crc : UInt32) (data : Bytes) : UInt32 :=
  data.foldl
    (fun crc b => kTable.get ⟨((crc ^^^ b.toUInt32) &&& 0xFF).toNat, and_ff_lt _⟩ ^^^ (crc >>> 8))
    crc

def crc32c (data : Bytes) : UInt32 :=
  crc32cSoftware 0xFFFFFFFF data ^^^ 0xFFFFFFFF

theorem kPoly_msb : kPoly.toBitVec.msb = true := by decide

theorem tableStep_toBitVec (crc : UInt32) :
    (tableStep crc).toBitVec = Crc.bitStep kPoly.toBitVec crc.toBitVec := by
  have hlow : (crc &&& 1 != 0) = crc.toBitVec.getLsbD 0 := by
    have hb : (crc &&& 1).toBitVec = BitVec.setWidth 32 (BitVec.ofBool (crc.toBitVec.getLsbD 0)) := by
      rw [UInt32.toBitVec_and]
      exact BitVec.and_one_eq_setWidth_ofBool_getLsbD
    cases h : crc.toBitVec.getLsbD 0 <;> rw [h] at hb
    · have : crc &&& 1 = 0 := UInt32.toBitVec_inj.mp (by rw [hb]; decide)
      simp [this]
    · have : crc &&& 1 = 1 := UInt32.toBitVec_inj.mp (by rw [hb]; decide)
      simp [this]
  unfold tableStep Crc.bitStep
  rw [hlow]
  split <;> simp

theorem tableEntry_toBitVec (i : UInt32) :
    (tableEntry i).toBitVec = Crc.bitSteps kPoly.toBitVec 8 i.toBitVec := by
  simp only [tableEntry, List.range, List.range.loop, List.foldl, tableStep_toBitVec, Crc.bitSteps]

theorem kTable_get (i : Fin 256) : kTable.get i = tableEntry i.val.toUInt32 := by
  rw [kTable, makeTable, Vector.get_eq_getElem, Vector.getElem_ofFn]

theorem crc32cSoftware_step (crc : UInt32) (b : UInt8) :
    (kTable.get ⟨((crc ^^^ b.toUInt32) &&& 0xFF).toNat, and_ff_lt _⟩ ^^^ (crc >>> 8)).toBitVec =
      Crc.byteStep kPoly.toBitVec crc.toBitVec b := by
  have hb : b.toUInt32.toBitVec = BitVec.ofNat 32 b.toNat := by
    apply BitVec.eq_of_toNat_eq
    simp
  have hshift : (BitVec.ofNat 32 b.toNat) >>> 8 = 0#32 := by
    apply BitVec.eq_of_toNat_eq
    have := b.toNat_lt
    simp [Nat.shiftRight_eq_div_pow]
    omega
  have hindex : ((((crc ^^^ b.toUInt32) &&& 0xFF).toNat).toUInt32).toBitVec =
      BitVec.ofNat 32 ((crc.toBitVec ^^^ BitVec.ofNat 32 b.toNat).toNat % 2 ^ 8) := by
    rw [← hb, ← UInt32.toBitVec_xor, UInt32.toNat_toBitVec, UInt32.toNat_and]
    change BitVec.ofNat 32 ((crc ^^^ b.toUInt32).toNat &&& (2 ^ 8 - 1)) = _
    rw [Nat.and_two_pow_sub_one_eq_mod]
  rw [kTable_get, UInt32.toBitVec_xor, tableEntry_toBitVec, hindex, Crc.byteStep,
    Crc.bitSteps_split kPoly.toBitVec 8 (crc.toBitVec ^^^ BitVec.ofNat 32 b.toNat),
    BitVec.ushiftRight_xor_distrib, hshift, BitVec.xor_zero]
  rfl

theorem crc32cSoftware_toBitVec (crc : UInt32) (data : Bytes) :
    (crc32cSoftware crc data).toBitVec = Crc.feed kPoly.toBitVec crc.toBitVec data := by
  induction data generalizing crc with
  | nil => rfl
  | cons b data ih =>
    have hh := ih (kTable.get ⟨((crc ^^^ b.toUInt32) &&& 0xFF).toNat, and_ff_lt _⟩ ^^^ (crc >>> 8))
    rw [crc32cSoftware_step] at hh
    exact hh

def crcRegister (data : Bytes) : BitVec 32 := Crc.feed kPoly.toBitVec 0xFFFFFFFF#32 data

def crcResidue : BitVec 32 := Crc.residue kPoly.toBitVec 0xFFFFFFFF#32

theorem crc32c_eq_iff (data stored rest : Bytes) (h : stored.length = 4) :
    crc32c data = getU32 (stored ++ rest) ↔ crcRegister (data ++ stored) = crcResidue := by
  have hw : 8 * stored.length = 32 := by omega
  have hs := Crc.feed_checksum_iff kPoly_msb 0xFFFFFFFF#32 0xFFFFFFFF#32 data hw
  rw [crcRegister, crcResidue, hs, ← UInt32.toBitVec_inj, crc32c, UInt32.toBitVec_xor,
    crc32cSoftware_toBitVec]
  have hget : (getU32 (stored ++ rest)).toBitVec = BitVec.ofNat 32 (ofLE stored) := by
    apply BitVec.eq_of_toNat_eq
    have hlt := ofLE_lt stored
    rw [h] at hlt
    rw [UInt32.toNat_toBitVec, getU32_append stored rest h, BitVec.toNat_ofNat,
      Nat.mod_eq_of_lt (by omega)]
  rw [hget]
  rfl

theorem crc32c_trailer_iff {data : Bytes} {n : Nat} (h : n + 4 ≤ data.length) :
    crc32c (data.take n) = getU32 (data.drop n) ↔
      crcRegister (data.take (n + 4)) = crcResidue := by
  have hl : ((data.drop n).take 4).length = 4 := by
    simp
    omega
  have hh := crc32c_eq_iff (data.take n) ((data.drop n).take 4) ((data.drop n).drop 4) hl
  rwa [List.take_append_drop, ← List.take_add] at hh

theorem crc32c_inj {as bs : Bytes} (h : crc32c as = crc32c bs) :
    crcRegister as = crcRegister bs := by
  have hx : crc32cSoftware 0xFFFFFFFF as = crc32cSoftware 0xFFFFFFFF bs := by
    simpa [crc32c] using h
  have hh := congrArg UInt32.toBitVec hx
  rwa [crc32cSoftware_toBitVec, crc32cSoftware_toBitVec] at hh

theorem crcRegister_ne {as bs : Bytes} (h : Crc.Burst 4 as bs) : crcRegister as ≠ crcRegister bs :=
  h.feed_ne kPoly_msb _ (by omega)

example : crc32c [0x31, 0x32, 0x33, 0x34, 0x35, 0x36, 0x37, 0x38, 0x39] = 0xE3069283 := by
  decide +kernel

end SensorForge
