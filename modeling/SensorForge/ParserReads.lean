import SensorForge.CrcTargets
import SensorForge.WalReader

/-! The parsers as they walk memory: a pointer into a buffer, the size that the caller
passes with it, and every byte access. Their results are those of the pure parsers. -/

namespace SensorForge.Protocol

open ReadTrace

def decodeHeaderAt (target : Target) (buf : Bytes) (data size : Nat) :
    Reads (Except FrameError FrameHeader) :=
  if size < kFrameOverhead then pure (.error .truncatedHeader) else do
  let magic ← readU32 buf (data + kOffMagic)
  if magic ≠ kMagic then pure (.error .badMagic) else do
  let version ← readU16 buf (data + kOffVersion)
  if version > kVersion then pure (.error .unsupportedVersion) else do
  let sensorType ← readU16 buf (data + kOffSensorType)
  let flags ← readU16 buf (data + kOffFlags)
  let headerSize ← readU16 buf (data + kOffHeaderSize)
  if headerSize ≠ kHeaderSize then pure (.error .badHeaderSize) else do
  let sequence ← readU64 buf (data + kOffSequence)
  let timestampNs ← readU64 buf (data + kOffTimestamp)
  let payloadSize ← readU32 buf (data + kOffPayloadSize)
  let payloadCrc32c ← readU32 buf (data + kOffPayloadCrc)
  if payloadSize > kMaxPayload then pure (.error .payloadTooLarge) else
  let need := (kFrameOverhead + payloadSize.toNat) % 2 ^ 64
  if need < kFrameOverhead then pure (.error .lengthOverflow) else
  if size < need then pure (.error .truncatedPayload) else do
  let storedHeaderCrc ← readU32 buf (data + kOffHeaderCrc)
  let headerCrc ← crc32cAt target buf data kHeaderSize.toNat
  if headerCrc ≠ storedHeaderCrc then pure (.error .headerCrcMismatch) else do
  let payloadCrc ← crc32cAt target buf (data + kFrameOverhead) payloadSize.toNat
  if payloadCrc ≠ payloadCrc32c then pure (.error .payloadCrcMismatch) else
  pure (.ok { magic, version, sensorType := ⟨sensorType⟩, flags, headerSize, sequence, timestampNs
              payloadSize, payloadCrc32c })

theorem ite_else_congr {α : Type*} {c : Prop} [Decidable c] {x y z : α} (h : ¬ c → y = z) :
    (if c then x else y) = if c then x else z := by
  by_cases hc : c
  · rw [if_pos hc, if_pos hc]
  · rw [if_neg hc, if_neg hc, h hc]

theorem need_eq {payloadSize : UInt32} (h : ¬ payloadSize > kMaxPayload) :
    (kFrameOverhead + payloadSize.toNat) % 2 ^ 64 = kFrameOverhead + payloadSize.toNat := by
  have hmax := UInt32.le_iff_toNat_le.mp (UInt32.not_lt.mp h)
  rw [kMaxPayload_toNat] at hmax
  rw [kFrameOverhead_eq]
  omega

theorem decodeHeaderAt_value (target : Target) {buf : Bytes} {data size : Nat}
    (h : data + size = buf.length) :
    (decodeHeaderAt target buf data size).value = decodeHeader (buf.drop data) := by
  have hsize : (buf.drop data).length = size := by
    rw [List.length_drop]
    omega
  unfold decodeHeaderAt decodeHeader
  simp only [Reads.value_ite, Reads.value_bind, Reads.value_pure, readU32_value, readU16_value,
    readU64_value, hsize, List.drop_drop]
  refine ite_else_congr fun hoverhead => ite_else_congr fun _ => ite_else_congr fun _ =>
    ite_else_congr fun _ => ite_else_congr fun hmax => ite_else_congr fun _ =>
    ite_else_congr fun hneed => ?_
  have hpayload := need_eq hmax
  rw [kFrameOverhead_eq] at *
  rw [hpayload] at hneed
  rw [crc32cAt_value target (by rw [kHeaderSize_toNat]; omega),
    crc32cAt_value target (by omega)]
  simp only [slice]
  rfl

theorem decodeHeaderAt_within (target : Target) (buf : Bytes) {data size n : Nat}
    (h : data + size ≤ n) : (decodeHeaderAt target buf data size).Within n := by
  refine Reads.within_else fun hoverhead => ?_
  rw [kFrameOverhead_eq] at hoverhead
  have hfield : ∀ off width, off + width ≤ 40 → data + off + width ≤ n := by
    intro off width hoff
    omega
  have hu16 : ∀ off, off + 2 ≤ 40 → (readU16 buf (data + off)).Within n := fun off hoff =>
    (readU16_within buf _ n).mpr (hfield off 2 hoff)
  have hu32 : ∀ off, off + 4 ≤ 40 → (readU32 buf (data + off)).Within n := fun off hoff =>
    (readU32_within buf _ n).mpr (hfield off 4 hoff)
  have hu64 : ∀ off, off + 8 ≤ 40 → (readU64 buf (data + off)).Within n := fun off hoff =>
    (readU64_within buf _ n).mpr (hfield off 8 hoff)
  refine Reads.within_then (hu32 kOffMagic (by decide)) (Reads.within_else fun _ => ?_)
  refine Reads.within_then (hu16 kOffVersion (by decide)) (Reads.within_else fun _ => ?_)
  refine Reads.within_then (hu16 kOffSensorType (by decide)) ?_
  refine Reads.within_then (hu16 kOffFlags (by decide)) ?_
  refine Reads.within_then (hu16 kOffHeaderSize (by decide)) (Reads.within_else fun _ => ?_)
  refine Reads.within_then (hu64 kOffSequence (by decide)) ?_
  refine Reads.within_then (hu64 kOffTimestamp (by decide)) ?_
  refine Reads.within_then (hu32 kOffPayloadSize (by decide)) ?_
  refine Reads.within_then (hu32 kOffPayloadCrc (by decide)) ?_
  refine Reads.within_else fun hmax => Reads.within_else fun _ => Reads.within_else fun hneed => ?_
  rw [need_eq hmax, kFrameOverhead_eq] at hneed
  refine Reads.within_then (hu32 kOffHeaderCrc (by decide)) ?_
  refine Reads.within_then (crc32cAt_within target buf (by rw [kHeaderSize_toNat]; omega))
    (Reads.within_else fun _ => ?_)
  refine Reads.within_then (crc32cAt_within target buf (by rw [kFrameOverhead_eq]; omega)) ?_
  exact Reads.within_else fun _ => Reads.within_pure _ n

theorem ite_error_ne {ε α : Type*} {c : Prop} [Decidable c] {e e' : ε} {x : Except ε α}
    (he : c → e ≠ e') (hx : ¬ c → x ≠ .error e') : (if c then .error e else x) ≠ .error e' := by
  split
  · next h => exact fun heq => he h (Except.error.inj heq)
  · next h => exact hx h

theorem decodeHeader_ne_lengthOverflow (data : Bytes) :
    decodeHeader data ≠ .error .lengthOverflow := by
  refine ite_error_ne (fun _ => nofun) fun _ => ite_error_ne (fun _ => nofun) fun _ =>
    ite_error_ne (fun _ => nofun) fun _ => ite_error_ne (fun _ => nofun) fun _ =>
    ite_error_ne (fun _ => nofun) fun hmax => ite_error_ne (fun hwrap => ?_) fun _ =>
    ite_error_ne (fun _ => nofun) fun _ => ite_error_ne (fun _ => nofun) fun _ =>
    ite_error_ne (fun _ => nofun) fun _ => nofun
  rw [need_eq hmax, kFrameOverhead_eq] at hwrap
  omega

end SensorForge.Protocol

namespace SensorForge.Replay

open Protocol (SensorType ite_else_congr)
open ReadTrace

def decodeRecordAt (target : Target) (buf : Bytes) (data size : Nat) :
    Reads (Except RecordError RecordHeader) :=
  if size < kRecordHeaderSize then pure (.error .truncatedHeader) else do
  let recordLength ← readU32 buf (data + 0)
  let timestampNs ← readU64 buf (data + 4)
  let sensorType ← readU16 buf (data + 12)
  let sequence ← readU64 buf (data + 14)
  let payloadSize ← readU32 buf (data + 22)
  let payloadCrc32c ← readU32 buf (data + 26)
  if recordLength.toNat < kRecordOverhead ∨ recordLength.toNat > kMaxRecordLength then
    pure (.error .badLength) else
  if payloadSize > kMaxRecordPayload then pure (.error .payloadTooLarge) else
  if recordLength.toNat ≠ kRecordOverhead + payloadSize.toNat then
    pure (.error .lengthMismatch) else
  if size < recordLength.toNat then pure (.error .truncatedRecord) else do
  let pc ← crc32cAt target buf (data + kRecordHeaderSize) payloadSize.toNat
  if pc ≠ payloadCrc32c then pure (.error .payloadCrcMismatch) else do
  let crcOff := kRecordHeaderSize + payloadSize.toNat
  let storedRecordCrc ← readU32 buf (data + crcOff)
  let recordCrc ← crc32cAt target buf data crcOff
  if recordCrc ≠ storedRecordCrc then pure (.error .recordCrcMismatch) else
  pure (.ok { recordLength, timestampNs, sensorType := ⟨sensorType⟩, sequence, payloadSize
              payloadCrc32c })

theorem decodeRecordAt_value (target : Target) {buf : Bytes} {data size : Nat}
    (h : data + size = buf.length) :
    (decodeRecordAt target buf data size).value = decodeRecord (buf.drop data) := by
  have hsize : (buf.drop data).length = size := by
    rw [List.length_drop]
    omega
  unfold decodeRecordAt decodeRecord
  simp only [Reads.value_ite, Reads.value_bind, Reads.value_pure, readU32_value, readU16_value,
    readU64_value, hsize, List.drop_drop]
  refine ite_else_congr fun _ => ite_else_congr fun _ => ite_else_congr fun _ =>
    ite_else_congr fun hmatch => ite_else_congr fun hlen => ?_
  have hrecord := not_not.mp hmatch
  rw [kRecordOverhead_eq] at hrecord
  rw [crc32cAt_value target (by rw [kRecordHeaderSize_eq]; omega),
    crc32cAt_value target (by rw [kRecordHeaderSize_eq]; omega)]
  simp only [slice]
  rfl

theorem decodeRecordAt_within (target : Target) (buf : Bytes) {data size n : Nat}
    (h : data + size ≤ n) : (decodeRecordAt target buf data size).Within n := by
  refine Reads.within_else fun hheader => ?_
  rw [kRecordHeaderSize_eq] at hheader
  have hu32 : ∀ off, off + 4 ≤ 30 → (readU32 buf (data + off)).Within n := fun off hoff =>
    (readU32_within buf _ n).mpr (by omega)
  have hu64 : ∀ off, off + 8 ≤ 30 → (readU64 buf (data + off)).Within n := fun off hoff =>
    (readU64_within buf _ n).mpr (by omega)
  refine Reads.within_then (hu32 0 (by decide)) ?_
  refine Reads.within_then (hu64 4 (by decide)) ?_
  refine Reads.within_then ((readU16_within buf _ n).mpr (by omega)) ?_
  refine Reads.within_then (hu64 14 (by decide)) ?_
  refine Reads.within_then (hu32 22 (by decide)) ?_
  refine Reads.within_then (hu32 26 (by decide)) ?_
  refine Reads.within_else fun _ => Reads.within_else fun _ => Reads.within_else fun hmatch =>
    Reads.within_else fun hlen => ?_
  have hrecord := not_not.mp hmatch
  rw [kRecordOverhead_eq] at hrecord
  refine Reads.within_then (crc32cAt_within target buf (by rw [kRecordHeaderSize_eq]; omega))
    (Reads.within_else fun _ => ?_)
  refine Reads.within_then ((readU32_within buf _ n).mpr (by rw [kRecordHeaderSize_eq]; omega)) ?_
  refine Reads.within_then (crc32cAt_within target buf (by rw [kRecordHeaderSize_eq]; omega)) ?_
  exact Reads.within_else fun _ => Reads.within_pure _ n

theorem decodeRecordAt_reads (target : Target) {buf : Bytes} {pos : Nat} (h : pos ≤ buf.length) :
    (decodeRecordAt target buf pos (buf.length - pos)).value = decodeRecord (buf.drop pos) ∧
      (decodeRecordAt target buf pos (buf.length - pos)).Within buf.length :=
  have hsize : pos + (buf.length - pos) = buf.length := Nat.add_sub_cancel' h
  ⟨decodeRecordAt_value target hsize, decodeRecordAt_within target buf (le_of_eq hsize)⟩

/-- The scan of one segment, with the copy of each accepted payload. -/
def WalReader.scanAt (target : Target) (segId : UInt32) (buf : Bytes) (pos : Nat)
    (inSkipRun : Bool) (r : WalReader) : Reads WalReader :=
  if _h : pos + kRecordHeaderSize ≤ buf.length then do
    let decoded ← (decodeRecordAt target buf pos (buf.length - pos)).attach
    match hdec : decoded.val with
    | .ok hdr =>
      let payload ← readRange buf (pos + kRecordHeaderSize) hdr.payloadSize.toNat
      WalReader.scanAt target segId buf (pos + hdr.recordLength.toNat) false
        (r.accept segId pos { header := hdr, payload })
    | .error _ => WalReader.scanAt target segId buf (pos + 1) true (r.skip inSkipRun 1)
  else if pos < buf.length then pure (r.skip inSkipRun (buf.length - pos))
  else pure r
termination_by buf.length - pos
decreasing_by
  · have hok := decoded.property
    rw [hdec, decodeRecordAt_value target (by omega)] at hok
    have hlen := (decodeRecord_eq_ok_iff.mp hok.symm).2.2.1
    rw [kRecordOverhead_eq] at hlen
    rw [kRecordHeaderSize_eq] at _h
    omega
  · rw [kRecordHeaderSize_eq] at _h
    omega

theorem recordPayload_slice (buf : Bytes) (pos : Nat) (hdr : RecordHeader) :
    slice buf (pos + kRecordHeaderSize) hdr.payloadSize.toNat =
      recordPayload (buf.drop pos) hdr := by
  rw [slice, recordPayload, List.drop_drop]

theorem WalReader.scanAt_reads (target : Target) (segId : UInt32) (buf : Bytes) (pos : Nat)
    (run : Bool) (r : WalReader) :
    (WalReader.scanAt target segId buf pos run r).value = WalReader.scan segId buf pos run r ∧
      (WalReader.scanAt target segId buf pos run r).Within buf.length := by
  fun_induction WalReader.scan segId buf pos run r with
  | case1 pos run r hle hdr hok rr ih =>
    obtain ⟨hdecode, hwithin⟩ := decodeRecordAt_reads target (Nat.le_of_add_right_le hle)
    rw [hok] at hdecode
    rw [WalReader.scanAt, dif_pos hle, Reads.value_bind, Reads.within_bind, Reads.within_attach]
    dsimp only [Reads.value_attach]
    split
    · next hdr' hdec =>
      rw [hdecode, Except.ok.injEq] at hdec
      subst hdec
      obtain ⟨_, _, hrecord, hlen, _⟩ := decodeRecord_eq_ok_iff.mp hok
      rw [List.length_drop, kRecordOverhead_eq] at hlen
      have hcopy : (readRange buf (pos + kRecordHeaderSize) hdr.payloadSize.toNat).Within
          buf.length := readRange_within buf (by rw [kRecordHeaderSize_eq] at hle ⊢; omega)
      have hpayload : (readRange buf (pos + kRecordHeaderSize) hdr.payloadSize.toNat).value =
          recordPayload (buf.drop pos) hdr := recordPayload_slice buf pos hdr
      rw [Reads.value_bind, Reads.within_bind, hpayload]
      exact ⟨ih.1, hwithin, hcopy, ih.2⟩
    · next hdec =>
      rw [hdecode] at hdec
      cases hdec
  | case2 pos run r hle err herr ih =>
    obtain ⟨hdecode, hwithin⟩ := decodeRecordAt_reads target (Nat.le_of_add_right_le hle)
    rw [herr] at hdecode
    rw [WalReader.scanAt, dif_pos hle, Reads.value_bind, Reads.within_bind, Reads.within_attach]
    dsimp only [Reads.value_attach]
    split
    · next hdec =>
      rw [hdecode] at hdec
      cases hdec
    · exact ⟨ih.1, hwithin, ih.2⟩
  | case3 pos run r hle hlt =>
    rw [WalReader.scanAt, dif_neg hle, if_pos hlt]
    exact ⟨rfl, Reads.within_pure _ _⟩
  | case4 pos run r hle hlt =>
    rw [WalReader.scanAt, dif_neg hle, if_neg hlt]
    exact ⟨rfl, Reads.within_pure _ _⟩

open Protocol (decodeHeaderAt decodeHeaderAt_value decodeHeaderAt_within kFrameOverhead
  decodeHeader_eq_ok_iff decodeHeader_ne_lengthOverflow)

/-- The sizes that the parsers trust are bounded by the buffer before anything behind
them is read. -/
theorem parsers_stay_inside (target : Target) (buf : Bytes) :
    ((decodeHeaderAt target buf 0 buf.length).Within buf.length ∧
      (decodeHeaderAt target buf 0 buf.length).value ≠ .error .lengthOverflow ∧
      ∀ h, (decodeHeaderAt target buf 0 buf.length).value = .ok h →
        kFrameOverhead + h.payloadSize.toNat ≤ buf.length) ∧
    (∀ pos ≤ buf.length, (decodeRecordAt target buf pos (buf.length - pos)).Within buf.length ∧
      ∀ h, (decodeRecordAt target buf pos (buf.length - pos)).value = .ok h →
        h.recordLength.toNat = kRecordOverhead + h.payloadSize.toNat ∧
          pos + h.recordLength.toNat ≤ buf.length) ∧
    ∀ segId r, (WalReader.scanAt target segId buf 0 false r).Within buf.length := by
  refine ⟨⟨?_, ?_, ?_⟩, ?_, ?_⟩
  · exact decodeHeaderAt_within target buf (Nat.zero_add buf.length).le
  · rw [decodeHeaderAt_value target (Nat.zero_add buf.length)]
    exact decodeHeader_ne_lengthOverflow _
  · intro h hok
    rw [decodeHeaderAt_value target (Nat.zero_add buf.length)] at hok
    exact (decodeHeader_eq_ok_iff.mp hok).2.2.2.2.2.1
  · intro pos hpos
    obtain ⟨hdecode, hwithin⟩ := decodeRecordAt_reads target hpos
    refine ⟨hwithin, fun h hok => ?_⟩
    rw [hdecode] at hok
    obtain ⟨_, _, hrecord, hlen, _⟩ := decodeRecord_eq_ok_iff.mp hok
    rw [List.length_drop] at hlen
    exact ⟨hrecord, by omega⟩
  · exact fun segId r => (WalReader.scanAt_reads target segId buf 0 false r).2

end SensorForge.Replay
