import SensorForge.FrameCodec

/-! The write-ahead log record: `encodeRecord` and the pure `decodeRecord`, and the
record image that an accepted buffer starts with. -/

namespace SensorForge.Replay

open Protocol (SensorType ite_error_eq_ok)

def kRecordHeaderSize : Nat := 30
def kRecordTrailerSize : Nat := 4
def kRecordOverhead : Nat := kRecordHeaderSize + kRecordTrailerSize
def kMaxRecordPayload : UInt32 := 4 * 1024 * 1024
def kMaxRecordLength : Nat := kRecordOverhead + kMaxRecordPayload.toNat

structure RecordHeader where
  recordLength : UInt32 := 0
  timestampNs : UInt64 := 0
  sensorType : SensorType := .kUnknown
  sequence : UInt64 := 0
  payloadSize : UInt32 := 0
  payloadCrc32c : UInt32 := 0
  deriving DecidableEq, Repr

inductive RecordError
  | truncatedHeader
  | badLength
  | lengthMismatch
  | payloadTooLarge
  | truncatedRecord
  | payloadCrcMismatch
  | recordCrcMismatch
  deriving DecidableEq, Repr

/-- `encodeRecord` over an implementation of the checksum. The record is pushed back field
by field; nothing bounds the payload here. -/
def encodeRecordWith (crc : Bytes → UInt32) (timestampNs : UInt64) (sensorType : SensorType)
    (sequence : UInt64) (payload : Bytes) : Bytes :=
  let n := payload.length.toUInt32
  let recordLength := (kRecordOverhead + payload.length).toUInt32
  let out := putU32 recordLength
  let out := out ++ putU64 timestampNs
  let out := out ++ putU16 sensorType.code
  let out := out ++ putU64 sequence
  let out := out ++ putU32 n
  let out := out ++ putU32 (crc payload)
  let out := out ++ payload
  let recordCrc := crc out
  out ++ putU32 recordCrc

def encodeRecord : UInt64 → SensorType → UInt64 → Bytes → Bytes :=
  encodeRecordWith crc32c

/-- The header fields are read before any of them is checked. -/
def decodeRecord (data : Bytes) : Except RecordError RecordHeader :=
  if data.length < kRecordHeaderSize then .error .truncatedHeader else
  let recordLength := getU32 (data.drop 0)
  let timestampNs := getU64 (data.drop 4)
  let sensorType : SensorType := ⟨getU16 (data.drop 12)⟩
  let sequence := getU64 (data.drop 14)
  let payloadSize := getU32 (data.drop 22)
  let payloadCrc32c := getU32 (data.drop 26)
  if recordLength.toNat < kRecordOverhead ∨ recordLength.toNat > kMaxRecordLength then
    .error .badLength else
  if payloadSize > kMaxRecordPayload then .error .payloadTooLarge else
  if recordLength.toNat ≠ kRecordOverhead + payloadSize.toNat then .error .lengthMismatch else
  if data.length < recordLength.toNat then .error .truncatedRecord else
  let payload := data.drop kRecordHeaderSize
  let pc := crc32c (payload.take payloadSize.toNat)
  if pc ≠ payloadCrc32c then .error .payloadCrcMismatch else
  let crcOff := kRecordHeaderSize + payloadSize.toNat
  let storedRecordCrc := getU32 (data.drop crcOff)
  if crc32c (data.take crcOff) ≠ storedRecordCrc then .error .recordCrcMismatch else
  .ok { recordLength, timestampNs, sensorType, sequence, payloadSize, payloadCrc32c }

def recordPayload (data : Bytes) (h : RecordHeader) : Bytes :=
  (data.drop kRecordHeaderSize).take h.payloadSize.toNat

def RecordHeader.bytes (h : RecordHeader) : Bytes :=
  putU32 h.recordLength ++ (putU64 h.timestampNs ++ (putU16 h.sensorType.code ++
    (putU64 h.sequence ++ (putU32 h.payloadSize ++ putU32 h.payloadCrc32c))))

def RecordHeader.record (h : RecordHeader) (payload : Bytes) : Bytes :=
  h.bytes ++ payload ++ putU32 (crc32c (h.bytes ++ payload))

structure RecordHeader.Describes (h : RecordHeader) (payload : Bytes) : Prop where
  recordLength : h.recordLength.toNat = kRecordOverhead + payload.length
  payloadSize : h.payloadSize.toNat = payload.length
  payloadBound : payload.length ≤ kMaxRecordPayload.toNat
  payloadCrc : h.payloadCrc32c = crc32c payload

def RecordHeader.of (timestampNs : UInt64) (sensorType : SensorType) (sequence : UInt64)
    (payload : Bytes) : RecordHeader :=
  { recordLength := (kRecordOverhead + payload.length).toUInt32, timestampNs, sensorType, sequence,
    payloadSize := payload.length.toUInt32, payloadCrc32c := crc32c payload }

@[simp] theorem kRecordHeaderSize_eq : kRecordHeaderSize = 30 := rfl

@[simp] theorem kRecordOverhead_eq : kRecordOverhead = 34 := rfl

@[simp] theorem kMaxRecordPayload_toNat : kMaxRecordPayload.toNat = 4194304 := rfl

@[simp] theorem kMaxRecordLength_eq : kMaxRecordLength = 4194338 := rfl

@[simp] theorem RecordHeader.bytes_length (h : RecordHeader) : h.bytes.length = 30 := rfl

@[simp] theorem RecordHeader.record_length (h : RecordHeader) (payload : Bytes) :
    (h.record payload).length = 34 + payload.length := by
  simp [RecordHeader.record]
  omega

theorem RecordHeader.of_describes (timestampNs : UInt64) (sensorType : SensorType)
    (sequence : UInt64) {payload : Bytes} (h : payload.length ≤ kMaxRecordPayload.toNat) :
    (RecordHeader.of timestampNs sensorType sequence payload).Describes payload := by
  rw [kMaxRecordPayload_toNat] at h
  refine ⟨?_, ?_, h, rfl⟩ <;>
    simp only [RecordHeader.of, Nat.toUInt32, UInt32.toNat_ofNat', kRecordOverhead_eq] <;> omega

theorem encodeRecord_eq (timestampNs : UInt64) (sensorType : SensorType) (sequence : UInt64)
    (payload : Bytes) :
    encodeRecord timestampNs sensorType sequence payload =
      (RecordHeader.of timestampNs sensorType sequence payload).record payload := by
  simp [encodeRecord, encodeRecordWith, RecordHeader.record, RecordHeader.bytes, RecordHeader.of,
    List.append_assoc]

def RecordHeader.read (data : Bytes) : RecordHeader :=
  { recordLength := getU32 (data.drop 0)
    timestampNs := getU64 (data.drop 4)
    sensorType := ⟨getU16 (data.drop 12)⟩
    sequence := getU64 (data.drop 14)
    payloadSize := getU32 (data.drop 22)
    payloadCrc32c := getU32 (data.drop 26) }

@[simp] theorem RecordHeader.read_bytes (h : RecordHeader) (rest : Bytes) :
    RecordHeader.read (h.bytes ++ rest) = h := by
  simp [RecordHeader.read, RecordHeader.bytes]

theorem RecordHeader.bytes_read {data : Bytes} (h : 30 ≤ data.length) :
    (RecordHeader.read data).bytes ++ data.drop 30 = data := by
  simp only [RecordHeader.bytes, RecordHeader.read, List.append_assoc]
  rw [putU32_getU32 data rfl h, putU32_getU32 data rfl (by omega), putU64_getU64 data rfl (by omega),
    putU16_getU16 data rfl (by omega), putU64_getU64 data rfl (by omega),
    putU32_getU32 data rfl (by omega)]
  rfl

theorem decodeRecord_eq_ok_iff {data : Bytes} {h : RecordHeader} :
    decodeRecord data = .ok h ↔
      h = RecordHeader.read data ∧ h.payloadSize ≤ kMaxRecordPayload ∧
      h.recordLength.toNat = kRecordOverhead + h.payloadSize.toNat ∧
      kRecordOverhead + h.payloadSize.toNat ≤ data.length ∧
      crc32c (recordPayload data h) = h.payloadCrc32c ∧
      crc32c (data.take (kRecordHeaderSize + h.payloadSize.toNat)) =
        getU32 (data.drop (kRecordHeaderSize + h.payloadSize.toNat)) := by
  have hread : decodeRecord data = .ok h ↔
      ¬ data.length < kRecordHeaderSize ∧
      ¬ ((RecordHeader.read data).recordLength.toNat < kRecordOverhead ∨
        (RecordHeader.read data).recordLength.toNat > kMaxRecordLength) ∧
      ¬ (RecordHeader.read data).payloadSize > kMaxRecordPayload ∧
      ¬ (RecordHeader.read data).recordLength.toNat ≠
        kRecordOverhead + (RecordHeader.read data).payloadSize.toNat ∧
      ¬ data.length < (RecordHeader.read data).recordLength.toNat ∧
      ¬ crc32c (recordPayload data (RecordHeader.read data)) ≠
        (RecordHeader.read data).payloadCrc32c ∧
      ¬ crc32c (data.take (kRecordHeaderSize + (RecordHeader.read data).payloadSize.toNat)) ≠
        getU32 (data.drop (kRecordHeaderSize + (RecordHeader.read data).payloadSize.toNat)) ∧
      Except.ok (RecordHeader.read data) = (.ok h : Except RecordError RecordHeader) := by
    simp only [decodeRecord, ite_error_eq_ok]
    rfl
  rw [hread]
  simp only [ne_eq, not_not, gt_iff_lt, UInt32.not_lt, not_lt, not_or, Except.ok.injEq]
  constructor
  · rintro ⟨_, _, hp, hm, hl, hpc, hrc, rfl⟩
    exact ⟨rfl, hp, hm, hm ▸ hl, hpc, hrc⟩
  · rintro ⟨rfl, hp, hm, hl, hpc, hrc⟩
    have hb := UInt32.le_iff_toNat_le.mp hp
    rw [kMaxRecordPayload_toNat] at hb
    rw [kRecordOverhead_eq] at hm hl
    refine ⟨?_, ⟨?_, ?_⟩, hp, hm, ?_, hpc, hrc, rfl⟩
    · rw [kRecordHeaderSize_eq]
      omega
    · rw [kRecordOverhead_eq]
      omega
    · rw [kMaxRecordLength_eq]
      omega
    · omega

theorem recordPayload_record {h : RecordHeader} {payload : Bytes} (hd : h.Describes payload)
    (trailing : Bytes) : recordPayload (h.record payload ++ trailing) h = payload := by
  rw [recordPayload, RecordHeader.record, List.append_assoc, List.append_assoc,
    List.drop_left' (show h.bytes.length = kRecordHeaderSize from rfl),
    List.take_left' hd.payloadSize.symm]

theorem decodeRecord_record {h : RecordHeader} {payload : Bytes} (hd : h.Describes payload)
    (trailing : Bytes) : decodeRecord (h.record payload ++ trailing) = .ok h := by
  have hdata : h.record payload ++ trailing =
      h.bytes ++ (payload ++ (putU32 (crc32c (h.bytes ++ payload)) ++ trailing)) := by
    simp [RecordHeader.record, List.append_assoc]
  have hpre : (h.bytes ++ payload).length = kRecordHeaderSize + h.payloadSize.toNat := by
    simp [hd.payloadSize]
  rw [decodeRecord_eq_ok_iff]
  refine ⟨?_, ?_, ?_, ?_, ?_, ?_⟩
  · rw [hdata, RecordHeader.read_bytes]
  · rw [UInt32.le_iff_toNat_le, hd.payloadSize]
    exact hd.payloadBound
  · rw [hd.recordLength, hd.payloadSize]
  · rw [hd.payloadSize]
    simp
  · rw [recordPayload_record hd, hd.payloadCrc]
  · rw [hdata, ← List.append_assoc, List.take_left' hpre, List.drop_left' hpre, getU32_putU32]

theorem decodeRecord_ok {data : Bytes} {h : RecordHeader} (hok : decodeRecord data = .ok h) :
    h.Describes (recordPayload data h) ∧
      data = h.record (recordPayload data h) ++ data.drop h.recordLength.toNat := by
  obtain ⟨hread, hp, hm, hl, hpc, hrc⟩ := decodeRecord_eq_ok_iff.mp hok
  rw [kRecordOverhead_eq] at hl hm
  have hlen : (recordPayload data h).length = h.payloadSize.toNat := by
    simp [recordPayload]
    omega
  have hbytes : h.bytes ++ data.drop 30 = data := by
    rw [hread]
    exact RecordHeader.bytes_read (by omega)
  have hsplit : recordPayload data h ++ data.drop (30 + h.payloadSize.toNat) = data.drop 30 := by
    rw [← List.drop_drop]
    exact List.take_append_drop _ _
  have hwhole : data = (h.bytes ++ recordPayload data h) ++ data.drop (30 + h.payloadSize.toNat) := by
    rw [List.append_assoc, hsplit, hbytes]
  have htake : data.take (kRecordHeaderSize + h.payloadSize.toNat) =
      h.bytes ++ recordPayload data h := by
    conv_lhs => rw [hwhole]
    exact List.take_left' (by simp [hlen])
  have hcrc : putU32 (crc32c (h.bytes ++ recordPayload data h)) ++ data.drop h.recordLength.toNat =
      data.drop (30 + h.payloadSize.toNat) := by
    rw [← htake, hrc]
    exact putU32_getU32 data (by rw [hm, kRecordHeaderSize_eq]; omega) (by omega)
  refine ⟨⟨?_, hlen.symm, ?_, hpc.symm⟩, ?_⟩
  · rw [hlen, hm, kRecordOverhead_eq]
  · rw [hlen]
    exact UInt32.le_iff_toNat_le.mp hp
  · conv_lhs => rw [hwhole, ← hcrc]
    simp [RecordHeader.record, List.append_assoc]

theorem RecordHeader.Describes.eq_of {h : RecordHeader} {payload : Bytes}
    (hd : h.Describes payload) :
    h = RecordHeader.of h.timestampNs h.sensorType h.sequence payload := by
  have hof := RecordHeader.of_describes h.timestampNs h.sensorType h.sequence hd.payloadBound
  have hlength : h.recordLength =
      (RecordHeader.of h.timestampNs h.sensorType h.sequence payload).recordLength :=
    UInt32.toNat_inj.mp (hd.recordLength.trans hof.recordLength.symm)
  have hsize : h.payloadSize =
      (RecordHeader.of h.timestampNs h.sensorType h.sequence payload).payloadSize :=
    UInt32.toNat_inj.mp (hd.payloadSize.trans hof.payloadSize.symm)
  cases h
  rw [RecordHeader.of, RecordHeader.mk.injEq]
  exact ⟨hlength, rfl, rfl, rfl, hsize, hd.payloadCrc⟩

/-- What is encoded is decoded, whatever follows it, and nothing else is accepted. -/
theorem record_codec_exact :
    (∀ (timestampNs : UInt64) (sensorType : SensorType) (sequence : UInt64)
      (payload trailing : Bytes), payload.length ≤ kMaxRecordPayload.toNat →
      ∃ h, decodeRecord (encodeRecord timestampNs sensorType sequence payload ++ trailing) = .ok h ∧
        h.timestampNs = timestampNs ∧ h.sensorType = sensorType ∧ h.sequence = sequence ∧
        h.payloadSize.toNat = payload.length ∧ h.payloadCrc32c = crc32c payload ∧
        h.recordLength.toNat = 34 + payload.length ∧
        ((encodeRecord timestampNs sensorType sequence payload ++ trailing).drop 30).take
          h.payloadSize.toNat = payload) ∧
    ∀ (data : Bytes) (h : RecordHeader), decodeRecord data = .ok h →
      encodeRecord h.timestampNs h.sensorType h.sequence (recordPayload data h) <+: data := by
  constructor
  · intro timestampNs sensorType sequence payload trailing hbound
    have hd := RecordHeader.of_describes timestampNs sensorType sequence hbound
    rw [encodeRecord_eq]
    exact ⟨_, decodeRecord_record hd trailing, rfl, rfl, rfl, hd.payloadSize, rfl,
      hd.recordLength, recordPayload_record hd trailing⟩
  · intro data h hok
    obtain ⟨hd, hdata⟩ := decodeRecord_ok hok
    have himage : encodeRecord h.timestampNs h.sensorType h.sequence (recordPayload data h) =
        h.record (recordPayload data h) := by
      rw [encodeRecord_eq, ← hd.eq_of]
    exact ⟨data.drop h.recordLength.toNat, by rw [himage, ← hdata]⟩

end SensorForge.Replay
