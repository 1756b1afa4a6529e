import SensorForge.Crc32c

/-! The binary frame format: `encodeFrame` and the stateless `decodeHeader`,
with the field offsets and the order of checks of the source. -/

namespace SensorForge.Protocol

open ByteOrder

def kMagic : UInt32 := 0x53464844
def kVersion : UInt16 := 0x0001
def kHeaderSize : UInt16 := 36
def kFrameOverhead : Nat := kHeaderSize.toNat + 4
def kMaxPayload : UInt32 := 4 * 1024 * 1024

def kFlagNone : UInt16 := 0
def kFlagCompressed : UInt16 := (1 : UInt16) <<< 1

/-- An enumeration over `uint16_t`: a header may carry any of its values, named or
not. -/
structure SensorType where
  code : UInt16
  deriving DecidableEq, Repr

namespace SensorType

def kUnknown : SensorType := ⟨0⟩
def kLidar : SensorType := ⟨1⟩
def kCamera : SensorType := ⟨2⟩
def kImu : SensorType := ⟨3⟩
def kGps : SensorType := ⟨4⟩
def kCan : SensorType := ⟨5⟩
def kControl : SensorType := ⟨6⟩

end SensorType

structure FrameHeader where
  magic : UInt32 := kMagic
  version : UInt16 := kVersion
  sensorType : SensorType := .kUnknown
  flags : UInt16 := kFlagNone
  headerSize : UInt16 := kHeaderSize
  sequence : UInt64 := 0
  timestampNs : UInt64 := 0
  payloadSize : UInt32 := 0
  payloadCrc32c : UInt32 := 0
  deriving DecidableEq, Repr

inductive FrameError
  | truncatedHeader
  | badMagic
  | unsupportedVersion
  | badHeaderSize
  | payloadTooLarge
  | lengthOverflow
  | truncatedPayload
  | headerCrcMismatch
  | payloadCrcMismatch
  | sequenceRegression
  | timestampRegression
  deriving DecidableEq, Repr

def kOffMagic : Nat := 0
def kOffVersion : Nat := 4
def kOffSensorType : Nat := 6
def kOffFlags : Nat := 8
def kOffHeaderSize : Nat := 10
def kOffSequence : Nat := 12
def kOffTimestamp : Nat := 20
def kOffPayloadSize : Nat := 28
def kOffPayloadCrc : Nat := 32
def kOffHeaderCrc : Nat := kHeaderSize.toNat

/-- `encodeFrame` over an implementation of the checksum. -/
def encodeFrameWith (crc : Bytes → UInt32) (sensorType : SensorType)
    (sequence timestampNs : UInt64) (flags : UInt16) (payload : Bytes) : Except String Bytes :=
  if payload.length > kMaxPayload.toNat then
    .error "SensorForge frame payload exceeds kMaxPayload"
  else
    let p := List.replicate (kFrameOverhead + payload.length) 0
    let p := overwrite p kOffMagic (putU32 kMagic)
    let p := overwrite p kOffVersion (putU16 kVersion)
    let p := overwrite p kOffSensorType (putU16 sensorType.code)
    let p := overwrite p kOffFlags (putU16 flags)
    let p := overwrite p kOffHeaderSize (putU16 kHeaderSize)
    let p := overwrite p kOffSequence (putU64 sequence)
    let p := overwrite p kOffTimestamp (putU64 timestampNs)
    let p := overwrite p kOffPayloadSize (putU32 payload.length.toUInt32)
    let p := overwrite p kOffPayloadCrc (putU32 (crc payload))
    let headerCrc := crc (p.take kHeaderSize.toNat)
    let p := overwrite p kOffHeaderCrc (putU32 headerCrc)
    .ok (overwrite p kFrameOverhead payload)

def encodeFrame : SensorType → UInt64 → UInt64 → UInt16 → Bytes → Except String Bytes :=
  encodeFrameWith crc32c

/-- The first check that fails decides the error. Lengths are `size_t`. -/
def decodeHeader (data : Bytes) : Except FrameError FrameHeader :=
  if data.length < kFrameOverhead then .error .truncatedHeader else
  let magic := getU32 (data.drop kOffMagic)
  if magic ≠ kMagic then .error .badMagic else
  let version := getU16 (data.drop kOffVersion)
  if version > kVersion then .error .unsupportedVersion else
  let sensorType : SensorType := ⟨getU16 (data.drop kOffSensorType)⟩
  let flags := getU16 (data.drop kOffFlags)
  let headerSize := getU16 (data.drop kOffHeaderSize)
  if headerSize ≠ kHeaderSize then .error .badHeaderSize else
  let sequence := getU64 (data.drop kOffSequence)
  let timestampNs := getU64 (data.drop kOffTimestamp)
  let payloadSize := getU32 (data.drop kOffPayloadSize)
  let payloadCrc32c := getU32 (data.drop kOffPayloadCrc)
  if payloadSize > kMaxPayload then .error .payloadTooLarge else
  let need := (kFrameOverhead + payloadSize.toNat) % 2 ^ 64
  if need < kFrameOverhead then .error .lengthOverflow else
  if data.length < need then .error .truncatedPayload else
  let storedHeaderCrc := getU32 (data.drop kOffHeaderCrc)
  if crc32c (data.take kHeaderSize.toNat) ≠ storedHeaderCrc then .error .headerCrcMismatch else
  let payloadCrc := crc32c ((data.drop kFrameOverhead).take payloadSize.toNat)
  if payloadCrc ≠ payloadCrc32c then .error .payloadCrcMismatch else
  .ok { magic, version, sensorType, flags, headerSize, sequence, timestampNs, payloadSize,
        payloadCrc32c }

def payloadOf (data : Bytes) (h : FrameHeader) : Bytes :=
  (data.drop kFrameOverhead).take h.payloadSize.toNat

def FrameHeader.bytes (h : FrameHeader) : Bytes :=
  putU32 h.magic ++ (putU16 h.version ++ (putU16 h.sensorType.code ++ (putU16 h.flags ++
    (putU16 h.headerSize ++ (putU64 h.sequence ++ (putU64 h.timestampNs ++
      (putU32 h.payloadSize ++ putU32 h.payloadCrc32c)))))))

def FrameHeader.frame (h : FrameHeader) (payload : Bytes) : Bytes :=
  h.bytes ++ (putU32 (crc32c h.bytes) ++ payload)

structure FrameHeader.Describes (h : FrameHeader) (payload : Bytes) : Prop where
  magic : h.magic = kMagic
  version : h.version ≤ kVersion
  headerSize : h.headerSize = kHeaderSize
  payloadSize : h.payloadSize.toNat = payload.length
  payloadBound : payload.length ≤ kMaxPayload.toNat
  payloadCrc : h.payloadCrc32c = crc32c payload

def FrameHeader.of (sensorType : SensorType) (sequence timestampNs : UInt64) (flags : UInt16)
    (payload : Bytes) : FrameHeader :=
  { sensorType, flags, sequence, timestampNs, payloadSize := payload.length.toUInt32,
    payloadCrc32c := crc32c payload }

@[simp] theorem kFrameOverhead_eq : kFrameOverhead = 40 := rfl

@[simp] theorem kHeaderSize_toNat : kHeaderSize.toNat = 36 := rfl

@[simp] theorem kMaxPayload_toNat : kMaxPayload.toNat = 4194304 := rfl

@[simp] theorem FrameHeader.bytes_length (h : FrameHeader) : h.bytes.length = 36 := rfl

theorem FrameHeader.of_describes (sensorType : SensorType) (sequence timestampNs : UInt64)
    (flags : UInt16) {payload : Bytes} (h : payload.length ≤ kMaxPayload.toNat) :
    (FrameHeader.of sensorType sequence timestampNs flags payload).Describes payload := by
  refine ⟨rfl, UInt16.le_refl _, rfl, ?_, h, rfl⟩
  simp only [FrameHeader.of, Nat.toUInt32, UInt32.toNat_ofNat']
  rw [kMaxPayload_toNat] at h
  omega

theorem overwrite_zeros {pre bs : Bytes} {off n k : Nat} (h : pre.length = off)
    (hn : bs.length = n) :
    overwrite (pre ++ List.replicate (n + k) 0) off bs = (pre ++ bs) ++ List.replicate k 0 := by
  subst hn
  rw [overwrite_append h]
  simp

theorem encodeFrame_eq (sensorType : SensorType) (sequence timestampNs : UInt64) (flags : UInt16)
    {payload : Bytes} (h : payload.length ≤ kMaxPayload.toNat) :
    encodeFrame sensorType sequence timestampNs flags payload =
      .ok ((FrameHeader.of sensorType sequence timestampNs flags payload).frame payload) := by
  have hz : List.replicate (kFrameOverhead + payload.length) (0 : UInt8) =
      [] ++ List.replicate (4 + (2 + (2 + (2 + (2 + (8 + (8 + (4 + (4 + (4 +
        (payload.length + 0))))))))))) 0 := by
    rw [kFrameOverhead_eq, List.nil_append]
    congr 1
    omega
  simp only [encodeFrame, encodeFrameWith, if_neg (Nat.not_lt.mpr h), hz]
  rw [overwrite_zeros, overwrite_zeros, overwrite_zeros, overwrite_zeros, overwrite_zeros,
    overwrite_zeros, overwrite_zeros, overwrite_zeros, overwrite_zeros, List.take_left',
    overwrite_zeros, overwrite_zeros]
  · simp [FrameHeader.frame, FrameHeader.bytes, FrameHeader.of, List.append_assoc]
  all_goals rfl

theorem encodeFrame_error (sensorType : SensorType) (sequence timestampNs : UInt64)
    (flags : UInt16) {payload : Bytes} (h : ¬ payload.length ≤ kMaxPayload.toNat) :
    encodeFrame sensorType sequence timestampNs flags payload =
      .error "SensorForge frame payload exceeds kMaxPayload" := by
  rw [encodeFrame, encodeFrameWith, if_pos (Nat.lt_of_not_le h)]

theorem ite_error_eq_ok {ε α : Type*} {c : Prop} [Decidable c] {e : ε} {x : Except ε α} {v : α} :
    (if c then .error e else x) = .ok v ↔ ¬ c ∧ x = .ok v := by
  by_cases hc : c <;> simp [hc]

def FrameHeader.read (data : Bytes) : FrameHeader :=
  { magic := getU32 (data.drop kOffMagic)
    version := getU16 (data.drop kOffVersion)
    sensorType := ⟨getU16 (data.drop kOffSensorType)⟩
    flags := getU16 (data.drop kOffFlags)
    headerSize := getU16 (data.drop kOffHeaderSize)
    sequence := getU64 (data.drop kOffSequence)
    timestampNs := getU64 (data.drop kOffTimestamp)
    payloadSize := getU32 (data.drop kOffPayloadSize)
    payloadCrc32c := getU32 (data.drop kOffPayloadCrc) }

@[simp] theorem FrameHeader.read_bytes (h : FrameHeader) (rest : Bytes) :
    FrameHeader.read (h.bytes ++ rest) = h := by
  simp [FrameHeader.read, FrameHeader.bytes, kOffMagic, kOffVersion, kOffSensorType, kOffFlags,
    kOffHeaderSize, kOffSequence, kOffTimestamp, kOffPayloadSize, kOffPayloadCrc]

theorem FrameHeader.bytes_read {data : Bytes} (h : 36 ≤ data.length) :
    (FrameHeader.read data).bytes ++ data.drop 36 = data := by
  simp only [FrameHeader.bytes, FrameHeader.read, List.append_assoc]
  have hle : ∀ k ≤ 36, k ≤ data.length := fun k hk => hk.trans h
  rw [putU32_getU32 data (show kOffPayloadCrc + 4 = 36 from rfl) h,
    putU32_getU32 data (show kOffPayloadSize + 4 = kOffPayloadCrc from rfl) (hle _ (by decide)),
    putU64_getU64 data (show kOffTimestamp + 8 = kOffPayloadSize from rfl) (hle _ (by decide)),
    putU64_getU64 data (show kOffSequence + 8 = kOffTimestamp from rfl) (hle _ (by decide)),
    putU16_getU16 data (show kOffHeaderSize + 2 = kOffSequence from rfl) (hle _ (by decide)),
    putU16_getU16 data (show kOffFlags + 2 = kOffHeaderSize from rfl) (hle _ (by decide)),
    putU16_getU16 data (show kOffSensorType + 2 = kOffFlags from rfl) (hle _ (by decide)),
    putU16_getU16 data (show kOffVersion + 2 = kOffSensorType from rfl) (hle _ (by decide)),
    putU32_getU32 data (show kOffMagic + 4 = kOffVersion from rfl) (hle _ (by decide))]
  rfl

theorem FrameHeader.read_take {data : Bytes} {n : Nat} (hn : 36 ≤ n) (h : n ≤ data.length) :
    FrameHeader.read (data.take n) = FrameHeader.read data := by
  have hlen : 36 ≤ (data.take n).length := by
    rw [List.length_take]
    omega
  have hbytes := FrameHeader.bytes_read hlen
  have hdata : data = (FrameHeader.read (data.take n)).bytes ++
      ((data.take n).drop 36 ++ data.drop n) := by
    rw [← List.append_assoc, hbytes, List.take_append_drop]
  conv_rhs => rw [hdata]
  rw [FrameHeader.read_bytes]

/-- Everything an accepted buffer satisfies, and nothing more: the overflow check
adds no condition. -/
theorem decodeHeader_eq_ok_iff {data : Bytes} {h : FrameHeader} :
    decodeHeader data = .ok h ↔
      h = FrameHeader.read data ∧ h.magic = kMagic ∧ h.version ≤ kVersion ∧
      h.headerSize = kHeaderSize ∧ h.payloadSize ≤ kMaxPayload ∧
      kFrameOverhead + h.payloadSize.toNat ≤ data.length ∧
      crc32c (data.take kHeaderSize.toNat) = getU32 (data.drop kOffHeaderCrc) ∧
      crc32c (payloadOf data h) = h.payloadCrc32c := by
  have hread : decodeHeader data = .ok h ↔
      ¬ data.length < kFrameOverhead ∧ ¬ (FrameHeader.read data).magic ≠ kMagic ∧
      ¬ (FrameHeader.read data).version > kVersion ∧
      ¬ (FrameHeader.read data).headerSize ≠ kHeaderSize ∧
      ¬ (FrameHeader.read data).payloadSize > kMaxPayload ∧
      ¬ (kFrameOverhead + (FrameHeader.read data).payloadSize.toNat) % 2 ^ 64 < kFrameOverhead ∧
      ¬ data.length < (kFrameOverhead + (FrameHeader.read data).payloadSize.toNat) % 2 ^ 64 ∧
      ¬ crc32c (data.take kHeaderSize.toNat) ≠ getU32 (data.drop kOffHeaderCrc) ∧
      ¬ crc32c (payloadOf data (FrameHeader.read data)) ≠ (FrameHeader.read data).payloadCrc32c ∧
      Except.ok (FrameHeader.read data) = (.ok h : Except FrameError FrameHeader) := by
    simp only [decodeHeader, ite_error_eq_ok]
    rfl
  rw [hread]
  have hneed : (kFrameOverhead + (FrameHeader.read data).payloadSize.toNat) % 2 ^ 64 =
      kFrameOverhead + (FrameHeader.read data).payloadSize.toNat := by
    have := (FrameHeader.read data).payloadSize.toNat_lt
    rw [kFrameOverhead_eq]
    omega
  rw [hneed]
  simp only [ne_eq, not_not, gt_iff_lt, UInt16.not_lt, UInt32.not_lt, not_lt, Except.ok.injEq]
  constructor
  · rintro ⟨_, hm, hv, hs, hp, _, hl, hc, hpc, rfl⟩
    exact ⟨rfl, hm, hv, hs, hp, hl, hc, hpc⟩
  · rintro ⟨rfl, hm, hv, hs, hp, hl, hc, hpc⟩
    exact ⟨by omega, hm, hv, hs, hp, by omega, hl, hc, hpc, rfl⟩

theorem payloadOf_frame {h : FrameHeader} {payload : Bytes} (hd : h.Describes payload)
    (trailing : Bytes) : payloadOf (h.frame payload ++ trailing) h = payload := by
  have hpre : (h.bytes ++ putU32 (crc32c h.bytes)).length = kFrameOverhead := rfl
  rw [payloadOf, FrameHeader.frame, ← List.append_assoc h.bytes, List.append_assoc,
    List.drop_left' hpre, List.take_left' hd.payloadSize.symm]

theorem decodeHeader_frame {h : FrameHeader} {payload : Bytes} (hd : h.Describes payload)
    (trailing : Bytes) : decodeHeader (h.frame payload ++ trailing) = .ok h := by
  have hdata : h.frame payload ++ trailing =
      h.bytes ++ (putU32 (crc32c h.bytes) ++ (payload ++ trailing)) := by
    simp [FrameHeader.frame, List.append_assoc]
  rw [decodeHeader_eq_ok_iff]
  refine ⟨?_, hd.magic, hd.version, hd.headerSize, ?_, ?_, ?_, ?_⟩
  · rw [hdata, FrameHeader.read_bytes]
  · rw [UInt32.le_iff_toNat_le, hd.payloadSize]
    exact hd.payloadBound
  · rw [hd.payloadSize, hdata]
    simp
    omega
  · rw [hdata, List.take_left' (show h.bytes.length = kHeaderSize.toNat from rfl),
      List.drop_left' (show h.bytes.length = kOffHeaderCrc from rfl), getU32_putU32]
  · rw [payloadOf_frame hd, hd.payloadCrc]

theorem decodeHeader_ok {data : Bytes} {h : FrameHeader} (hok : decodeHeader data = .ok h) :
    h.Describes (payloadOf data h) ∧
      data = h.frame (payloadOf data h) ++ data.drop (kFrameOverhead + h.payloadSize.toNat) := by
  obtain ⟨hread, hm, hv, hs, hp, hl, hc, hpc⟩ := decodeHeader_eq_ok_iff.mp hok
  rw [kFrameOverhead_eq] at hl
  have hlen : (payloadOf data h).length = h.payloadSize.toNat := by
    simp [payloadOf]
    omega
  have hbytes : h.bytes ++ data.drop 36 = data := by
    rw [hread]
    exact FrameHeader.bytes_read (by omega)
  have htake : data.take kHeaderSize.toNat = h.bytes := by
    rw [← hbytes]
    exact List.take_left' rfl
  have hcrc : putU32 (crc32c h.bytes) ++ data.drop 40 = data.drop 36 := by
    rw [← htake, hc]
    exact putU32_getU32 data rfl (by omega)
  have hsplit : payloadOf data h ++ data.drop (40 + h.payloadSize.toNat) = data.drop 40 := by
    rw [← List.drop_drop]
    exact List.take_append_drop _ _
  refine ⟨⟨hm, hv, hs, hlen.symm, ?_, hpc.symm⟩, ?_⟩
  · rw [hlen]
    exact UInt32.le_iff_toNat_le.mp hp
  · rw [kFrameOverhead_eq, FrameHeader.frame, List.append_assoc, List.append_assoc, hsplit, hcrc,
      hbytes]

theorem FrameHeader.Describes.of_eq {h : FrameHeader} {payload : Bytes} (hd : h.Describes payload)
    (hv : h.version = kVersion) :
    FrameHeader.of h.sensorType h.sequence h.timestampNs h.flags payload = h := by
  have hsize : payload.length.toUInt32 = h.payloadSize := by
    rw [← hd.payloadSize]
    exact UInt32.ofNat_toNat
  obtain ⟨hmagic, _, hheader, _, _, hcrc⟩ := hd
  cases h
  simp only [FrameHeader.of, FrameHeader.mk.injEq]
  exact ⟨hmagic.symm, hv.symm, trivial, trivial, hheader.symm, trivial, trivial, hsize, hcrc.symm⟩

/-- Both directions of the codec: what is encoded decodes field for field, and an
accepted buffer of this version is the encoding of what was decoded from it. -/
theorem frameCodec_exact :
    (∀ (sensorType : SensorType) (sequence timestampNs : UInt64) (flags : UInt16)
        (payload trailing : Bytes), payload.length ≤ kMaxPayload.toNat →
      ∃ frame, encodeFrame sensorType sequence timestampNs flags payload = .ok frame ∧
        decodeHeader (frame ++ trailing) = .ok
          { magic := kMagic, version := kVersion, sensorType, flags, headerSize := kHeaderSize,
            sequence, timestampNs, payloadSize := payload.length.toUInt32,
            payloadCrc32c := crc32c payload } ∧
        payload.length.toUInt32.toNat = payload.length ∧
        ((frame ++ trailing).drop kFrameOverhead).take payload.length = payload) ∧
    (∀ (data : Bytes) (h : FrameHeader), decodeHeader data = .ok h → h.version = kVersion →
      encodeFrame h.sensorType h.sequence h.timestampNs h.flags (payloadOf data h) =
        .ok (data.take (kFrameOverhead + h.payloadSize.toNat))) := by
  constructor
  · intro sensorType sequence timestampNs flags payload trailing hp
    let h := FrameHeader.of sensorType sequence timestampNs flags payload
    have hd : h.Describes payload := FrameHeader.of_describes _ _ _ _ hp
    refine ⟨h.frame payload, encodeFrame_eq _ _ _ _ hp, decodeHeader_frame hd trailing,
      hd.payloadSize, ?_⟩
    have hpayload := payloadOf_frame hd trailing
    rwa [payloadOf, hd.payloadSize] at hpayload
  · intro data h hok hv
    obtain ⟨hd, hdata⟩ := decodeHeader_ok hok
    have hlen : (h.frame (payloadOf data h)).length = kFrameOverhead + h.payloadSize.toNat := by
      rw [FrameHeader.frame, hd.payloadSize]
      simp
      omega
    have htake : data.take (kFrameOverhead + h.payloadSize.toNat) = h.frame (payloadOf data h) := by
      conv_lhs => rw [hdata]
      exact List.take_left' hlen
    rw [encodeFrame_eq _ _ _ _ hd.payloadBound, hd.of_eq hv, htake]

end SensorForge.Protocol
