import SensorForge.ParserReads

/-! One checksum on all targets, and what follows for bytes that are written on one and
validated on another. -/

namespace SensorForge

open ByteOrder Protocol Replay ReadTrace

def crc32cOn (target : Target) (data : Bytes) : UInt32 :=
  (crc32cAt target data 0 data.length).value

namespace Protocol

/-- `encodeFrame` as the given target runs it. -/
def encodeFrameOn (target : Target) :
    SensorType → UInt64 → UInt64 → UInt16 → Bytes → Except String Bytes :=
  encodeFrameWith (crc32cOn target)

end Protocol

namespace Replay

/-- `encodeRecord` as the given target runs it. -/
def encodeRecordOn (target : Target) : UInt64 → SensorType → UInt64 → Bytes → Bytes :=
  encodeRecordWith (crc32cOn target)

end Replay

theorem slice_whole (data : Bytes) : slice data 0 data.length = data := by
  rw [slice, List.drop_zero, List.take_length]

theorem crc32cOn_eq (target : Target) (data : Bytes) : crc32cOn target data = crc32c data := by
  rw [crc32cOn, crc32cAt_value target (Nat.zero_add data.length).le, slice_whole]

theorem encodeFrameOn_eq (target : Target) : encodeFrameOn target = encodeFrame := by
  rw [encodeFrameOn, funext (crc32cOn_eq target), encodeFrame]

theorem encodeRecordOn_eq (target : Target) : encodeRecordOn target = encodeRecord := by
  rw [encodeRecordOn, funext (crc32cOn_eq target), encodeRecord]

/-- Every implementation returns the bit-serial register, so that what is written on
`writer` is accepted on `reader`. -/
theorem crc32c_targets_agree :
    (∀ (crc : UInt32) (data : Bytes),
      (crc32cHwX86 crc data 0 data.length).value = crc32cSerial crc data ∧
      (crc32cHwArm crc data 0 data.length).value = crc32cSerial crc data ∧
      (crc32cSoftwareAt crc data 0 data.length).value = crc32cSerial crc data) ∧
    ∀ writer reader : Target, (∀ data, crc32cOn writer data = crc32cOn reader data) ∧
      (∀ sensorType sequence timestampNs flags payload frame,
        encodeFrameOn writer sensorType sequence timestampNs flags payload = .ok frame →
        (decodeHeaderAt reader frame 0 frame.length).value =
          .ok (.of sensorType sequence timestampNs flags payload)) ∧
      ∀ segId (calls : List AppendCall), (∀ c ∈ calls, c.fits = true) → ∀ log,
        log = calls.flatMap (fun c =>
          encodeRecordOn writer c.timestampNs c.sensorType c.sequence c.payload) →
        (WalReader.scanAt reader segId log 0 false {}).value.records =
          calls.map AppendCall.record := by
  refine ⟨fun crc data => ⟨?_, ?_, ?_⟩, fun writer reader => ⟨fun data => ?_, ?_, ?_⟩⟩
  · rw [crc32cHwX86_value crc (Nat.zero_add data.length).le, slice_whole, crc32cSerial_eq]
  · rw [crc32cHwArm_value crc (Nat.zero_add data.length).le, slice_whole, crc32cSerial_eq]
  · rw [crc32cSoftwareAt_value crc (Nat.zero_add data.length).le, slice_whole, crc32cSerial_eq]
  · rw [crc32cOn_eq, crc32cOn_eq]
  · intro sensorType sequence timestampNs flags payload frame hframe
    rw [encodeFrameOn_eq] at hframe
    rw [decodeHeaderAt_value reader (Nat.zero_add frame.length), List.drop_zero]
    by_cases hfits : payload.length ≤ kMaxPayload.toNat
    · rw [encodeFrame_eq sensorType sequence timestampNs flags hfits, Except.ok.injEq] at hframe
      have hdecode := decodeHeader_frame
        (FrameHeader.of_describes sensorType sequence timestampNs flags hfits) []
      rwa [List.append_nil, hframe] at hdecode
    · rw [encodeFrame_error _ _ _ _ hfits] at hframe
      cases hframe
  · intro segId calls hfits log hlog
    have himage : log = imageOf (calls.map AppendCall.record) := by
      rw [hlog, imageOf, List.flatMap_map]
      simp only [encodeRecordOn_eq, encodeRecord_eq]
      rfl
    have hvalid : ∀ rr ∈ calls.map AppendCall.record, rr.Valid := by
      intro rr hrr
      obtain ⟨c, hc, rfl⟩ := List.mem_map.mp hrr
      exact AppendCall.record_valid (hfits c hc)
    rw [(WalReader.scanAt_reads reader segId log 0 false {}).1, WalReader.scan_records, himage,
      acceptedFrom_image hvalid]
    rfl

end SensorForge
