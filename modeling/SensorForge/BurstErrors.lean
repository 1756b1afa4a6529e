import SensorForge.RecordCodec

/-! Both formats refuse every change of one to four consecutive bytes. The frame's
two checksums divide the buffer between them; the record's trailer covers all of it,
once the two length fields are seen to agree. -/

namespace SensorForge

open Protocol Replay

theorem getU32_congr {p q : Bytes} (h : ∀ i < 4, p[i]? = q[i]?) : getU32 p = getU32 q := by
  simp only [getU32, List.getD_eq_getElem?_getD, h 0 (by omega), h 1 (by omega), h 2 (by omega),
    h 3 (by omega)]

theorem frame_burst_refused {h : FrameHeader} {payload modified : Bytes} (hd : h.Describes payload)
    (hb : Crc.Burst 4 (h.frame payload) modified) :
    ∃ err, decodeHeader modified = .error err := by
  cases hok : decodeHeader modified with
  | error err => exact ⟨err, rfl⟩
  | ok h' =>
    exfalso
    have horig : decodeHeader (h.frame payload) = .ok h := by
      simpa using decodeHeader_frame hd []
    obtain ⟨hread, _, _, _, _, hlen, hcrc, _⟩ := decodeHeader_eq_ok_iff.mp horig
    obtain ⟨hread', _, _, _, _, hlen', hcrc', hpc'⟩ := decodeHeader_eq_ok_iff.mp hok
    rw [kFrameOverhead_eq] at hlen hlen'
    have hword : crcRegister ((h.frame payload).take 40) = crcResidue :=
      (crc32c_trailer_iff (by omega)).mp hcrc
    have hword' : crcRegister (modified.take 40) = crcResidue :=
      (crc32c_trailer_iff (by omega)).mp hcrc'
    by_cases htake : (h.frame payload).take 40 = modified.take 40
    · -- the header is untouched, so the payload is not
      have hh : h' = h := by
        rw [hread, hread', ← FrameHeader.read_take (n := 40) (by omega) (by omega : 40 ≤ modified.length),
          ← htake, FrameHeader.read_take (by omega) (by omega)]
      subst hh
      have hdrop : (h'.frame payload).drop 40 ≠ modified.drop 40 := by
        intro he
        apply hb.ne
        rw [← List.take_append_drop 40 (h'.frame payload), htake, he, List.take_append_drop]
      have hpay : payload = (h'.frame payload).drop 40 := rfl
      have hpay' : payloadOf modified h' = modified.drop 40 := by
        rw [payloadOf, kFrameOverhead_eq, List.take_of_length_le]
        have hl := hb.length_eq
        rw [FrameHeader.frame] at hl
        simp only [List.length_append, FrameHeader.bytes_length, putU32_length] at hl
        rw [List.length_drop, hd.payloadSize]
        omega
      have hx := crcRegister_ne (hb.drop 40 hdrop)
      rw [← hpay, ← hpay'] at hx
      exact hx (crc32c_inj (hd.payloadCrc.symm.trans hpc'.symm))
    · exact crcRegister_ne (hb.take 40 htake) (hword.trans hword'.symm)

/-- No window of four bytes reaches both length fields, and each determines the other. -/
theorem payloadSize_of_burst {data modified : Bytes} (hb : Crc.Burst 4 data modified)
    (hd : (RecordHeader.read data).recordLength.toNat =
      34 + (RecordHeader.read data).payloadSize.toNat)
    (hm : (RecordHeader.read modified).recordLength.toNat =
      34 + (RecordHeader.read modified).payloadSize.toNat) :
    (RecordHeader.read modified).payloadSize.toNat =
      (RecordHeader.read data).payloadSize.toNat := by
  obtain ⟨start, hw⟩ := hb.window
  have hfield : ∀ off, (∀ i < 4, ¬ (start ≤ off + i ∧ off + i < start + 4)) →
      getU32 (data.drop off) = getU32 (modified.drop off) := by
    intro off hout
    apply getU32_congr
    intro i hi
    rw [List.getElem?_drop, List.getElem?_drop]
    by_contra hne
    exact hout i hi (hw _ hne)
  by_cases hs : start < 4
  · have hsize : (RecordHeader.read data).payloadSize = (RecordHeader.read modified).payloadSize :=
      hfield 22 fun i _ => by omega
    rw [hsize]
  · have hlength : (RecordHeader.read data).recordLength =
        (RecordHeader.read modified).recordLength := hfield 0 fun i _ => by omega
    rw [← hlength] at hm
    omega

theorem record_burst_refused {h : RecordHeader} {payload modified : Bytes}
    (hd : h.Describes payload) (hb : Crc.Burst 4 (h.record payload) modified) :
    ∃ err, decodeRecord modified = .error err := by
  cases hok : decodeRecord modified with
  | error err => exact ⟨err, rfl⟩
  | ok h' =>
    exfalso
    have horig : decodeRecord (h.record payload) = .ok h := by
      simpa using decodeRecord_record hd []
    obtain ⟨hread, _, hm, hlen, _, hcrc⟩ := decodeRecord_eq_ok_iff.mp horig
    obtain ⟨hread', _, hm', hlen', _, hcrc'⟩ := decodeRecord_eq_ok_iff.mp hok
    rw [kRecordOverhead_eq] at hm hm' hlen hlen'
    have htotal : (h.record payload).length = 34 + h.payloadSize.toNat := by
      rw [RecordHeader.record_length, hd.payloadSize]
    have hsize : h'.payloadSize.toNat = h.payloadSize.toNat := by
      rw [hread, hread']
      exact payloadSize_of_burst hb (hread ▸ hm) (hread' ▸ hm')
    rw [hsize, kRecordHeaderSize_eq] at hcrc'
    rw [kRecordHeaderSize_eq] at hcrc
    have hlength := hb.length_eq
    have hword := (crc32c_trailer_iff (by omega)).mp hcrc
    have hword' := (crc32c_trailer_iff (by omega)).mp hcrc'
    rw [List.take_of_length_le (by omega)] at hword hword'
    exact crcRegister_ne hb (hword.trans hword'.symm)

/-- A frame or a record changed in at least one byte, and only inside a window of
four consecutive bytes, is refused. -/
theorem burst_refused :
    (∀ (sensorType : SensorType) (sequence timestampNs : UInt64) (flags : UInt16)
        (payload frame modified : Bytes),
      encodeFrame sensorType sequence timestampNs flags payload = .ok frame →
      Crc.Burst 4 frame modified → ∃ err, decodeHeader modified = .error err) ∧
    (∀ (timestampNs : UInt64) (sensorType : SensorType) (sequence : UInt64)
        (payload modified : Bytes), payload.length ≤ kMaxRecordPayload.toNat →
      Crc.Burst 4 (encodeRecord timestampNs sensorType sequence payload) modified →
      ∃ err, decodeRecord modified = .error err) := by
  constructor
  · intro sensorType sequence timestampNs flags payload frame modified hf hb
    have hp : payload.length ≤ kMaxPayload.toNat := by
      by_contra hp
      rw [encodeFrame_error _ _ _ _ hp] at hf
      cases hf
    rw [encodeFrame_eq _ _ _ _ hp, Except.ok.injEq] at hf
    subst hf
    exact frame_burst_refused (FrameHeader.of_describes _ _ _ _ hp) hb
  · intro timestampNs sensorType sequence payload modified hp hb
    rw [encodeRecord_eq] at hb
    exact record_burst_refused (RecordHeader.of_describes _ _ _ hp) hb

end SensorForge
