import SensorForge.BitErrors
import SensorForge.RecordCodec

/-! Both formats refuse what differs from a frame or a record in one to three bits. CRC32C repeats
itself after 2^31 - 1 bits, which is more than either may have. -/

namespace SensorForge

open BitFlips Protocol Replay

theorem kPoly_parity : Crc.parity kPoly.toBitVec = true := by decide +kernel

theorem kPoly_cycle :
    (Crc.double kPoly.toBitVec)^[31] (Crc.bitStep kPoly.toBitVec (Crc.top 32)) =
      Crc.bitStep kPoly.toBitVec (Crc.top 32) := by
  have h10 : (Crc.double kPoly.toBitVec)^[10] (Crc.bitStep kPoly.toBitVec (Crc.top 32)) =
      3103633895#32 := by decide +kernel
  have h20 : (Crc.double kPoly.toBitVec)^[10] 3103633895#32 = 4182139147#32 := by decide +kernel
  have h31 : (Crc.double kPoly.toBitVec)^[11] 4182139147#32 =
      Crc.bitStep kPoly.toBitVec (Crc.top 32) := by decide +kernel
  calc (Crc.double kPoly.toBitVec)^[11 + (10 + 10)] (Crc.bitStep kPoly.toBitVec (Crc.top 32))
      = (Crc.double kPoly.toBitVec)^[11] ((Crc.double kPoly.toBitVec)^[10]
          ((Crc.double kPoly.toBitVec)^[10] (Crc.bitStep kPoly.toBitVec (Crc.top 32)))) := by
        rw [Function.iterate_add_apply, Function.iterate_add_apply]
    _ = _ := by rw [h10, h20, h31]

theorem crc_period :
    Function.minimalPeriod (Crc.bitStep kPoly.toBitVec) 1#32 = 2 ^ 31 - 1 := by
  have hprime : (mersenne 31).Prime := lucas_lehmer_sufficiency _ (by decide) (by norm_num)
  exact Crc.minimalPeriod_eq hprime rfl kPoly_msb kPoly_cycle (by decide)

theorem crcRegister_ne_of_few {as bs : Bytes} (h : Crc.FewFlips as bs)
    (hlen : as.length < 2 ^ 28) : crcRegister as ≠ crcRegister bs := by
  refine h.feed_ne (by decide) kPoly_msb kPoly_parity _ ?_
  rw [crc_period]
  omega

/-- The header of a frame is followed by its payload, and each has a checksum. -/
theorem frame_flips_refused {h : FrameHeader} {payload modified : Bytes} (hd : h.Describes payload)
    (hl : modified.length = (h.frame payload).length)
    (hflips : Crc.FewFlips ((h.frame payload).take 40) (modified.take 40) ∨
      (h.frame payload).take 40 = modified.take 40 ∧ Crc.FewFlips payload (modified.drop 40)) :
    ∃ err, decodeHeader modified = .error err := by
  cases hok : decodeHeader modified with
  | error err => exact ⟨err, rfl⟩
  | ok h' =>
    exfalso
    have horig : decodeHeader (h.frame payload) = .ok h := by
      simpa using decodeHeader_frame hd []
    obtain ⟨hread, _, _, _, _, hlen, hcrc, _⟩ := decodeHeader_eq_ok_iff.mp horig
    obtain ⟨hread', _, _, _, _, hlen', hcrc', hpc'⟩ := decodeHeader_eq_ok_iff.mp hok
    rw [kFrameOverhead_eq] at hlen hlen'
    rcases hflips with hheader | ⟨htake, hpayload⟩
    · have hword : crcRegister ((h.frame payload).take 40) = crcResidue :=
        (crc32c_trailer_iff (by omega)).mp hcrc
      have hword' : crcRegister (modified.take 40) = crcResidue :=
        (crc32c_trailer_iff (by omega)).mp hcrc'
      have hshort : ((h.frame payload).take 40).length < 2 ^ 28 := by
        rw [List.length_take]
        omega
      exact crcRegister_ne_of_few hheader hshort (hword.trans hword'.symm)
    · have hh : h' = h := by
        rw [hread, hread', ← FrameHeader.read_take (n := 40) (by omega)
          (by omega : 40 ≤ modified.length), ← htake, FrameHeader.read_take (by omega) (by omega)]
      subst hh
      have hpay' : payloadOf modified h' = modified.drop 40 := by
        rw [payloadOf, kFrameOverhead_eq, List.take_of_length_le]
        rw [hd.payloadSize, hpayload.length_eq]
      have hshort : payload.length < 2 ^ 28 := hd.payloadBound.trans_lt (by decide)
      have hx := crcRegister_ne_of_few hpayload hshort
      rw [← hpay'] at hx
      exact hx (crc32c_inj (hd.payloadCrc.symm.trans hpc'.symm))

/-- A change that leaves one of the two length fields is seen by the trailer. -/
theorem record_flips_refused {h : RecordHeader} {payload modified : Bytes} (hd : h.Describes payload)
    (hflips : Crc.FewFlips (h.record payload) modified)
    (hfield : (RecordHeader.read modified).recordLength = h.recordLength ∨
      (RecordHeader.read modified).payloadSize = h.payloadSize) :
    ∃ err, decodeRecord modified = .error err := by
  cases hok : decodeRecord modified with
  | error err => exact ⟨err, rfl⟩
  | ok h' =>
    exfalso
    have horig : decodeRecord (h.record payload) = .ok h := by
      simpa using decodeRecord_record hd []
    obtain ⟨_, _, hm, hlen, _, hcrc⟩ := decodeRecord_eq_ok_iff.mp horig
    obtain ⟨hread', _, hm', hlen', _, hcrc'⟩ := decodeRecord_eq_ok_iff.mp hok
    rw [kRecordOverhead_eq] at hm hm' hlen hlen'
    have hsize : h'.payloadSize.toNat = h.payloadSize.toNat := by
      rw [← hread'] at hfield
      rcases hfield with hrecord | hpayload
      · rw [hrecord] at hm'
        omega
      · rw [hpayload]
    have htotal : (h.record payload).length = 34 + h.payloadSize.toNat := by
      rw [RecordHeader.record_length, hd.payloadSize]
    have hlength := hflips.length_eq
    rw [hsize, kRecordHeaderSize_eq] at hcrc'
    rw [kRecordHeaderSize_eq] at hcrc
    have hword := (crc32c_trailer_iff (by omega)).mp hcrc
    have hword' := (crc32c_trailer_iff (by omega)).mp hcrc'
    rw [List.take_of_length_le (by omega)] at hword hword'
    have hshort : (h.record payload).length < 2 ^ 28 := by
      have hbound : kMaxRecordPayload.toNat < 2 ^ 28 - 34 := by decide
      have hle := hd.payloadBound
      rw [← hd.payloadSize] at hle
      omega
    exact crcRegister_ne_of_few hflips hshort (hword.trans hword'.symm)

/-- A change of a frame that one of its two checksums is bound to see. -/
structure FewFrameFlips (frame modified : Bytes) : Prop where
  length_eq : modified.length = frame.length
  ne : frame ≠ modified
  few : (differing frame modified).card ≤ 3 ∨
    Odd (differing (frame.take 40) (modified.take 40)).card ∨
    frame.take 40 = modified.take 40 ∧ Odd (differing frame modified).card

theorem FewFrameFlips.refused {h : FrameHeader} {payload modified : Bytes}
    (hd : h.Describes payload) (hf : FewFrameFlips (h.frame payload) modified) :
    ∃ err, decodeHeader modified = .error err := by
  have hlen : ((h.frame payload).take 40).length = (modified.take 40).length := by
    rw [List.length_take, List.length_take, hf.length_eq]
  by_cases htake : (h.frame payload).take 40 = modified.take 40
  · have hpay : payload = (h.frame payload).drop 40 := rfl
    have hdrop : payload ≠ modified.drop 40 := by
      intro heq
      apply hf.ne
      rw [← List.take_append_drop 40 (h.frame payload), htake, ← hpay, heq, List.take_append_drop]
    have hlen' : payload.length = (modified.drop 40).length := by
      rw [hpay, List.length_drop, List.length_drop, hf.length_eq]
    have hcard : (differing payload (modified.drop 40)).card =
        (differing (h.frame payload) modified).card := by
      have hdropped := Crc.differing_drop_card htake
      rwa [← hpay] at hdropped
    have hflips : Crc.FewFlips payload (modified.drop 40) := by
      rcases hf.few with hfew | hodd | ⟨_, hodd⟩
      · exact .of_card hlen' hdrop (hcard.trans_le hfew)
      · rw [(differing_eq_empty_iff hlen).mpr htake] at hodd
        exact absurd hodd (by decide)
      · exact ⟨hlen', .inr (hcard ▸ hodd)⟩
    exact frame_flips_refused hd hf.length_eq (.inr ⟨htake, hflips⟩)
  · have hflips : Crc.FewFlips ((h.frame payload).take 40) (modified.take 40) := by
      rcases hf.few with hfew | hodd | ⟨hsame, _⟩
      · exact .of_card hlen htake ((Crc.differing_take_card_le _ _ _).trans hfew)
      · exact ⟨hlen, .inr hodd⟩
      · exact absurd hsame htake
    exact frame_flips_refused hd hf.length_eq (.inl hflips)

/-- A change of a record that its trailer is bound to see: it leaves one of the length fields. -/
structure FewRecordFlips (record modified : Bytes) : Prop where
  length_eq : modified.length = record.length
  ne : record ≠ modified
  few : (differing record modified).card ≤ 3 ∨ Odd (differing record modified).card
  field : (RecordHeader.read modified).recordLength = (RecordHeader.read record).recordLength ∨
    (RecordHeader.read modified).payloadSize = (RecordHeader.read record).payloadSize

/-- A frame is refused that has one to three bits changed, or an odd number of them in the header,
or an odd number in the payload alone. A record is refused that has one to three bits changed, or
an odd number of them, while one of its two length fields is as it was. -/
theorem few_flips_refused :
    (∀ (sensorType : SensorType) (sequence timestampNs : UInt64) (flags : UInt16)
        (payload frame modified : Bytes),
      encodeFrame sensorType sequence timestampNs flags payload = .ok frame →
      FewFrameFlips frame modified → ∃ err, decodeHeader modified = .error err) ∧
    (∀ (timestampNs : UInt64) (sensorType : SensorType) (sequence : UInt64)
        (payload modified : Bytes), payload.length ≤ kMaxRecordPayload.toNat →
      FewRecordFlips (encodeRecord timestampNs sensorType sequence payload) modified →
      ∃ err, decodeRecord modified = .error err) := by
  constructor
  · intro sensorType sequence timestampNs flags payload frame modified hf hflips
    have hp : payload.length ≤ kMaxPayload.toNat := by
      by_contra hp
      rw [encodeFrame_error _ _ _ _ hp] at hf
      cases hf
    rw [encodeFrame_eq _ _ _ _ hp, Except.ok.injEq] at hf
    subst hf
    exact hflips.refused (FrameHeader.of_describes _ _ _ _ hp)
  · intro timestampNs sensorType sequence payload modified hp hf
    rw [encodeRecord_eq] at hf
    have hd := RecordHeader.of_describes timestampNs sensorType sequence hp
    have hread := (decodeRecord_eq_ok_iff.mp (decodeRecord_record hd [])).1
    rw [List.append_nil] at hread
    have hfew : Crc.FewFlips ((RecordHeader.of timestampNs sensorType sequence payload).record
        payload) modified := by
      rcases hf.few with hfew | hodd
      · exact .of_card hf.length_eq.symm hf.ne hfew
      · exact ⟨hf.length_eq.symm, .inr hodd⟩
    refine record_flips_refused hd hfew ?_
    have hfield := hf.field
    rwa [← hread] at hfield

end SensorForge
