import SensorForge.NetworkBridge
import SensorForge.ReadTrace

/-! The inner header of a decompressed message, as `parse_header` walks it: the strings
that it accepts, and what is published for them. -/

namespace SensorForge

open ReadTrace Protocol

def scanTerminatorAt (header : Bytes) (i : Nat) : Reads Nat :=
  if _h : i < header.length then do
    let c ← readAt header i
    if c ≠ 0 then scanTerminatorAt header (i + 1) else pure i
  else pure i
termination_by header.length - i

/-- An output that is not assigned stays empty. -/
def parseHeaderAt (header : Bytes) : Reads (Bytes × Bytes) :=
  if header.length < 4 then pure ([], []) else do
  let topicEnd ← scanTerminatorAt header 0
  if topicEnd ≥ header.length - 1 then pure ([], []) else do
  let topic ← readRange header 0 topicEnd
  let typeStart := topicEnd + 1
  let typeEnd ← scanTerminatorAt header typeStart
  if typeEnd ≥ header.length then pure (topic, []) else do
  let msgType ← readRange header typeStart (typeEnd - typeStart)
  pure (topic, msgType)

inductive InnerError where
  | malformedHeader
  | shorterThanHeader
  deriving DecidableEq

/-- The part of `receive_data` between the decompression and the publisher. -/
def innerMessage (decompressedData : Bytes) :
    Reads (Except InnerError (Bytes × Bytes × Bytes)) := do
  let (topic, msgType) ← parseHeaderAt decompressedData
  if topic.isEmpty || msgType.isEmpty then pure (.error .malformedHeader) else
  let headerLength := topic.length + 1 + msgType.length + 1
  if headerLength > decompressedData.length then pure (.error .shorterThanHeader) else do
  let payload ← readRange decompressedData headerLength (decompressedData.length - headerLength)
  pure (.ok (topic, msgType, payload))

/-- The inner grammar: two non-empty fields without a zero byte, each closed by one. -/
structure InnerGrammar (data topic msgType payload : Bytes) : Prop where
  whole : data = topic ++ [0] ++ msgType ++ [0] ++ payload
  topic_ne : topic ≠ []
  msgType_ne : msgType ≠ []
  topic_free : 0 ∉ topic
  msgType_free : 0 ∉ msgType

theorem scanTerminator_step {header : Bytes} {i : Nat} (h : i < header.length) :
    scanTerminator header i =
      if header.getD i 0 ≠ 0 then scanTerminator header (i + 1) else i := by
  rw [scanTerminator, List.drop_eq_getElem_cons h, List.takeWhile_cons, getD_of_lt header h]
  by_cases hc : header[i] = 0
  · simp [hc]
  · simp only [ne_eq, hc, not_false_eq_true, decide_true, if_true, List.length_cons,
      scanTerminator]
    omega

theorem scanTerminatorAt_value (header : Bytes) (i : Nat) :
    (scanTerminatorAt header i).value = scanTerminator header i := by
  fun_induction scanTerminatorAt header i with
  | case1 i hlt ih =>
    rw [Reads.value_bind, Reads.value_ite, scanTerminator_step hlt]
    exact if_congr Iff.rfl ih rfl
  | case2 i hge =>
    rw [scanTerminator, List.drop_eq_nil_of_le (Nat.not_lt.mp hge)]
    rfl

theorem scanTerminatorAt_within (header : Bytes) (i : Nat) :
    (scanTerminatorAt header i).Within header.length := by
  fun_induction scanTerminatorAt header i with
  | case1 i hlt ih =>
    refine Reads.within_then ((readAt_within header i _).mpr hlt) ?_
    split
    · exact ih
    · exact Reads.within_pure _ _
  | case2 i hge => exact Reads.within_pure _ _

theorem parseHeaderAt_value (header : Bytes) : (parseHeaderAt header).value = parseHeader header := by
  have hfirst : ∀ n, slice header 0 n = header.take n := fun n => by rw [slice, List.drop_zero]
  simp only [parseHeaderAt, Reads.value_ite, Reads.value_bind, Reads.value_pure,
    scanTerminatorAt_value, readRange, hfirst]
  rfl

/-- A scan from inside the string stops at its end or at the first zero byte. -/
theorem scanTerminator_spec {header : Bytes} {start : Nat} (h : start ≤ header.length) :
    start ≤ scanTerminator header start ∧ scanTerminator header start ≤ header.length ∧
      0 ∉ slice header start (scanTerminator header start - start) ∧
      (scanTerminator header start < header.length →
        header.drop (scanTerminator header start) =
          0 :: header.drop (scanTerminator header start + 1)) := by
  generalize hfield : (header.drop start).takeWhile (· ≠ 0) = field
  have hstop : scanTerminator header start = start + field.length := by rw [scanTerminator, hfield]
  have hsplit : header.drop start = field ++ (header.drop start).dropWhile (· ≠ 0) := by
    rw [← hfield, List.takeWhile_append_dropWhile]
  have hlen := congrArg List.length hsplit
  rw [List.length_append, List.length_drop] at hlen
  have hslice : slice header start field.length = field := by
    rw [slice, hsplit, List.take_left' rfl]
  have hfree : 0 ∉ field := by
    intro hmem
    have hne := List.mem_takeWhile_imp (hfield ▸ hmem)
    simp at hne
  rw [hstop, Nat.add_sub_cancel_left, hslice]
  refine ⟨by omega, by omega, hfree, fun hlt => ?_⟩
  have hrest : header.drop (start + field.length) = (header.drop start).dropWhile (· ≠ 0) := by
    rw [← List.drop_drop]
    conv_lhs => rw [hsplit]
    exact List.drop_left' rfl
  have hcons := List.drop_eq_getElem_cons hlt
  have hne : (header.drop start).dropWhile (· ≠ 0) ≠ [] := by
    rw [← hrest, hcons]
    exact List.cons_ne_nil _ _
  have hhead : header[start + field.length] =
      ((header.drop start).dropWhile (· ≠ 0)).head hne := by
    simp only [← hrest, List.head_drop]
  have hnot := List.head_dropWhile_not _ hne
  rw [← hhead] at hnot
  rw [hcons, show header[start + field.length] = 0 by simpa using hnot]

theorem InnerGrammar.eq_createHeader {data topic msgType payload : Bytes}
    (h : InnerGrammar data topic msgType payload) :
    data = createHeader topic msgType ++ payload := by
  rw [h.whole, createHeader]
  simp

theorem InnerGrammar.drop_eq {data topic msgType payload : Bytes}
    (h : InnerGrammar data topic msgType payload) :
    topic.length + 1 + msgType.length + 1 + payload.length = data.length ∧
      data.drop (topic.length + 1 + msgType.length + 1) = payload := by
  rw [h.whole]
  refine ⟨?_, List.drop_left' ?_⟩
  · simp
    omega
  · simp
    omega

theorem InnerGrammar.parseHeader_eq {data topic msgType payload : Bytes}
    (h : InnerGrammar data topic msgType payload) : parseHeader data = (topic, msgType) := by
  rw [h.eq_createHeader]
  exact parseHeader_createHeader h.topic_ne h.topic_free h.msgType_ne h.msgType_free payload

/-- Two fields are only found in a string of the grammar. -/
theorem parseHeader_grammar {data topic msgType : Bytes}
    (h : parseHeader data = (topic, msgType)) (ht : topic ≠ []) (hm : msgType ≠ []) :
    InnerGrammar data topic msgType (data.drop (topic.length + 1 + msgType.length + 1)) := by
  obtain ⟨_, _, htopicFree, htopicZero⟩ := scanTerminator_spec (Nat.zero_le data.length)
  have htypeSpec := @scanTerminator_spec data (scanTerminator data 0 + 1)
  unfold parseHeader at h
  dsimp only at h
  split_ifs at h with hshort htopicEnd htypeEnd
  · exact absurd (Prod.mk.inj h).1.symm ht
  · exact absurd (Prod.mk.inj h).1.symm ht
  · exact absurd (Prod.mk.inj h).2.symm hm
  · obtain ⟨rfl, rfl⟩ := Prod.mk.inj h
    generalize scanTerminator data 0 = topicEnd at *
    obtain ⟨hstart, hend, htypeFree, htypeZero⟩ := htypeSpec (by omega)
    generalize scanTerminator data (topicEnd + 1) = typeEnd at *
    have htopicLen : (data.take topicEnd).length = topicEnd := by
      rw [List.length_take]
      omega
    have htypeLen : ((data.drop (topicEnd + 1)).take (typeEnd - (topicEnd + 1))).length =
        typeEnd - (topicEnd + 1) := by
      rw [List.length_take, List.length_drop]
      omega
    have hpayload : topicEnd + 1 + (typeEnd - (topicEnd + 1)) + 1 = typeEnd + 1 := by omega
    have htype : data.drop (topicEnd + 1) =
        (data.drop (topicEnd + 1)).take (typeEnd - (topicEnd + 1)) ++ data.drop typeEnd := by
      have hdrop := List.drop_drop (i := typeEnd - (topicEnd + 1)) (j := topicEnd + 1) (l := data)
      rw [Nat.add_sub_cancel' hstart] at hdrop
      rw [← hdrop, List.take_append_drop]
    refine ⟨?_, ht, hm, ?_, htypeFree⟩
    · rw [htopicLen, htypeLen, hpayload]
      calc data = data.take topicEnd ++ data.drop topicEnd := (List.take_append_drop _ _).symm
        _ = data.take topicEnd ++ 0 :: ((data.drop (topicEnd + 1)).take
              (typeEnd - (topicEnd + 1)) ++ 0 :: data.drop (typeEnd + 1)) := by
            rw [htopicZero (by omega), ← htypeZero (by omega), ← htype]
        _ = _ := by simp
    · rwa [slice, List.drop_zero, Nat.sub_zero] at htopicFree

theorem parseHeaderAt_within (data : Bytes) : (parseHeaderAt data).Within data.length := by
  refine Reads.within_else fun _ => ?_
  refine Reads.within_then (scanTerminatorAt_within data 0) (Reads.within_else fun htopic => ?_)
  rw [scanTerminatorAt_value] at htopic ⊢
  refine Reads.within_then (readRange_within data (by omega)) ?_
  refine Reads.within_then (scanTerminatorAt_within data _) (Reads.within_else fun htype => ?_)
  rw [scanTerminatorAt_value] at htype ⊢
  have hstart := (@scanTerminator_spec data (scanTerminator data 0 + 1) (by omega)).1
  exact Reads.within_then (readRange_within data (by omega)) (Reads.within_pure _ _)

theorem innerMessage_value (data : Bytes) :
    (innerMessage data).value =
      if (parseHeader data).1.isEmpty || (parseHeader data).2.isEmpty then
        .error .malformedHeader
      else if (parseHeader data).1.length + 1 + (parseHeader data).2.length + 1 > data.length then
        .error .shorterThanHeader
      else .ok ((parseHeader data).1, (parseHeader data).2,
        data.drop ((parseHeader data).1.length + 1 + (parseHeader data).2.length + 1)) := by
  have hrest : ∀ n, slice data n (data.length - n) = data.drop n := by
    intro n
    rw [slice, ← List.length_drop, List.take_length]
  simp only [innerMessage, Reads.value_bind, parseHeaderAt_value, Reads.value_ite, Reads.value_pure,
    readRange, hrest]

theorem innerMessage_within (data : Bytes) : (innerMessage data).Within data.length := by
  refine Reads.within_then (parseHeaderAt_within data) (Reads.within_else fun _ => ?_)
  refine Reads.within_else fun hlen => ?_
  exact Reads.within_then (readRange_within data (by omega)) (Reads.within_pure _ _)

theorem InnerGrammar.innerMessage_eq {data topic msgType payload : Bytes}
    (h : InnerGrammar data topic msgType payload) :
    (innerMessage data).value = .ok (topic, msgType, payload) := by
  obtain ⟨hlen, hdrop⟩ := h.drop_eq
  have hempty : (topic.isEmpty || msgType.isEmpty) = false := by
    simp [h.topic_ne, h.msgType_ne]
  simp only [innerMessage_value, h.parseHeader_eq, hempty, Bool.false_eq_true, if_false, hdrop]
  rw [if_neg (by omega)]

theorem innerMessage_cases (data : Bytes) :
    (innerMessage data).value = .error .malformedHeader ∨
      ∃ topic msgType payload, InnerGrammar data topic msgType payload ∧
        (innerMessage data).value = .ok (topic, msgType, payload) := by
  by_cases hempty : ((parseHeader data).1.isEmpty || (parseHeader data).2.isEmpty) = true
  · exact Or.inl (by rw [innerMessage_value, if_pos hempty])
  · have hne : (parseHeader data).1 ≠ [] ∧ (parseHeader data).2 ≠ [] := by simpa using hempty
    have hgrammar := parseHeader_grammar (Prod.eta (parseHeader data)).symm hne.1 hne.2
    exact Or.inr ⟨_, _, _, hgrammar, hgrammar.innerMessage_eq⟩

theorem NetworkBridge.receiveData_inner (z : Zstd) {b : NetworkBridge} {frame : Bytes}
    {frameDecoder : FrameDecoder} {fh : FrameHeader}
    (hframe : b.frameDecoder.decode frame 0 = (frameDecoder, .ok fh)) {data : Bytes}
    (hdata : decompress z (payloadOf frame fh) = some data) :
    (b.receiveData z true true frame).2 =
      match (innerMessage data).value with
      | .ok (topic, msgType, payload) =>
        [⟨(b.publishers topic).getD ⟨b.publishNamespace ++ topic, msgType⟩, payload⟩]
      | .error _ => [] := by
  simp only [NetworkBridge.receiveData, hframe, hdata, innerMessage_value, Bool.not_true,
    Bool.false_eq_true, if_false, if_true]
  split_ifs <;> rfl

/-- The parser accepts the strings of the grammar and no others. It reads nothing
outside of the string, and what is published is what follows the header. -/
theorem inner_header_exact (data : Bytes) :
    (innerMessage data).Within data.length ∧
    ((parseHeaderAt data).value.1 ≠ [] ∧ (parseHeaderAt data).value.2 ≠ [] ↔
      ∃ topic msgType payload, InnerGrammar data topic msgType payload) ∧
    (∀ topic msgType payload, InnerGrammar data topic msgType payload →
      (parseHeaderAt data).value = (topic, msgType) ∧
        (innerMessage data).value = .ok (topic, msgType, payload)) ∧
    (innerMessage data).value ≠ .error .shorterThanHeader ∧
    ∀ (z : Zstd) (b : NetworkBridge) frame frameDecoder fh,
      b.frameDecoder.decode frame 0 = (frameDecoder, .ok fh) →
      decompress z (payloadOf frame fh) = some data →
      (b.receiveData z true true frame).2 =
        match (innerMessage data).value with
        | .ok (topic, msgType, payload) =>
          [⟨(b.publishers topic).getD ⟨b.publishNamespace ++ topic, msgType⟩, payload⟩]
        | .error _ => [] := by
  rw [parseHeaderAt_value]
  refine ⟨innerMessage_within data, ⟨?_, ?_⟩, ?_, ?_, ?_⟩
  · rintro ⟨ht, hm⟩
    exact ⟨_, _, _, parseHeader_grammar (Prod.eta (parseHeader data)).symm ht hm⟩
  · rintro ⟨topic, msgType, payload, h⟩
    rw [h.parseHeader_eq]
    exact ⟨h.topic_ne, h.msgType_ne⟩
  · exact fun topic msgType payload h => ⟨h.parseHeader_eq, h.innerMessage_eq⟩
  · rcases innerMessage_cases data with h | ⟨topic, msgType, payload, _, h⟩ <;> rw [h] <;> simp
  · exact fun z b frame frameDecoder fh hframe hdata =>
      NetworkBridge.receiveData_inner z hframe hdata

end SensorForge
