import SensorForge.TcpRoundTrip

/-! The byte-at-a-time reassembler, and where it agrees with the receive thread that it
is extracted from: it reads the size in the other byte order. -/

namespace SensorForge.Transport

open ByteOrder Framing Transition

/-- `emitted` has the arguments of the callback calls. -/
structure TcpReassembler where
  maxPayload : UInt32 := 8 * 1024 * 1024
  state : UInt8 := 0
  sizeBytes : Bytes := [0, 0, 0, 0]
  sizeIdx : UInt8 := 0
  payloadSize : UInt32 := 0
  payload : Bytes := []
  payloadsEmitted : UInt64 := 0
  resyncs : UInt64 := 0
  emitted : List Bytes := []

def sizeOfBytes (sizeBytes : Bytes) : UInt32 :=
  ((sizeBytes.getD 0 0).toUInt32 <<< 24) ||| ((sizeBytes.getD 1 0).toUInt32 <<< 16) |||
    ((sizeBytes.getD 2 0).toUInt32 <<< 8) ||| (sizeBytes.getD 3 0).toUInt32

def TcpReassembler.emit (r : TcpReassembler) (payload : Bytes) : TcpReassembler :=
  { r with emitted := r.emitted ++ [payload], payloadsEmitted := r.payloadsEmitted + 1 }

def TcpReassembler.putSizeByte (r : TcpReassembler) (b : UInt8) : TcpReassembler :=
  { r with sizeBytes := r.sizeBytes.set r.sizeIdx.toNat b, sizeIdx := r.sizeIdx + 1 }

def TcpReassembler.endSize (r : TcpReassembler) : TcpReassembler :=
  let r := { r with sizeIdx := 0, payloadSize := sizeOfBytes r.sizeBytes }
  if r.payloadSize > r.maxPayload then
    { r with state := 0, payloadSize := 0, resyncs := r.resyncs + 1 }
  else if r.payloadSize = 0 then { r.emit [] with state := 0 }
  else { r with payload := [], state := 3 }

def TcpReassembler.feedByte (r : TcpReassembler) (b : UInt8) : TcpReassembler :=
  match r.state with
  | 0 => if b = 0xAB then { r with state := 1 } else r
  | 1 =>
    if b = 0xCD then { r with state := 2, sizeIdx := 0 }
    else if b = 0xAB then { r with state := 1 }
    else { r with state := 0, resyncs := r.resyncs + 1 }
  | 2 =>
    let r := r.putSizeByte b
    if r.sizeIdx = 4 then r.endSize else r
  | 3 =>
    let r := { r with payload := r.payload ++ [b] }
    if r.payload.length = r.payloadSize.toNat then
      { r.emit r.payload with payload := [], state := 0 }
    else r
  | _ => { r with state := 0 }

def TcpReassembler.feed (r : TcpReassembler) (data : Bytes) : TcpReassembler :=
  data.foldl TcpReassembler.feedByte r

def TcpReassembler.feedAll (r : TcpReassembler) (chunks : List Bytes) : TcpReassembler :=
  chunks.foldl TcpReassembler.feed r

def reassemblerFormat (maxPayload : UInt32) : Format where
  first := 0xAB
  second := 0xCD
  ne := startBytes_ne
  width := 4
  readSize bytes := (sizeOfBytes bytes).toNat
  fits n := n ≤ maxPayload.toNat

theorem sizeOfBytes_reverse (b0 b1 b2 b3 : UInt8) :
    sizeOfBytes [b0, b1, b2, b3] = getU32 [b3, b2, b1, b0] := by
  have hrev : ∀ a b c d : UInt32, a ||| b ||| c ||| d = d ||| c ||| b ||| a := by
    intro a b c d
    ac_rfl
  exact hrev _ _ _ _

/-- The phase that the fields of a reassembler stand for. -/
inductive TcpReassembler.In (r : TcpReassembler) : Phase → Prop
  | hunt : r.state = 0 → TcpReassembler.In r .hunt
  | marked : r.state = 1 → TcpReassembler.In r .marked
  | size : r.state = 2 → r.sizeIdx.toNat < 4 →
      TcpReassembler.In r (.size (r.sizeBytes.take r.sizeIdx.toNat))
  | payload : r.state = 3 → r.payload.length < r.payloadSize.toNat →
      TcpReassembler.In r (.payload r.payloadSize.toNat r.payload)

/-- A reassembler that has become `r'` over `bytes` has emitted what they complete. -/
def TcpReassembler.Reads (r r' : TcpReassembler) (phase : Phase) (bytes : Bytes) : Prop :=
  ∃ phase' out, r'.In phase' ∧ r'.emitted = r.emitted ++ out ∧ r'.sizeBytes.length = 4 ∧
    r'.maxPayload = r.maxPayload ∧
    ∀ more, (reassemblerFormat r.maxPayload).pending phase (bytes ++ more) =
      out ++ (reassemblerFormat r.maxPayload).pending phase' more

theorem TcpReassembler.endSize_reads (r : TcpReassembler) (hlen : r.sizeBytes.length = 4) :
    r.Reads r.endSize (.size r.sizeBytes) [] := by
  have hdone := (reassemblerFormat r.maxPayload).pending_size_done hlen
  generalize hsize : sizeOfBytes r.sizeBytes = size
  have hread : (reassemblerFormat r.maxPayload).readSize r.sizeBytes = size.toNat := by
    rw [← hsize]
    rfl
  rw [hread] at hdone
  unfold TcpReassembler.endSize
  simp only [hsize]
  split
  · next hbig =>
    have hfits : (reassemblerFormat r.maxPayload).fits size.toNat = false :=
      decide_eq_false (Nat.not_le.mpr hbig)
    refine ⟨.hunt, [], .hunt rfl, (List.append_nil _).symm, hlen, rfl, fun more => ?_⟩
    rw [List.nil_append, hdone, hfits]
    rfl
  · next hsmall =>
    have hfits : (reassemblerFormat r.maxPayload).fits size.toNat = true :=
      decide_eq_true (Nat.le_of_not_lt hsmall)
    split
    · next hzero =>
      refine ⟨.hunt, [[]], .hunt rfl, rfl, hlen, rfl, fun more => ?_⟩
      rw [List.nil_append, hdone, hfits, hzero, if_pos rfl]
      exact (reassemblerFormat r.maxPayload).pending_payload_done List.length_nil more
    · next hne =>
      have hpos : 0 < size.toNat := Nat.pos_of_ne_zero fun h => hne (UInt32.toNat_inj.mp h)
      refine ⟨_, [], .payload rfl hpos, (List.append_nil _).symm, hlen, rfl, fun more => ?_⟩
      rw [List.nil_append, hdone, hfits]
      rfl

theorem TcpReassembler.feedByte_hunt {r : TcpReassembler} (hstate : r.state = 0)
    (hlen : r.sizeBytes.length = 4) (b : UInt8) : r.Reads (r.feedByte b) .hunt [b] := by
  by_cases hb : b = 0xAB
  · have hfeed : r.feedByte b = { r with state := 1 } := by
      simp only [TcpReassembler.feedByte, hstate, if_pos hb]
    rw [hfeed, hb]
    exact ⟨.marked, [], .marked rfl, (List.append_nil _).symm, hlen, rfl, fun more => rfl⟩
  · have hfeed : r.feedByte b = r := by
      simp only [TcpReassembler.feedByte, hstate, if_neg hb]
    rw [hfeed]
    exact ⟨.hunt, [], .hunt hstate, (List.append_nil _).symm, hlen, rfl,
      (reassemblerFormat r.maxPayload).pending_hunt hb⟩

theorem TcpReassembler.feedByte_marked {r : TcpReassembler} (hstate : r.state = 1)
    (hlen : r.sizeBytes.length = 4) (b : UInt8) : r.Reads (r.feedByte b) .marked [b] := by
  by_cases hsecond : b = 0xCD
  · have hfeed : r.feedByte b = { r with state := 2, sizeIdx := 0 } := by
      simp only [TcpReassembler.feedByte, hstate, if_pos hsecond]
    rw [hfeed, hsecond]
    exact ⟨_, [], .size rfl four_pos, (List.append_nil _).symm, hlen, rfl, fun more => rfl⟩
  by_cases hfirst : b = 0xAB
  · have hfeed : r.feedByte b = { r with state := 1 } := by
      simp only [TcpReassembler.feedByte, hstate, if_neg hsecond, if_pos hfirst]
    rw [hfeed, hfirst]
    exact ⟨.marked, [], .marked rfl, (List.append_nil _).symm, hlen, rfl,
      (reassemblerFormat r.maxPayload).pending_marked_first⟩
  · have hfeed : r.feedByte b = { r with state := 0, resyncs := r.resyncs + 1 } := by
      simp only [TcpReassembler.feedByte, hstate, if_neg hsecond, if_neg hfirst]
    rw [hfeed]
    exact ⟨.hunt, [], .hunt rfl, (List.append_nil _).symm, hlen, rfl,
      (reassemblerFormat r.maxPayload).pending_marked_other hfirst hsecond⟩

theorem TcpReassembler.putSizeByte_got {r : TcpReassembler} (hlen : r.sizeBytes.length = 4)
    (hidx : r.sizeIdx.toNat < 4) (b : UInt8) :
    (r.putSizeByte b).sizeBytes.length = 4 ∧
      (r.putSizeByte b).sizeIdx.toNat = r.sizeIdx.toNat + 1 ∧
      (r.putSizeByte b).sizeBytes.take (r.putSizeByte b).sizeIdx.toNat =
        r.sizeBytes.take r.sizeIdx.toNat ++ [b] := by
  have hnext : (r.sizeIdx + 1).toNat = r.sizeIdx.toNat + 1 := by
    rw [UInt8.toNat_add, UInt8.toNat_one]
    omega
  refine ⟨List.length_set.trans hlen, hnext, ?_⟩
  simp only [TcpReassembler.putSizeByte, hnext]
  rw [List.take_add_one, List.take_set_of_le (le_refl _), List.getElem?_set_self (by omega)]
  rfl

theorem TcpReassembler.feedByte_size {r : TcpReassembler} (hstate : r.state = 2)
    (hlen : r.sizeBytes.length = 4) (hidx : r.sizeIdx.toNat < 4) (b : UInt8) :
    r.Reads (r.feedByte b) (.size (r.sizeBytes.take r.sizeIdx.toNat)) [b] := by
  have hcons := (reassemblerFormat r.maxPayload).pending_size_cons
    (r.sizeBytes.take r.sizeIdx.toNat) b
  obtain ⟨hlen', hidx', hgot⟩ := TcpReassembler.putSizeByte_got hlen hidx b
  rw [← hgot] at hcons
  have hfeed : r.feedByte b =
      if (r.putSizeByte b).sizeIdx = 4 then (r.putSizeByte b).endSize else r.putSizeByte b := by
    simp only [TcpReassembler.feedByte, hstate]
  by_cases hfour : (r.putSizeByte b).sizeIdx = 4
  · have hall : (r.putSizeByte b).sizeBytes.take (r.putSizeByte b).sizeIdx.toNat =
        (r.putSizeByte b).sizeBytes := by
      rw [hfour]
      exact List.take_of_length_le (le_of_eq hlen')
    rw [hall] at hcons
    obtain ⟨phase, out, hin, hemitted, hlen'', hmax, hpending⟩ :=
      (r.putSizeByte b).endSize_reads hlen'
    rw [hfeed, if_pos hfour]
    exact ⟨phase, out, hin, hemitted, hlen'', hmax, fun more => (hcons more).trans (hpending more)⟩
  · have hlt : (r.putSizeByte b).sizeIdx.toNat < 4 := by
      have hne : (r.putSizeByte b).sizeIdx.toNat ≠ 4 := fun h => hfour (UInt8.toNat_inj.mp h)
      omega
    rw [hfeed, if_neg hfour]
    exact ⟨_, [], .size hstate hlt, (List.append_nil _).symm, hlen', rfl, hcons⟩

theorem TcpReassembler.feedByte_payload {r : TcpReassembler} (hstate : r.state = 3)
    (hlen : r.sizeBytes.length = 4) (hshort : r.payload.length < r.payloadSize.toNat) (b : UInt8) :
    r.Reads (r.feedByte b) (.payload r.payloadSize.toNat r.payload) [b] := by
  have hcons := (reassemblerFormat r.maxPayload).pending_payload_cons r.payloadSize.toNat
    r.payload b
  by_cases hfull : (r.payload ++ [b]).length = r.payloadSize.toNat
  · have hfeed : r.feedByte b =
        { (({ r with payload := r.payload ++ [b] } : TcpReassembler).emit (r.payload ++ [b])) with
          payload := [], state := 0 } := by
      simp only [TcpReassembler.feedByte, hstate, if_pos hfull]
    rw [hfeed]
    refine ⟨.hunt, [r.payload ++ [b]], .hunt rfl, rfl, hlen, rfl, fun more => ?_⟩
    exact (hcons more).trans ((reassemblerFormat r.maxPayload).pending_payload_done hfull more)
  · have hfeed : r.feedByte b = { r with payload := r.payload ++ [b] } := by
      simp only [TcpReassembler.feedByte, hstate, if_neg hfull]
    have hlt : (r.payload ++ [b]).length < r.payloadSize.toNat := by
      rw [List.length_append, List.length_singleton] at hfull ⊢
      omega
    rw [hfeed]
    exact ⟨_, [], .payload hstate hlt, (List.append_nil _).symm, hlen, rfl, hcons⟩

theorem TcpReassembler.In.feedByte {r : TcpReassembler} {phase : Phase} (h : r.In phase)
    (hlen : r.sizeBytes.length = 4) (b : UInt8) : r.Reads (r.feedByte b) phase [b] := by
  cases h with
  | hunt hstate => exact TcpReassembler.feedByte_hunt hstate hlen b
  | marked hstate => exact TcpReassembler.feedByte_marked hstate hlen b
  | size hstate hidx => exact TcpReassembler.feedByte_size hstate hlen hidx b
  | payload hstate hshort => exact TcpReassembler.feedByte_payload hstate hlen hshort b

theorem TcpReassembler.In.feed {r : TcpReassembler} {phase : Phase} (h : r.In phase)
    (hlen : r.sizeBytes.length = 4) (data : Bytes) :
    (r.feed data).emitted =
      r.emitted ++ (reassemblerFormat r.maxPayload).pending phase data := by
  induction data generalizing r phase with
  | nil =>
    have hunfinished : (reassemblerFormat r.maxPayload).Unfinished phase := by
      cases h with
      | hunt _ => trivial
      | marked _ => trivial
      | size _ hidx =>
        change (r.sizeBytes.take r.sizeIdx.toNat).length < 4
        rw [List.length_take]
        omega
      | payload _ hshort => exact hshort
    rw [Format.pending_nil _ _ hunfinished, List.append_nil]
    rfl
  | cons b data ih =>
    obtain ⟨phase', out, hin, hemitted, hsizes, hmax, hpending⟩ := h.feedByte hlen b
    have hh := ih hin hsizes
    rw [hmax, hemitted, List.append_assoc, ← hpending] at hh
    exact hh

theorem TcpReassembler.feedAll_eq (r : TcpReassembler) (chunks : List Bytes) :
    r.feedAll chunks = r.feed chunks.flatten := by
  rw [TcpReassembler.feedAll, TcpReassembler.feed, List.foldl_flatten]
  rfl

theorem TcpReassembler.feedAll_emitted (maxPayload : UInt32) (chunks : List Bytes) :
    (TcpReassembler.feedAll { maxPayload } chunks).emitted =
      (reassemblerFormat maxPayload).frames chunks.flatten := by
  rw [TcpReassembler.feedAll_eq]
  exact TcpReassembler.In.feed (.hunt rfl) rfl chunks.flatten

/-- On streams whose sizes, read big-endian, stay within the bound, the reassembler
agrees with the receive thread exactly if the first size that the byte orders read
differently is followed by fewer bytes than both readings ask for. It decodes what
`write` puts on the wire exactly if every size reads the same in both orders. -/
theorem reassembler_agrees_iff (maxPayload : UInt32) :
    (∀ t : ReceiveThread, ReceiveThread.system.Reachable anyStep t → t.Waiting →
      ∀ chunks : List Bytes, chunks.flatten = t.pushed →
      (∀ x ∈ (reassemblerFormat maxPayload).announced t.pushed,
        (sizeOfBytes x.1).toNat ≤ maxPayload.toNat) →
      ((TcpReassembler.feedAll { maxPayload } chunks).emitted = t.received ↔
        ∀ x, ((reassemblerFormat maxPayload).announced t.pushed).find?
            (fun x => (sizeOfBytes x.1).toNat ≠ (getU32 x.1).toNat) = some x →
          x.2.length < min (sizeOfBytes x.1).toNat (getU32 x.1).toNat)) ∧
    (∀ payloads : List Bytes, (∀ p ∈ payloads, p.length ≤ maxPayload.toNat) →
      ∀ chunks : List Bytes, chunks.flatten = written payloads →
      ((TcpReassembler.feedAll { maxPayload } chunks).emitted = payloads ↔
        ∀ p ∈ payloads, (sizeOfBytes (hostBytes p.length.toUInt32)).toNat = p.length)) := by
  refine ⟨?_, ?_⟩
  · intro t ht hw chunks hchunks hfits
    rw [TcpReassembler.feedAll_emitted, hchunks, ReceiveThread.received_eq ht hw]
    exact (reassemblerFormat maxPayload).frames_eq_iff (fun bytes => (getU32 bytes).toNat) t.pushed
      fun x hx => decide_eq_true (hfits x hx)
  · intro payloads hfits chunks hchunks
    have hsmall : ∀ p ∈ payloads, p.length < 2 ^ 32 := fun p hp =>
      Nat.lt_of_le_of_lt (hfits p hp) maxPayload.toNat_lt
    rw [TcpReassembler.feedAll_emitted, hchunks,
      written_eq_wire (F := reassemblerFormat maxPayload) hsmall rfl rfl]
    exact (reassemblerFormat maxPayload).frames_wire_iff (fun p _ => rfl)
      fun p hp => decide_eq_true (hfits p hp)

/-- A receive thread that has read all it was sent and waits for more. -/
theorem exists_waiting_after (bytes : Bytes) :
    ∃ t, ReceiveThread.system.Reachable anyStep t ∧ t.Waiting ∧ t.pushed = bytes :=
  ReceiveThread.exists_waiting
    (System.Reachable.step (a := .pushBytes bytes) (.start rfl) trivial rfl)

/-- A message whose reassembler asks for no fewer bytes than it has. -/
theorem announced_message (maxPayload : UInt32) {p : Bytes} (hp : p.length < 2 ^ 32)
    (hread : p.length ≤ (sizeOfBytes (hostBytes p.length.toUInt32)).toNat) :
    (reassemblerFormat maxPayload).announced (written [p]) =
      [(hostBytes p.length.toUInt32, p)] := by
  have hwidth : (hostBytes p.length.toUInt32).length = (reassemblerFormat maxPayload).width := rfl
  have hmarked := Format.announced_marked _ hwidth p
  have hdrop : p.drop ((reassemblerFormat maxPayload).readSize (hostBytes p.length.toUInt32)) =
      [] := List.drop_eq_nil_of_le hread
  have hnil : (reassemblerFormat maxPayload).announced [] = [] := Format.announced_none _ rfl
  rw [hdrop, hnil] at hmarked
  rw [written_eq_wire (F := reassemblerFormat maxPayload) (List.forall_mem_singleton.mpr hp)
    rfl rfl]
  simpa [Format.wire] using hmarked

/-- The size 00 01 01 00 reads the same in both byte orders. -/
def symmetricMessage : Bytes := List.replicate 65792 0

theorem symmetricMessage_length : symmetricMessage.length = 65792 := List.length_replicate

theorem sizeOfBytes_symmetric : sizeOfBytes (hostBytes 65792) = 65792 := by decide

theorem reassembler_agrees_symmetric :
    ∃ t, ReceiveThread.system.Reachable anyStep t ∧ t.Waiting ∧
      t.pushed = written [symmetricMessage] ∧
      ∀ chunks, chunks = [t.pushed.take 3, t.pushed.drop 3] →
        (TcpReassembler.feedAll {} chunks).emitted = t.received ∧
        (TcpReassembler.feedAll {} chunks).emitted = [symmetricMessage] := by
  obtain ⟨t, ht, hw, hpushed⟩ := exists_waiting_after (written [symmetricMessage])
  refine ⟨t, ht, hw, hpushed, ?_⟩
  rintro chunks rfl
  have hflat : [t.pushed.take 3, t.pushed.drop 3].flatten = t.pushed := by
    simp [List.take_append_drop]
  have hfits : symmetricMessage.length ≤ (8 * 1024 * 1024 : UInt32).toNat := by
    rw [symmetricMessage_length]
    decide
  have hannounced : (reassemblerFormat (8 * 1024 * 1024)).announced t.pushed =
      [(hostBytes 65792, symmetricMessage)] := by
    have hread : symmetricMessage.length ≤
        (sizeOfBytes (hostBytes symmetricMessage.length.toUInt32)).toNat := by
      rw [symmetricMessage_length]
      decide
    rw [hpushed, announced_message _ (Nat.lt_of_le_of_lt hfits (by decide)) hread,
      symmetricMessage_length]
    rfl
  obtain ⟨hthread, hstream⟩ := reassembler_agrees_iff (8 * 1024 * 1024)
  constructor
  · refine (hthread t ht hw _ hflat ?_).mpr ?_
    · rw [hannounced, List.forall_mem_singleton, sizeOfBytes_symmetric]
      decide
    · have hnone : [(hostBytes 65792, symmetricMessage)].find?
          (fun x => (sizeOfBytes x.1).toNat ≠ (getU32 x.1).toNat) = none :=
        List.find?_eq_none.mpr (List.forall_mem_singleton.mpr (by decide))
      intro x hx
      rw [hannounced, hnone] at hx
      cases hx
  · refine (hstream [symmetricMessage] (List.forall_mem_singleton.mpr hfits) _
      (hflat.trans hpushed)).mpr ?_
    rw [List.forall_mem_singleton, symmetricMessage_length]
    decide

def swappedMessage : Bytes := List.replicate 256 0

theorem swappedMessage_length : swappedMessage.length = 256 := List.length_replicate

theorem swappedMessage_small : ∀ p ∈ [swappedMessage], p.length < 2 ^ 32 := by
  simp [swappedMessage_length]

theorem announced_swappedMessage :
    (reassemblerFormat (8 * 1024 * 1024)).announced (written [swappedMessage]) =
      [(hostBytes 256, swappedMessage)] := by
  have hread : swappedMessage.length ≤
      (sizeOfBytes (hostBytes swappedMessage.length.toUInt32)).toNat := by
    rw [swappedMessage_length]
    decide
  rw [announced_message _ (swappedMessage_small _ List.mem_cons_self) hread,
    swappedMessage_length]
  rfl

theorem reassembler_disagrees :
    ¬ ∀ t : ReceiveThread, ReceiveThread.system.Reachable anyStep t → t.Waiting →
      ∀ chunks : List Bytes, chunks.flatten = t.pushed →
      (∀ x ∈ (reassemblerFormat (8 * 1024 * 1024)).announced t.pushed,
        (sizeOfBytes x.1).toNat ≤ 8 * 1024 * 1024 ∧ (getU32 x.1).toNat ≤ 8 * 1024 * 1024) →
      (TcpReassembler.feedAll {} chunks).emitted = t.received := by
  intro h
  obtain ⟨t, ht, hw, hpushed⟩ := exists_waiting_after (written [swappedMessage])
  have hsame := h t ht hw [written [swappedMessage]] (by simp [hpushed]) (by
    rw [hpushed, announced_swappedMessage]
    decide)
  have hreceived : t.received = [swappedMessage] := by
    have hread : receiveFormat.readSize (hostBytes 256) = 256 := rfl
    rw [ReceiveThread.received_eq ht hw, hpushed,
      written_eq_wire (F := receiveFormat) swappedMessage_small rfl rfl]
    exact (receiveFormat.frames_wire_iff (fun p _ => rfl) (fun p _ => rfl)).mpr (by
      simpa [swappedMessage_length] using hread)
  have hemitted := TcpReassembler.feedAll_emitted (8 * 1024 * 1024) [written [swappedMessage]]
  rw [hsame, hreceived] at hemitted
  have hfits : ∀ p ∈ [swappedMessage],
      (reassemblerFormat (8 * 1024 * 1024)).fits p.length = true := by
    rw [List.forall_mem_singleton, swappedMessage_length]
    decide
  rw [List.flatten_singleton, written_eq_wire (F := reassemblerFormat (8 * 1024 * 1024))
    swappedMessage_small rfl rfl] at hemitted
  have hread := (Format.frames_wire_iff _ (fun p _ => rfl) hfits).mp
    hemitted.symm
  have hsize := hread swappedMessage List.mem_cons_self
  rw [swappedMessage_length] at hsize
  exact absurd hsize (by decide)

end SensorForge.Transport
