import SensorForge.SentFrames
import SensorForge.WalRoundTrip

/-! A bridge that records what it sends, and what a reader replays of the recording. -/

namespace SensorForge

open ByteOrder Protocol Replay StableSort Transition

/-- The record of a frame has its stamps and its payload. -/
def Sent.call (x : Sent) : AppendCall :=
  { timestampNs := x.timestampNs, sensorType := .kControl, sequence := x.sequence
    payload := x.frame.drop kFrameOverhead }

def Sent.record (x : Sent) : ReplayRecord := x.call.record

def Sent.lt (a b : Sent) : Bool :=
  if a.timestampNs ≠ b.timestampNs then a.timestampNs < b.timestampNs else a.sequence < b.sequence

/-- A bridge whose recording begins in an empty directory. -/
def Sender.system (z : Zstd) (segmentBytes : Nat) : System Sender SendCall where
  start s := ∃ publishNamespace faultEngine,
    s = { bridge :=
      { publishNamespace, faultEngine, walWriter := some (WalWriter.create ∅ segmentBytes) } }
  next s c := some (s.send z c.ready c.manager c.nowNs).1

/-- The payload of the record decompresses to the message. -/
def Sent.Readable (z : Zstd) (x : Sent) : Prop :=
  x.call.fits = true ∧
    decompress z x.record.payload =
      some (createHeader x.message.topic x.message.msgType ++ x.message.data)

structure Sender.Records (z : Zstd) (segmentBytes : Nat) (s : Sender) : Prop where
  written : s.bridge.walWriter = some (WalWriter.session ∅ segmentBytes (s.sent.map Sent.call))
  readable : ∀ x ∈ s.sent, x.Readable z

theorem FrameHeader.frame_drop (h : FrameHeader) (payload : Bytes) :
    (h.frame payload).drop kFrameOverhead = payload := by
  have hpre : (h.bytes ++ putU32 (crc32c h.bytes)).length = kFrameOverhead := rfl
  rw [FrameHeader.frame, ← List.append_assoc, List.drop_left' hpre]

theorem NetworkBridge.sendData_walWriter {z : Zstd} {c : SendCall} {data : Bytes}
    (h : c.attempt z = some data) (b : NetworkBridge) :
    (b.sendData z c.ready c.manager c.nowNs).1.walWriter =
      if data.length ≤ kMaxPayload.toNat then
        b.walWriter.map fun (w, dir) => (w.append dir ⟨c.nowNs, .kControl, b.txSequence, data⟩).1
      else b.walWriter := by
  obtain ⟨ready, manager, nowNs⟩ := c
  obtain ⟨hguard, hcompress⟩ := Option.ite_none_right_eq_some.mp h
  simp only [Bool.and_eq_true, Bool.not_eq_true'] at hguard hcompress
  obtain ⟨⟨⟨hhas, rfl⟩, hempty⟩, hvalid⟩ := hguard
  unfold NetworkBridge.sendData
  by_cases hfit : data.length ≤ kMaxPayload.toNat
  · have hencode := encodeFrame_eq .kControl b.txSequence nowNs kFlagCompressed hfit
    simp only [hhas, hempty, hvalid, hcompress, hencode, if_pos hfit]
    simp
  · have hencode := encodeFrame_error .kControl b.txSequence nowNs kFlagCompressed hfit
    simp only [hhas, hempty, hvalid, hcompress, hencode, if_neg hfit]
    rfl

theorem WalWriter.session_append_singleton (dir : Directory) (segmentBytes : Nat)
    (calls : List AppendCall) (c : AppendCall) :
    WalWriter.session dir segmentBytes (calls ++ [c]) =
      ((WalWriter.session dir segmentBytes calls).1.append
        (WalWriter.session dir segmentBytes calls).2 c).1 := by
  rw [WalWriter.session, List.foldl_append]
  rfl

/-- A call that sends a frame records it, and one that sends none records none. -/
theorem Sender.Records.send {z : Zstd} (hz : z.Inverts) {segmentBytes : Nat} {s : Sender}
    (h : s.Records z segmentBytes) (c : SendCall) :
    (s.send z c.ready c.manager c.nowNs).1.Records z segmentBytes := by
  cases hattempt : c.attempt z with
  | none =>
    have hsend := NetworkBridge.sendData_none hattempt s.bridge
    simp only [Sender.send, hsend, Option.map_none, Option.toList_none, List.append_nil]
    exact ⟨h.written, h.readable⟩
  | some data =>
    obtain ⟨_, hout⟩ := NetworkBridge.sendData_some hattempt s.bridge
    have hwal := NetworkBridge.sendData_walWriter hattempt s.bridge
    have hcompress := (Option.ite_none_right_eq_some.mp hattempt).2
    by_cases hfit : data.length ≤ kMaxPayload.toNat
    · rw [if_pos hfit] at hout hwal
      obtain ⟨out, hsome, hframe⟩ := Option.map_eq_some_iff.mp hout
      generalize hx : Sent.mk c.manager.message s.bridge.txSequence c.nowNs out.frame = x
      have hcall : x.call = ⟨c.nowNs, .kControl, s.bridge.txSequence, data⟩ := by
        rw [← hx, Sent.call, hframe, FrameHeader.frame_drop]
      have hsent : (s.send z c.ready c.manager c.nowNs).1.sent = s.sent ++ [x] := by
        simp only [Sender.send, hsome, Option.map_some, hx]
        rfl
      constructor
      · rw [hsent, List.map_append, List.map_singleton, WalWriter.session_append_singleton, hcall]
        refine hwal.trans ?_
        rw [h.written]
        rfl
      · intro y hy
        rw [hsent] at hy
        rcases List.mem_append.mp hy with hy | hy
        · exact h.readable y hy
        · obtain rfl := List.mem_singleton.mp hy
          have hmessage : y.message = c.manager.message := by rw [← hx]
          refine ⟨?_, ?_⟩
          · rw [hcall, AppendCall.fits_iff]
            exact hfit
          · rw [Sent.record, hcall, hmessage]
            exact decompress_compress hz hcompress
    · rw [if_neg hfit] at hout hwal
      have hnone := Option.map_eq_none_iff.mp hout
      have hsent : (s.send z c.ready c.manager c.nowNs).1.sent = s.sent := by
        simp only [Sender.send, hnone, Option.map_none, Option.toList_none, List.append_nil]
      refine ⟨?_, hsent ▸ h.readable⟩
      rw [hsent]
      exact hwal.trans h.written

theorem Sender.Records.reachable {z : Zstd} (hz : z.Inverts) {segmentBytes : Nat} {s : Sender}
    (h : (Sender.system z segmentBytes).Reachable anyStep s) : s.Records z segmentBytes := by
  refine h.invariant ?_ ?_
  · rintro s ⟨publishNamespace, faultEngine, rfl⟩
    exact ⟨rfl, fun x hx => absurd hx List.not_mem_nil⟩
  · intro s c t hs _ hn
    cases hn
    exact hs.send hz c

theorem Layout.place_segments_length_le (limit : Nat) (l : Layout) (r : ReplayRecord) :
    (l.place limit r).segments.length ≤ l.segments.length + 1 := by
  unfold Layout.place
  split <;> simp [Layout.segments]

theorem layoutOf_segments_length_le (segmentBytes : Nat) (records : List ReplayRecord) :
    (layoutOf segmentBytes records).segments.length ≤ records.length + 1 := by
  induction records using List.reverseRecOn with
  | nil => exact le_refl 1
  | append_singleton records r ih =>
    rw [layoutOf_append_singleton, List.length_append, List.length_singleton]
    exact (Layout.place_segments_length_le _ _ r).trans (Nat.add_le_add_right ih 1)

theorem Sender.Records.appended {z : Zstd} {segmentBytes : Nat} {s : Sender}
    (h : s.Records z segmentBytes) :
    Replay.appended (s.sent.map Sent.call) = s.sent.map Sent.record := by
  have hall : ∀ c ∈ s.sent.map Sent.call, c.fits = true := by
    intro c hc
    obtain ⟨x, hx, rfl⟩ := List.mem_map.mp hc
    exact (h.readable x hx).1
  rw [Replay.appended, List.filter_eq_self.mpr hall, List.map_map]
  rfl

theorem Sent.lt_record (a b : Sent) : recordLt a.record b.record = a.lt b := rfl

theorem stableSort_lt_of_before {xs : List Sent} (h : xs.Pairwise Sent.Before) :
    stableSort Sent.lt xs = xs := by
  have hkey : ∀ a b : Sent, a.lt b = true ↔
      toLex (a.timestampNs.toNat, a.sequence.toNat) <
        toLex (b.timestampNs.toNat, b.sequence.toNat) :=
    fun a b => recordLt_iff a.record b.record
  refine stableSort_of_sorted hkey (h.imp fun {a b} hab => ?_)
  have hts := UInt64.le_iff_toNat_le.mp hab.2
  have hseq := UInt64.lt_iff_toNat_lt.mp hab.1
  rw [Prod.Lex.toLex_le_toLex]
  rcases Nat.lt_or_eq_of_le hts with hlt | heq
  · exact .inl hlt
  · exact .inr ⟨heq, Nat.le_of_lt hseq⟩

/-- What a bridge has recorded is replayed as the frames that it has handed on, by their
timestamps and sequence numbers, each with the stamps of its frame and a payload that
decompresses to the message. While the clock and the numbers go on that is the order of sending. -/
theorem recording_replayed {z : Zstd} (hz : z.Inverts) {segmentBytes : Nat} {s : Sender}
    (h : (Sender.system z segmentBytes).Reachable anyStep s) (hcount : s.sent.length + 1 < 2 ^ 32) :
    ∃ w dir, s.bridge.walWriter = some (w, dir) ∧
      (∀ x ∈ s.sent, decompress z x.record.payload =
        some (createHeader x.message.topic x.message.msgType ++ x.message.data)) ∧
      (s.sent.Pairwise Sent.Before → stableSort Sent.lt s.sent = s.sent) ∧
      ∀ listing : List File, listing.Perm dir.entries →
        (WalReader.load listing).stats.recordsCorruptSkipped = 0 ∧
        ∀ startNs, ((WalReader.load listing).replay startNs).1 =
          ((stableSort Sent.lt s.sent).filter fun x => startNs ≤ x.timestampNs).map Sent.record := by
  have hrecords := Sender.Records.reachable hz h
  have hfiles := (WalWriter.session_realizes ∅ segmentBytes (s.sent.map Sent.call)).files
  refine ⟨_, _, hrecords.written, fun x hx => (hrecords.readable x hx).2,
    stableSort_lt_of_before, fun listing hl => ?_⟩
  have hsegs : segmentCount segmentBytes (s.sent.map Sent.call) < 2 ^ 32 := by
    have hle := layoutOf_segments_length_le segmentBytes (Replay.appended (s.sent.map Sent.call))
    rw [hrecords.appended, List.length_map] at hle
    rw [segmentCount, hrecords.appended]
    omega
  replace hl := hfiles ▸ hl
  obtain ⟨hload, hstats⟩ := WalReader.load_segments hsegs (layoutOf_valid segmentBytes _) hl
  rw [layoutOf_flatten, hrecords.appended, stableSort_map Sent.lt_record] at hload
  refine ⟨by rw [hstats], fun startNs => ?_⟩
  have hsort : (WalReader.load listing).records = stableSort recordLt (s.sent.map Sent.record) := by
    rw [hload, stableSort_map Sent.lt_record]
  rw [WalReader.replay_sorted hsort, hload, List.filter_map]
  rfl

/-- The clock is set back before the third message. -/
theorem recording_replayed_set_back : ∃ s w dir,
    (Sender.system rawZstd 64).run anyStep
      { bridge := { publishNamespace := [], walWriter := some (WalWriter.create ∅ 64) } }
      [⟨true, shortMessage, 1000⟩, ⟨true, shortMessage, 2000⟩, ⟨true, shortMessage, 1500⟩] = some s ∧
    s.bridge.walWriter = some (w, dir) ∧
    s.sent.map Sent.stamps = [(0, 1000), (1, 2000), (2, 1500)] ∧
    ((WalReader.load dir.entries).replay 1500).1 =
      ((stableSort Sent.lt s.sent).filter fun x => 1500 ≤ x.timestampNs).map Sent.record := by
  have hrun : ((Sender.system rawZstd 64).run anyStep
      { bridge := { publishNamespace := [], walWriter := some (WalWriter.create ∅ 64) } }
      [⟨true, shortMessage, 1000⟩, ⟨true, shortMessage, 2000⟩, ⟨true, shortMessage, 1500⟩]).map
        (fun s => s.sent.map Sent.stamps) = some [(0, 1000), (1, 2000), (2, 1500)] := by
    decide +kernel
  obtain ⟨s, hs, hstamps⟩ := Option.map_eq_some_iff.mp hrun
  have hcount : s.sent.length + 1 < 2 ^ 32 := by
    have hlength := congrArg List.length hstamps
    rw [List.length_map] at hlength
    rw [hlength]
    decide
  obtain ⟨w, dir, hwal, _, _, hreplay⟩ := recording_replayed rawZstd_inverts
    (System.Reachable.run (.start ⟨_, _, rfl⟩) hs) hcount
  exact ⟨s, w, dir, hs, hwal, hstamps, (hreplay _ (List.Perm.refl _)).2 1500⟩

end SensorForge
