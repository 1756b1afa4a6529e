import SensorForge.NetworkBridge

/-! A stream of frames at the receiving bridge, and the stream that a run of sends
produces: its sequence numbers count, its timestamps are readings of the wall clock. -/

namespace SensorForge

open ByteOrder Protocol Replay Transition

/-- The headers of those buffers that decode. -/
def headersOf (ds : List Bytes) : List FrameHeader :=
  ds.filterMap fun d => (decodeHeader d).toOption

/-- Received one after the other, every buffer that decodes is accepted. -/
def NetworkBridge.Welcomes (z : Zstd) : NetworkBridge → List Bytes → Prop
  | _, [] => True
  | b, d :: ds =>
    (∀ h, decodeHeader d = .ok h → (b.frameDecoder.decode d 0).2 = .ok h) ∧
      NetworkBridge.Welcomes z (b.receiveData z true true d).1 ds

def NotEarlier (st : StreamState) (h : FrameHeader) : Prop :=
  st.lastSequence ≤ h.sequence ∧ st.lastTimestampNs ≤ h.timestampNs

def NetworkBridge.Seen (b : NetworkBridge) : Prop :=
  ∀ st, b.frameDecoder.last 0 = some st → st.seen = true

theorem headersOf_error {d : Bytes} {err : FrameError} (h : decodeHeader d = .error err)
    (ds : List Bytes) : headersOf (d :: ds) = headersOf ds := by
  simp [headersOf, h, Except.toOption]

theorem headersOf_ok {d : Bytes} {fh : FrameHeader} (h : decodeHeader d = .ok fh)
    (ds : List Bytes) : headersOf (d :: ds) = fh :: headersOf ds := by
  simp [headersOf, h, Except.toOption]

theorem NetworkBridge.receiveData_frameDecoder (z : Zstd) (b : NetworkBridge) (okAtPublish : Bool)
    (data : Bytes) :
    (b.receiveData z true okAtPublish data).1.frameDecoder = (b.frameDecoder.decode data 0).1 := by
  unfold NetworkBridge.receiveData
  rcases b.frameDecoder.decode_cases data 0 with ⟨err, herr⟩ | ⟨fh, _, _, hok⟩
  · rw [herr]
    rfl
  · rw [hok]
    simp only [Bool.not_true, Bool.false_eq_true, if_false]
    split
    · rfl
    · split
      · rfl
      · split <;> rfl

theorem decode_of_error {d : FrameDecoder} {data : Bytes} {err : FrameError}
    (h : decodeHeader data = .error err) : d.decode data 0 = (d, .error err) := by
  rw [FrameDecoder.decode, h]

theorem NetworkBridge.Seen.decode_iff {b : NetworkBridge} (hseen : b.Seen) {data : Bytes}
    {fh : FrameHeader} (hdec : decodeHeader data = .ok fh) :
    (b.frameDecoder.decode data 0).2 = .ok fh ↔
      ∀ st ∈ b.frameDecoder.last 0, NotEarlier st fh := by
  constructor
  · intro hok st hst
    rcases b.frameDecoder.decode_cases data 0 with ⟨err, herr⟩ | ⟨fh', hdec', hnot, _⟩
    · rw [herr] at hok
      cases hok
    · rw [hdec, Except.ok.injEq] at hdec'
      exact hdec' ▸ hnot st hst (hseen st hst)
  · intro hnot
    unfold FrameDecoder.decode
    simp only [hdec]
    cases hl : b.frameDecoder.last 0 with
    | none => simp
    | some st =>
      obtain ⟨hs, ht⟩ := hnot st hl
      simp [UInt64.not_lt.mpr hs, UInt64.not_lt.mpr ht]

theorem decode_ok_last {d : FrameDecoder} {data : Bytes} {fh : FrameHeader}
    (hok : (d.decode data 0).2 = .ok fh) :
    (d.decode data 0).1.last 0 = some (StreamState.ofFrame fh) := by
  rcases d.decode_cases data 0 with ⟨err, herr⟩ | ⟨fh', _, _, h⟩
  · rw [herr] at hok
    cases hok
  · rw [h] at hok ⊢
    cases hok
    simp

/-- A stream is accepted as a whole if and only if its headers are in order and do not
begin before the frame that was accepted last. -/
theorem NetworkBridge.welcomes_iff (z : Zstd) {b : NetworkBridge} (hseen : b.Seen)
    (ds : List Bytes) :
    b.Welcomes z ds ↔
      (∀ st ∈ b.frameDecoder.last 0, ∀ h ∈ (headersOf ds).head?, NotEarlier st h) ∧
        (headersOf ds).IsChain NotBefore := by
  induction ds generalizing b with
  | nil => simp [NetworkBridge.Welcomes, headersOf]
  | cons d ds ih =>
    have hdecoder := b.receiveData_frameDecoder z true d
    cases hdec : decodeHeader d with
    | error err =>
      have hsame : (b.receiveData z true true d).1.frameDecoder = b.frameDecoder := by
        rw [hdecoder, decode_of_error hdec]
      have hrest := ih (b := (b.receiveData z true true d).1) (fun st hst => hseen st (hsame ▸ hst))
      rw [hsame] at hrest
      rw [headersOf_error hdec, ← hrest, NetworkBridge.Welcomes]
      refine and_iff_right fun h hok => ?_
      rw [hdec] at hok
      cases hok
    | ok fh =>
      rw [headersOf_ok hdec, List.isChain_cons, NetworkBridge.Welcomes]
      have hfirst : (∀ h, decodeHeader d = .ok h → (b.frameDecoder.decode d 0).2 = .ok h) ↔
          ∀ st ∈ b.frameDecoder.last 0, NotEarlier st fh := by
        rw [← hseen.decode_iff hdec, hdec]
        exact ⟨fun h => h fh rfl, fun h fh' heq => Except.ok.inj heq ▸ h⟩
      have hhead : (∀ st ∈ b.frameDecoder.last 0,
          ∀ h ∈ (fh :: headersOf ds).head?, NotEarlier st h) ↔
            ∀ st ∈ b.frameDecoder.last 0, NotEarlier st fh := by
        simp
      rw [hfirst, hhead]
      refine and_congr_right fun hnot => ?_
      have hlast : (b.receiveData z true true d).1.frameDecoder.last 0 =
          some (StreamState.ofFrame fh) := by
        rw [hdecoder]
        exact decode_ok_last ((hseen.decode_iff hdec).mpr hnot)
      have hrest := ih (b := (b.receiveData z true true d).1) (fun st hst => by
        rw [hlast] at hst
        cases hst
        rfl)
      rw [hrest, hlast]
      refine and_congr_left fun _ => ?_
      exact ⟨fun h => h _ rfl, fun h st hst => Option.mem_some.mp hst ▸ h⟩

structure SendCall where
  ready : Bool
  manager : Subscription
  nowNs : UInt64

/-- What a call has compressed when it comes to encode a frame. -/
def SendCall.attempt (z : Zstd) (c : SendCall) : Option Bytes :=
  if c.manager.hasData && c.ready && !c.manager.getData.1.isEmpty && c.manager.getData.2 then
    compress z (createHeader c.manager.topic c.manager.msgType ++ c.manager.getData.1)
      c.manager.zstdCompressionLevel
  else none

/-- The frames that a run of calls transmits. -/
def NetworkBridge.sendAll (z : Zstd) : NetworkBridge → List SendCall → List Bytes
  | _, [] => []
  | b, c :: cs =>
    let (b, out) := b.sendData z c.ready c.manager c.nowNs
    (out.map Outgoing.frame).toList ++ NetworkBridge.sendAll z b cs

/-- For each transmitted frame how many calls before it came to encode one, and the
reading of the clock. -/
def stamps (z : Zstd) : Nat → List SendCall → List (Nat × UInt64)
  | _, [] => []
  | k, c :: cs =>
    match c.attempt z with
    | none => stamps z k cs
    | some data =>
      if data.length ≤ kMaxPayload.toNat then (k, c.nowNs) :: stamps z (k + 1) cs
      else stamps z (k + 1) cs

/-- The clock has not gone back between two frames, nor has the 64-bit sequence number. -/
def StampsInOrder (txSequence : UInt64) (a b : Nat × UInt64) : Prop :=
  txSequence + a.1.toUInt64 ≤ txSequence + b.1.toUInt64 ∧ a.2 ≤ b.2

theorem NetworkBridge.sendData_none {z : Zstd} {c : SendCall} (h : c.attempt z = none)
    (b : NetworkBridge) : b.sendData z c.ready c.manager c.nowNs = (b, none) := by
  obtain ⟨ready, manager, nowNs⟩ := c
  unfold NetworkBridge.sendData
  simp only [SendCall.attempt] at h
  cases hhas : manager.hasData with
  | false => rfl
  | true =>
    cases ready with
    | false => rfl
    | true =>
      cases hempty : manager.getData.1.isEmpty with
      | true => simp [hempty]
      | false =>
        cases hvalid : manager.getData.2 with
        | false => simp [hvalid]
        | true =>
          simp only [hhas, hempty, hvalid, Bool.not_false, Bool.and_self, if_true] at h
          simp [hempty, hvalid, h]

theorem NetworkBridge.sendData_some {z : Zstd} {c : SendCall} {data : Bytes}
    (h : c.attempt z = some data) (b : NetworkBridge) :
    (b.sendData z c.ready c.manager c.nowNs).1.txSequence = b.txSequence + 1 ∧
      (b.sendData z c.ready c.manager c.nowNs).2.map Outgoing.frame =
        if data.length ≤ kMaxPayload.toNat then
          some ((FrameHeader.of .kControl b.txSequence c.nowNs kFlagCompressed data).frame data)
        else none := by
  obtain ⟨ready, manager, nowNs⟩ := c
  obtain ⟨hguard, hcompress⟩ := Option.ite_none_right_eq_some.mp h
  simp only [Bool.and_eq_true, Bool.not_eq_true'] at hguard hcompress
  obtain ⟨⟨⟨hhas, rfl⟩, hempty⟩, hvalid⟩ := hguard
  unfold NetworkBridge.sendData
  by_cases hfit : data.length ≤ kMaxPayload.toNat
  · have hencode := encodeFrame_eq .kControl b.txSequence nowNs kFlagCompressed hfit
    simp only [hhas, hempty, hvalid, hcompress, hencode, if_pos hfit]
    refine ⟨rfl, ?_⟩
    simp only [Bool.not_true, Bool.or_self, Bool.false_eq_true, if_false, Option.map_some]
    split <;> rfl
  · have hencode := encodeFrame_error .kControl b.txSequence nowNs kFlagCompressed hfit
    simp only [hhas, hempty, hvalid, hcompress, hencode, if_neg hfit]
    exact ⟨rfl, rfl⟩

theorem toUInt64_succ (n : Nat) : (n + 1).toUInt64 = n.toUInt64 + 1 := UInt64.ofNat_add n 1

theorem decodeHeader_sent {data : Bytes} (hfit : data.length ≤ kMaxPayload.toNat)
    (sequence timestampNs : UInt64) :
    decodeHeader ((FrameHeader.of .kControl sequence timestampNs kFlagCompressed data).frame data) =
      .ok (FrameHeader.of .kControl sequence timestampNs kFlagCompressed data) := by
  have hdec := decodeHeader_frame
    (FrameHeader.of_describes .kControl sequence timestampNs kFlagCompressed hfit) []
  rwa [List.append_nil] at hdec

/-- What is transmitted decodes, and carries the stamps of its calls. -/
theorem NetworkBridge.sendAll_headers (z : Zstd) {b : NetworkBridge} {txSequence : UInt64} {k : Nat}
    (hb : b.txSequence = txSequence + k.toUInt64) (calls : List SendCall) :
    (∀ f ∈ b.sendAll z calls, ∃ h, decodeHeader f = .ok h) ∧
      (headersOf (b.sendAll z calls)).map (fun h => (h.sequence, h.timestampNs)) =
        (stamps z k calls).map fun a => (txSequence + a.1.toUInt64, a.2) := by
  induction calls generalizing b k with
  | nil => exact ⟨fun f hf => absurd hf List.not_mem_nil, rfl⟩
  | cons c cs ih =>
    cases hattempt : c.attempt z with
    | none =>
      simp only [NetworkBridge.sendAll, NetworkBridge.sendData_none hattempt, stamps, hattempt,
        Option.map_none, Option.toList_none, List.nil_append]
      exact ih hb
    | some data =>
      obtain ⟨hsequence, hout⟩ := NetworkBridge.sendData_some hattempt b
      have hnext : (b.sendData z c.ready c.manager c.nowNs).1.txSequence =
          txSequence + (k + 1).toUInt64 := by
        rw [hsequence, hb, toUInt64_succ, add_assoc]
      have hrest := ih hnext
      simp only [NetworkBridge.sendAll, hout, stamps, hattempt]
      by_cases hfit : data.length ≤ kMaxPayload.toNat
      · have hdec := decodeHeader_sent hfit b.txSequence c.nowNs
        simp only [if_pos hfit, Option.toList_some, List.singleton_append, List.forall_mem_cons,
          headersOf_ok hdec, List.map_cons]
        refine ⟨⟨⟨_, hdec⟩, hrest.1⟩, ?_⟩
        rw [hrest.2, ← hb]
        rfl
      · simp only [if_neg hfit, Option.toList_none, List.nil_append]
        exact hrest

theorem NetworkBridge.welcomes_sent_iff (z : Zstd) (sender : NetworkBridge) (calls : List SendCall)
    {receiver : NetworkBridge} (hempty : receiver.frameDecoder.last 0 = none) :
    receiver.Welcomes z (sender.sendAll z calls) ↔
      (stamps z 0 calls).IsChain (StampsInOrder sender.txSequence) := by
  have hb : sender.txSequence = sender.txSequence + (0 : Nat).toUInt64 :=
    (add_zero sender.txSequence).symm
  have hheaders := (NetworkBridge.sendAll_headers z hb calls).2
  have hseen : receiver.Seen := by
    intro st hst
    rw [hempty] at hst
    cases hst
  rw [NetworkBridge.welcomes_iff z hseen, hempty]
  have hchain : (headersOf (sender.sendAll z calls)).IsChain NotBefore ↔
      ((headersOf (sender.sendAll z calls)).map fun h => (h.sequence, h.timestampNs)).IsChain
        fun a b => a.1 ≤ b.1 ∧ a.2 ≤ b.2 := by
    rw [List.isChain_map]
    rfl
  rw [hchain, hheaders, List.isChain_map]
  exact and_iff_right nofun

/-- Every transmitted frame decodes. A receiver without history accepts all of them if
and only if neither the clock nor the sequence number goes back between two of them. -/
theorem peer_stream_accepted_iff (z : Zstd) (sender : NetworkBridge) (calls : List SendCall)
    {receiver : NetworkBridge} (hempty : receiver.frameDecoder.last 0 = none) :
    (∀ f ∈ sender.sendAll z calls, ∃ h, decodeHeader f = .ok h) ∧
      (receiver.Welcomes z (sender.sendAll z calls) ↔
        (stamps z 0 calls).IsChain (StampsInOrder sender.txSequence)) :=
  ⟨(NetworkBridge.sendAll_headers z (add_zero sender.txSequence).symm calls).1,
    NetworkBridge.welcomes_sent_iff z sender calls hempty⟩

instance (txSequence : UInt64) (a b : Nat × UInt64) : Decidable (StampsInOrder txSequence a b) :=
  inferInstanceAs (Decidable (_ ∧ _))

theorem peer_stream_accepted_steady :
    NetworkBridge.Welcomes rawZstd { publishNamespace := [] }
      (NetworkBridge.sendAll rawZstd { publishNamespace := [] }
        [⟨true, shortMessage, 1000⟩, ⟨false, shortMessage, 500⟩, ⟨true, shortMessage, 1000⟩]) :=
  (peer_stream_accepted_iff rawZstd _ _ rfl).2.mpr (by decide +kernel)

/-- The clock is set back between two messages. -/
theorem peer_stream_rejected :
    ¬ ∀ (sender receiver : NetworkBridge) (calls : List SendCall),
      receiver.frameDecoder.last 0 = none →
        receiver.Welcomes rawZstd (sender.sendAll rawZstd calls) := by
  intro h
  have hall := h { publishNamespace := [] } { publishNamespace := [] }
    [⟨true, shortMessage, 1000⟩, ⟨true, shortMessage, 999⟩] rfl
  have hchain := (NetworkBridge.welcomes_sent_iff rawZstd _ _ rfl).mp hall
  exact absurd hchain (by decide +kernel)

end SensorForge
