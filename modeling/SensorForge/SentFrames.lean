import SensorForge.PeerStream

/-! What a bridge sends for the messages of its subscriptions, and what a bridge that has heard
some of them publishes for the next frame. -/

namespace SensorForge

open ByteOrder Protocol Replay

structure Message where
  topic : Bytes
  msgType : Bytes
  data : Bytes
  deriving DecidableEq

def Subscription.message (manager : Subscription) : Message :=
  ⟨manager.topic, manager.msgType, manager.getData.1⟩

/-- The names are not empty and have no zero byte in them. -/
structure Message.Named (m : Message) : Prop where
  topic : m.topic ≠ []
  topicPlain : 0 ∉ m.topic
  msgType : m.msgType ≠ []
  msgTypePlain : 0 ∉ m.msgType

/-- A topic has one publisher, with the type of its first message. -/
def publisherFor (publishNamespace : Bytes) (ms : List Message) (topic : Bytes) :
    Option Publisher :=
  (ms.find? (·.topic = topic)).map fun m => ⟨publishNamespace ++ m.topic, m.msgType⟩

def publication (publishNamespace : Bytes) (ms : List Message) (m : Message) : Publication :=
  ⟨(publisherFor publishNamespace ms m.topic).getD ⟨publishNamespace ++ m.topic, m.msgType⟩,
    m.data⟩

def publications (publishNamespace : Bytes) (ms : List Message) : List Publication :=
  ms.map (publication publishNamespace ms)

theorem publications_append_singleton (publishNamespace : Bytes) (ms : List Message)
    (m : Message) : publications publishNamespace (ms ++ [m]) =
      publications publishNamespace ms ++ [publication publishNamespace ms m] := by
  rw [publications, List.map_append, List.map_singleton]
  congr 1
  · refine List.map_congr_left fun m' hm' => ?_
    obtain ⟨first, hfirst⟩ : ∃ first, ms.find? (·.topic = m'.topic) = some first :=
      Option.isSome_iff_exists.mp (List.find?_isSome.mpr ⟨m', hm', by simp⟩)
    simp [publication, publisherFor, List.find?_append, hfirst]
  · cases hfind : ms.find? (·.topic = m.topic) with
    | none => simp [publication, publisherFor, List.find?_append, hfind]
    | some first => simp [publication, publisherFor, List.find?_append, hfind]

/-- The bytes are a frame of the message. -/
def Framed (z : Zstd) (m : Message) (sequence timestampNs : UInt64) (frame : Bytes) : Prop :=
  ∃ c, decompress z c = some (createHeader m.topic m.msgType ++ m.data) ∧
    c.length ≤ kMaxPayload.toNat ∧
    frame = (FrameHeader.of .kControl sequence timestampNs kFlagCompressed c).frame c

/-- A bridge that has accepted the messages, the last of them with these stamps. -/
structure NetworkBridge.Heard (b : NetworkBridge) (ns : Bytes) (ms : List Message)
    (last : Option (UInt64 × UInt64)) : Prop where
  space : b.publishNamespace = ns
  publishers : b.publishers = publisherFor ns ms
  last : b.frameDecoder.last 0 = last.map fun stamps => ⟨stamps.1, stamps.2, true⟩

section Receive

variable {z : Zstd} {b : NetworkBridge} {ns : Bytes} {ms : List Message}
  {last : Option (UInt64 × UInt64)} {m : Message} {sequence timestampNs : UInt64} {frame : Bytes}

theorem Framed.decodes (h : Framed z m sequence timestampNs frame) :
    ∃ fh, decodeHeader frame = .ok fh ∧ fh.sequence = sequence ∧ fh.timestampNs = timestampNs ∧
      decompress z (payloadOf frame fh) = some (createHeader m.topic m.msgType ++ m.data) := by
  obtain ⟨c, hc, hfit, rfl⟩ := h
  refine ⟨_, decodeHeader_sent hfit sequence timestampNs, rfl, rfl, ?_⟩
  have hpay := payloadOf_frame
    (FrameHeader.of_describes .kControl sequence timestampNs kFlagCompressed hfit) []
  rw [List.append_nil] at hpay
  rw [hpay, hc]

theorem NetworkBridge.Heard.accepts_iff (h : b.Heard ns ms last) {fh : FrameHeader}
    (hdec : decodeHeader frame = .ok fh) : (b.frameDecoder.decode frame 0).2 = .ok fh ↔
      ∀ stamps ∈ last, stamps.1 ≤ fh.sequence ∧ stamps.2 ≤ fh.timestampNs := by
  have hseen : b.Seen := by
    intro st hst
    rw [h.last] at hst
    obtain ⟨stamps, _, rfl⟩ := Option.map_eq_some_iff.mp hst
    rfl
  rw [hseen.decode_iff hdec, h.last]
  cases last with
  | none => simp
  | some stamps => simp [NotEarlier]

theorem publisherFor_append_singleton (ns : Bytes) (ms : List Message) (m : Message) :
    publisherFor ns (ms ++ [m]) = Function.update (publisherFor ns ms) m.topic
      (some ((publisherFor ns ms m.topic).getD ⟨ns ++ m.topic, m.msgType⟩)) := by
  funext topic
  by_cases htopic : topic = m.topic
  · subst htopic
    rw [Function.update_self]
    cases hfind : ms.find? (·.topic = m.topic) with
    | none => simp [publisherFor, List.find?_append, hfind]
    | some first => simp [publisherFor, List.find?_append, hfind]
  · rw [Function.update_of_ne htopic]
    simp [publisherFor, List.find?_append, Ne.symm htopic]

/-- A frame that is not behind the last one is published, for the topic's publisher. -/
theorem NetworkBridge.Heard.accept (h : b.Heard ns ms last) (hm : m.Named)
    (hframe : Framed z m sequence timestampNs frame)
    (hlast : ∀ stamps ∈ last, stamps.1 ≤ sequence ∧ stamps.2 ≤ timestampNs) :
    (b.receiveData z true true frame).1.Heard ns (ms ++ [m]) (some (sequence, timestampNs)) ∧
      (b.receiveData z true true frame).1.frameRejectCount = b.frameRejectCount ∧
      (b.receiveData z true true frame).2 = [publication ns ms m] := by
  obtain ⟨fh, hdec, rfl, rfl, hpayload⟩ := hframe.decodes
  have hok := (h.accepts_iff hdec).mpr hlast
  rcases b.frameDecoder.decode_cases frame 0 with ⟨err, herr⟩ | ⟨fh', hdec', _, hdecode⟩
  · rw [herr] at hok
    cases hok
  · obtain rfl : fh = fh' := Except.ok.inj (hdec.symm.trans hdec')
    have hheader : (createHeader m.topic m.msgType).length =
        m.topic.length + 1 + m.msgType.length + 1 := by
      simp [createHeader]
      omega
    have htopic : m.topic.isEmpty = false := by simpa using hm.topic
    have htype : m.msgType.isEmpty = false := by simpa using hm.msgType
    have hlen : ¬ m.topic.length + 1 + m.msgType.length + 1 >
        (createHeader m.topic m.msgType ++ m.data).length := by
      rw [List.length_append, hheader]
      omega
    have hreceive : b.receiveData z true true frame =
        ({ b with
            frameDecoder := ⟨Function.update b.frameDecoder.last 0 (some (StreamState.ofFrame fh))⟩
            publishers := publisherFor ns (ms ++ [m]) }, [publication ns ms m]) := by
      simp only [NetworkBridge.receiveData, hdecode, hpayload, h.space, h.publishers,
        parseHeader_createHeader hm.topic hm.topicPlain hm.msgType hm.msgTypePlain, htopic, htype,
        if_neg hlen, publisherFor_append_singleton]
      simp [List.drop_left' hheader, publication]
    rw [hreceive]
    exact ⟨⟨h.space, rfl, by simp [StreamState.ofFrame]⟩, rfl, rfl⟩

/-- One that is behind is refused and counted. -/
theorem NetworkBridge.Heard.refuse (h : b.Heard ns ms last)
    (hframe : Framed z m sequence timestampNs frame)
    (hlast : ¬ ∀ stamps ∈ last, stamps.1 ≤ sequence ∧ stamps.2 ≤ timestampNs) :
    (b.receiveData z true true frame).1.Heard ns ms last ∧
      (b.receiveData z true true frame).1.frameRejectCount = b.frameRejectCount + 1 ∧
      (b.receiveData z true true frame).2 = [] := by
  obtain ⟨fh, hdec, rfl, rfl, _⟩ := hframe.decodes
  rcases b.frameDecoder.decode_cases frame 0 with ⟨err, herr⟩ | ⟨fh', hdec', _, hdecode⟩
  · simp only [NetworkBridge.receiveData, herr]
    exact ⟨⟨h.space, h.publishers, h.last⟩, rfl, rfl⟩
  · obtain rfl : fh = fh' := Except.ok.inj (hdec.symm.trans hdec')
    exact absurd ((h.accepts_iff hdec).mp (by rw [hdecode])) hlast

end Receive

/-- A frame that has been sent, and for which message. -/
structure Sent where
  message : Message
  sequence : UInt64
  timestampNs : UInt64
  frame : Bytes

def Sent.stamps (x : Sent) : UInt64 × UInt64 := (x.sequence, x.timestampNs)

/-- A bridge that has accepted these frames, and no others. -/
def NetworkBridge.HeardAll (b : NetworkBridge) (ns : Bytes) (xs : List Sent) : Prop :=
  b.Heard ns (xs.map (·.message)) (xs.getLast?.map Sent.stamps)

section HeardAll

variable {z : Zstd} {b : NetworkBridge} {ns : Bytes} {xs : List Sent} {x : Sent}

theorem NetworkBridge.HeardAll.stamps_iff (xs : List Sent) (x : Sent) :
    (∀ stamps ∈ xs.getLast?.map Sent.stamps, stamps.1 ≤ x.sequence ∧ stamps.2 ≤ x.timestampNs) ↔
      ∀ y ∈ xs.getLast?, y.sequence ≤ x.sequence ∧ y.timestampNs ≤ x.timestampNs := by
  simp [Sent.stamps]

theorem NetworkBridge.HeardAll.accept (h : b.HeardAll ns xs) (hx : x.message.Named)
    (hframe : Framed z x.message x.sequence x.timestampNs x.frame)
    (hlast : ∀ y ∈ xs.getLast?, y.sequence ≤ x.sequence ∧ y.timestampNs ≤ x.timestampNs) :
    (b.receiveData z true true x.frame).1.HeardAll ns (xs ++ [x]) ∧
      (b.receiveData z true true x.frame).1.frameRejectCount = b.frameRejectCount ∧
      publications ns ((xs ++ [x]).map (·.message)) =
        publications ns (xs.map (·.message)) ++ (b.receiveData z true true x.frame).2 := by
  obtain ⟨hheard, hrejects, hout⟩ :=
    NetworkBridge.Heard.accept h hx hframe ((NetworkBridge.HeardAll.stamps_iff xs x).mpr hlast)
  refine ⟨?_, hrejects, ?_⟩
  · rw [NetworkBridge.HeardAll, List.map_append, List.getLast?_concat]
    exact hheard
  · rw [hout, List.map_append, List.map_singleton, publications_append_singleton]

theorem NetworkBridge.HeardAll.refuse (h : b.HeardAll ns xs)
    (hframe : Framed z x.message x.sequence x.timestampNs x.frame)
    (hlast : ¬ ∀ y ∈ xs.getLast?, y.sequence ≤ x.sequence ∧ y.timestampNs ≤ x.timestampNs) :
    (b.receiveData z true true x.frame).1.HeardAll ns xs ∧
      (b.receiveData z true true x.frame).1.frameRejectCount = b.frameRejectCount + 1 ∧
      (b.receiveData z true true x.frame).2 = [] :=
  NetworkBridge.Heard.refuse h hframe (mt (NetworkBridge.HeardAll.stamps_iff xs x).mp hlast)

/-- What does not decode is counted, and changes nothing else. -/
theorem NetworkBridge.HeardAll.garbled (h : b.HeardAll ns xs) {data : Bytes} {err : FrameError}
    (hdata : decodeHeader data = .error err) :
    (b.receiveData z true true data).1.HeardAll ns xs ∧
      (b.receiveData z true true data).1.frameRejectCount = b.frameRejectCount + 1 ∧
      (b.receiveData z true true data).2 = [] := by
  simp only [NetworkBridge.receiveData, decode_of_error hdata]
  exact ⟨⟨h.space, h.publishers, h.last⟩, rfl, rfl⟩

end HeardAll

/-- A sending bridge, the last reading of its clock, and what it has sent. -/
structure Sender where
  bridge : NetworkBridge
  clock : UInt64 := 0
  sent : List Sent := []

def Sender.send (z : Zstd) (s : Sender) (ready : Bool) (manager : Subscription) (nowNs : UInt64) :
    Sender × Option Sent :=
  let (bridge, out) := s.bridge.sendData z ready manager nowNs
  let sent := out.map fun out => ⟨manager.message, s.bridge.txSequence, nowNs, out.frame⟩
  ({ bridge, clock := nowNs, sent := s.sent ++ sent.toList }, sent)

/-- The clock does not go back, the sequence number does not begin again, and the names are
those of a topic and of a type. -/
structure Sender.Steady (s : Sender) (manager : Subscription) (nowNs : UInt64) : Prop where
  clock : s.clock ≤ nowNs
  sequence : s.bridge.txSequence + 1 ≠ 0
  named : manager.message.Named

instance Message.decideNamed (m : Message) : Decidable m.Named :=
  decidable_of_iff (m.topic ≠ [] ∧ 0 ∉ m.topic ∧ m.msgType ≠ [] ∧ 0 ∉ m.msgType)
    ⟨fun ⟨a, b, c, d⟩ => ⟨a, b, c, d⟩, fun ⟨a, b, c, d⟩ => ⟨a, b, c, d⟩⟩

instance Sender.decideSteady (s : Sender) (manager : Subscription) (nowNs : UInt64) :
    Decidable (s.Steady manager nowNs) :=
  decidable_of_iff
    (s.clock ≤ nowNs ∧ s.bridge.txSequence + 1 ≠ 0 ∧ manager.message.Named)
    ⟨fun ⟨a, b, c⟩ => ⟨a, b, c⟩, fun ⟨a, b, c⟩ => ⟨a, b, c⟩⟩

def Sent.Before (a b : Sent) : Prop := a.sequence < b.sequence ∧ a.timestampNs ≤ b.timestampNs

structure Sender.Inv (z : Zstd) (s : Sender) : Prop where
  framed : ∀ x ∈ s.sent, x.message.Named ∧ Framed z x.message x.sequence x.timestampNs x.frame
  ordered : s.sent.Pairwise Sent.Before
  below : ∀ x ∈ s.sent, x.sequence < s.bridge.txSequence ∧ x.timestampNs ≤ s.clock

theorem sequence_lt_next {n : UInt64} (h : n + 1 ≠ 0) : n < n + 1 := by
  have hne : n.toNat + 1 ≠ 2 ^ 64 := by
    intro heq
    apply h
    apply UInt64.toNat_inj.mp
    rw [UInt64.toNat_add, UInt64.toNat_one, heq]
    rfl
  have hlt := n.toNat_lt
  rw [UInt64.lt_iff_toNat_lt, UInt64.toNat_add, UInt64.toNat_one, Nat.mod_eq_of_lt (by omega)]
  exact Nat.lt_succ_self _

/-- A call sends nothing, or a frame of its message with the next number. -/
theorem Sender.send_cases {z : Zstd} (hz : z.Inverts) (s : Sender) (ready : Bool)
    (manager : Subscription) (nowNs : UInt64) :
    (∃ bridge, s.send z ready manager nowNs = (⟨bridge, nowNs, s.sent⟩, none) ∧
      (bridge.txSequence = s.bridge.txSequence ∨
        bridge.txSequence = s.bridge.txSequence + 1)) ∨
    ∃ bridge frame,
      s.send z ready manager nowNs =
        (⟨bridge, nowNs, s.sent ++ [⟨manager.message, s.bridge.txSequence, nowNs, frame⟩]⟩,
          some ⟨manager.message, s.bridge.txSequence, nowNs, frame⟩) ∧
      bridge.txSequence = s.bridge.txSequence + 1 ∧
      Framed z manager.message s.bridge.txSequence nowNs frame := by
  cases hattempt : SendCall.attempt z ⟨ready, manager, nowNs⟩ with
  | none =>
    have hsend := NetworkBridge.sendData_none hattempt s.bridge
    refine .inl ⟨s.bridge, ?_, .inl rfl⟩
    simp only [Sender.send, hsend]
    simp
  | some c =>
    obtain ⟨hsequence, hout⟩ := NetworkBridge.sendData_some hattempt s.bridge
    have hcompress := (Option.ite_none_right_eq_some.mp hattempt).2
    by_cases hfit : c.length ≤ kMaxPayload.toNat
    · rw [if_pos hfit] at hout
      obtain ⟨out, hsome, hframe⟩ := Option.map_eq_some_iff.mp hout
      refine .inr ⟨_, out.frame, ?_, hsequence, c, decompress_compress hz hcompress, hfit, hframe⟩
      simp only [Sender.send, hsome]
      rfl
    · rw [if_neg hfit, Option.map_eq_none_iff] at hout
      refine .inl ⟨_, ?_, .inr hsequence⟩
      simp only [Sender.send, hout]
      simp

theorem Sender.Inv.send {z : Zstd} (hz : z.Inverts) {s : Sender} (h : s.Inv z) {ready : Bool}
    {manager : Subscription} {nowNs : UInt64} (hsteady : s.Steady manager nowNs) :
    (s.send z ready manager nowNs).1.Inv z := by
  have hlater : ∀ x ∈ s.sent, x.timestampNs ≤ nowNs :=
    fun x hx => UInt64.le_trans (h.below x hx).2 hsteady.clock
  have hnext := sequence_lt_next hsteady.sequence
  have hbelow : ∀ x ∈ s.sent, x.sequence < s.bridge.txSequence + 1 :=
    fun x hx => UInt64.lt_trans (h.below x hx).1 hnext
  rcases s.send_cases hz ready manager nowNs with
    ⟨bridge, hsend, hsequence⟩ | ⟨bridge, frame, hsend, hsequence, hframed⟩
  · rw [hsend]
    refine ⟨h.framed, h.ordered, fun x hx => ⟨?_, hlater x hx⟩⟩
    rcases hsequence with hsequence | hsequence
    · exact hsequence ▸ (h.below x hx).1
    · exact hsequence ▸ hbelow x hx
  · rw [hsend]
    constructor
    · intro x hx
      rcases List.mem_append.mp hx with hx | hx
      · exact h.framed x hx
      · obtain rfl := List.mem_singleton.mp hx
        exact ⟨hsteady.named, hframed⟩
    · refine List.pairwise_append.mpr ⟨h.ordered, List.pairwise_singleton _ _, fun x hx y hy => ?_⟩
      obtain rfl := List.mem_singleton.mp hy
      exact ⟨(h.below x hx).1, hlater x hx⟩
    · intro x hx
      rcases List.mem_append.mp hx with hx | hx
      · exact ⟨hsequence ▸ hbelow x hx, hlater x hx⟩
      · obtain rfl := List.mem_singleton.mp hx
        exact ⟨hsequence ▸ hnext, UInt64.le_refl _⟩

end SensorForge
