import SensorForge.FrameDecoder
import SensorForge.TransitionSystem
import SensorForge.WalWriter

/-! The bridge: what it sends for one message of a topic, and what it publishes for one
received frame. Strings are their bytes. -/

namespace SensorForge

open ByteOrder Protocol Replay Transition

inductive ContentSize where
  | error
  | unknown
  | size (n : Nat)

/-- The functions of the compression library that the bridge calls. `none` is an error
result; `compress` and `decompress` are told how many bytes they may write. -/
structure Zstd where
  compressBound : Nat → Nat
  compress : Nat → Bytes → Int → Option Bytes
  getFrameContentSize : Bytes → ContentSize
  decompress : Nat → Bytes → Option Bytes

/-- Decompression inverts compression, and the exact content size is reported. -/
structure Zstd.Inverts (z : Zstd) : Prop where
  contentSize : ∀ data level c, z.compress (z.compressBound data.length) data level = some c →
    z.getFrameContentSize c = .size data.length
  decompress : ∀ data level c, z.compress (z.compressBound data.length) data level = some c →
    z.decompress data.length c = some data

def compress (z : Zstd) (data : Bytes) (level : Int) : Option Bytes :=
  z.compress (z.compressBound data.length) data level

/-- The output has the announced size, whatever was written into it. -/
def decompress (z : Zstd) (compressedData : Bytes) : Option Bytes :=
  match z.getFrameContentSize compressedData with
  | .error => none
  | .unknown => none
  | .size n => (z.decompress n compressedData).map (overwrite (List.replicate n 0) 0)

def createHeader (topic msgType : Bytes) : Bytes := topic ++ [0] ++ (msgType ++ [0])

def scanTerminator (header : Bytes) (start : Nat) : Nat :=
  start + ((header.drop start).takeWhile (· ≠ 0)).length

def parseHeader (header : Bytes) : Bytes × Bytes :=
  if header.length < 4 then ([], []) else
  let topicEnd := scanTerminator header 0
  if topicEnd ≥ header.length - 1 then ([], []) else
  let topic := header.take topicEnd
  let typeStart := topicEnd + 1
  let typeEnd := scanTerminator header typeStart
  if typeEnd ≥ header.length then (topic, []) else
  (topic, (header.drop typeStart).take (typeEnd - typeStart))

structure Publisher where
  topicName : Bytes
  msgType : Bytes
  deriving DecidableEq

structure Publication where
  publisher : Publisher
  payload : Bytes
  deriving DecidableEq

/-- A subscription as the send timer sees it: whether it has data, and what `get_data`
returns with its validity flag. -/
structure Subscription where
  topic : Bytes
  msgType : Bytes
  zstdCompressionLevel : Int
  hasData : Bool
  getData : Bytes × Bool

inductive Outgoing where
  | write (frame : Bytes)
  | process (frame : Bytes) (topic : Bytes)
  deriving DecidableEq

def Outgoing.frame : Outgoing → Bytes
  | .write frame => frame
  | .process frame _ => frame

structure NetworkBridge where
  publishNamespace : Bytes
  publishers : Bytes → Option Publisher := fun _ => none
  txSequence : UInt64 := 0
  frameDecoder : FrameDecoder := {}
  frameRejectCount : UInt64 := 0
  crcFailureCount : UInt64 := 0
  walWriter : Option (WalWriter × Directory) := none
  faultEngine : Bool := false

/-- `ready` is the interface's state, `nowNs` the wall clock. The sequence number is
used up even when encoding throws. -/
def NetworkBridge.sendData (z : Zstd) (b : NetworkBridge) (ready : Bool) (manager : Subscription)
    (nowNs : UInt64) : NetworkBridge × Option Outgoing :=
  if !manager.hasData then (b, none) else
  if !ready then (b, none) else
  let (data, isDataValid) := manager.getData
  if data.isEmpty || !isDataValid then (b, none) else
  let message := createHeader manager.topic manager.msgType ++ data
  match compress z message manager.zstdCompressionLevel with
  | none => (b, none)
  | some compressedData =>
    let sequence := b.txSequence
    let b := { b with txSequence := b.txSequence + 1 }
    match encodeFrame .kControl sequence nowNs kFlagCompressed compressedData with
    | .error _ => (b, none)
    | .ok frame =>
      let recorded : AppendCall :=
        { timestampNs := nowNs, sensorType := .kControl, sequence := b.txSequence - 1
          payload := compressedData }
      let b := { b with walWriter := b.walWriter.map fun (w, dir) => (w.append dir recorded).1 }
      (b, some (if b.faultEngine then .process frame manager.topic else .write frame))

/-- The callback for received bytes, with the publications it makes. `okAtStart` and
`okAtPublish` are the two readings of `rclcpp::ok`. -/
def NetworkBridge.receiveData (z : Zstd) (b : NetworkBridge) (okAtStart okAtPublish : Bool)
    (data : Bytes) : NetworkBridge × List Publication :=
  if !okAtStart then (b, []) else
  match b.frameDecoder.decode data 0 with
  | (frameDecoder, .error err) =>
    ({ b with
        frameDecoder
        frameRejectCount := b.frameRejectCount + 1
        crcFailureCount := b.crcFailureCount +
          if err = .headerCrcMismatch ∨ err = .payloadCrcMismatch then 1 else 0 }, [])
  | (frameDecoder, .ok fh) =>
    let b := { b with frameDecoder }
    match decompress z (payloadOf data fh) with
    | none => (b, [])
    | some decompressedData =>
      let (topic, msgType) := parseHeader decompressedData
      if topic.isEmpty || msgType.isEmpty then (b, []) else
      let headerLength := topic.length + 1 + msgType.length + 1
      if headerLength > decompressedData.length then (b, []) else
      let publisher := (b.publishers topic).getD ⟨b.publishNamespace ++ topic, msgType⟩
      let b := { b with publishers := Function.update b.publishers topic (some publisher) }
      (b, if okAtPublish then [⟨publisher, decompressedData.drop headerLength⟩] else [])

inductive BridgeAction where
  | send (ready : Bool) (manager : Subscription) (nowNs : UInt64)
  | receive (okAtStart okAtPublish : Bool) (data : Bytes)

def NetworkBridge.system (z : Zstd) : System NetworkBridge BridgeAction where
  start b := ∃ publishNamespace walWriter faultEngine,
    b = { publishNamespace, walWriter, faultEngine }
  next b
    | .send ready manager nowNs => some (b.sendData z ready manager nowNs).1
    | .receive okAtStart okAtPublish data => some (b.receiveData z okAtStart okAtPublish data).1

theorem scanTerminator_append (pre : Bytes) {field : Bytes} (h : 0 ∉ field) (rest : Bytes) :
    scanTerminator (pre ++ (field ++ 0 :: rest)) pre.length = pre.length + field.length := by
  have hall : ∀ c ∈ field, (c != 0) = true := by
    intro c hc
    rw [bne_iff_ne]
    rintro rfl
    exact h hc
  rw [scanTerminator, List.drop_left, List.takeWhile_append_of_pos (by simpa using hall)]
  simp

theorem createHeader_append (topic msgType data : Bytes) :
    createHeader topic msgType ++ data = topic ++ 0 :: (msgType ++ 0 :: data) := by
  simp [createHeader]

theorem parseHeader_createHeader {topic msgType : Bytes} (ht : topic ≠ []) (ht0 : 0 ∉ topic)
    (hm : msgType ≠ []) (hm0 : 0 ∉ msgType) (data : Bytes) :
    parseHeader (createHeader topic msgType ++ data) = (topic, msgType) := by
  have htpos := List.length_pos_of_ne_nil ht
  have hmpos := List.length_pos_of_ne_nil hm
  have hlen : (createHeader topic msgType ++ data).length =
      topic.length + 1 + (msgType.length + 1 + data.length) := by
    simp [createHeader_append]
    omega
  have htopic : scanTerminator (createHeader topic msgType ++ data) 0 = topic.length := by
    rw [createHeader_append]
    simpa using scanTerminator_append [] ht0 (msgType ++ 0 :: data)
  have hsplit : createHeader topic msgType ++ data =
      (topic ++ [0]) ++ (msgType ++ 0 :: data) := by
    simp [createHeader_append]
  have htype : scanTerminator (createHeader topic msgType ++ data) (topic.length + 1) =
      topic.length + 1 + msgType.length := by
    have hscan := scanTerminator_append (topic ++ [0]) hm0 data
    rw [List.length_append, List.length_singleton] at hscan
    rw [hsplit, hscan]
  have hfirst : (createHeader topic msgType ++ data).take topic.length = topic := by
    rw [createHeader_append]
    exact List.take_left' rfl
  have hsecond : ((createHeader topic msgType ++ data).drop (topic.length + 1)).take
      (topic.length + 1 + msgType.length - (topic.length + 1)) = msgType := by
    rw [hsplit, List.drop_left' (by simp), Nat.add_sub_cancel_left]
    exact List.take_left' rfl
  simp only [parseHeader, htopic, htype, hfirst, hsecond, hlen]
  rw [if_neg (by omega), if_neg (by omega), if_neg (by omega)]

theorem decompress_compress {z : Zstd} (hz : z.Inverts) {data c : Bytes} {level : Int}
    (h : compress z data level = some c) : decompress z c = some data := by
  rw [decompress, hz.contentSize data level c h]
  simp only [hz.decompress data level c h, Option.map_some, overwrite]
  simp

def NetworkBridge.Unused (b : NetworkBridge) : Prop :=
  b.frameDecoder.last 0 = none → ∀ topic, b.publishers topic = none

theorem NetworkBridge.sendData_state (z : Zstd) (b : NetworkBridge) (ready : Bool)
    (manager : Subscription) (nowNs : UInt64) :
    ∃ txSequence walWriter,
      (b.sendData z ready manager nowNs).1 = { b with txSequence, walWriter } := by
  unfold NetworkBridge.sendData
  split
  · exact ⟨_, _, rfl⟩
  split
  · exact ⟨_, _, rfl⟩
  split
  split
  · exact ⟨_, _, rfl⟩
  simp only
  split
  · exact ⟨_, _, rfl⟩
  split <;> exact ⟨_, _, rfl⟩

theorem NetworkBridge.Unused.receiveData {b : NetworkBridge} (h : b.Unused) (z : Zstd)
    (okAtStart okAtPublish : Bool) (data : Bytes) :
    (b.receiveData z okAtStart okAtPublish data).1.Unused := by
  unfold NetworkBridge.receiveData
  split
  · exact h
  · rcases b.frameDecoder.decode_cases data 0 with ⟨err, herr⟩ | ⟨fh, _, _, hok⟩
    · rw [herr]
      exact h
    · rw [hok]
      have hused : Function.update b.frameDecoder.last 0 (some (StreamState.ofFrame fh)) 0 ≠ none := by
        simp
      simp only
      split
      · exact fun hnone => absurd hnone hused
      · split
        · exact fun hnone => absurd hnone hused
        · split
          · exact fun hnone => absurd hnone hused
          · exact fun hnone => absurd hnone hused

theorem NetworkBridge.unused_of_reachable {z : Zstd} {b : NetworkBridge}
    (h : (NetworkBridge.system z).Reachable anyStep b) : b.Unused := by
  refine h.invariant ?_ ?_
  · rintro b ⟨publishNamespace, walWriter, faultEngine, rfl⟩ _ topic
    rfl
  · rintro b (⟨ready, manager, nowNs⟩ | ⟨okAtStart, okAtPublish, data⟩) t hb _ hn
    · cases hn
      obtain ⟨txSequence, walWriter, heq⟩ := b.sendData_state z ready manager nowNs
      rw [heq]
      exact hb
    · cases hn
      exact hb.receiveData z okAtStart okAtPublish data

theorem NetworkBridge.receiveData_frame {z : Zstd} (hz : z.Inverts) {b : NetworkBridge}
    (hunused : b.Unused) (hempty : b.frameDecoder.last 0 = none) {topic msgType : Bytes}
    (ht : topic ≠ []) (ht0 : 0 ∉ topic) (hm : msgType ≠ []) (hm0 : 0 ∉ msgType) {data c : Bytes}
    {level : Int} (hc : compress z (createHeader topic msgType ++ data) level = some c)
    (hfit : c.length ≤ kMaxPayload.toNat) (sensorType : SensorType) (sequence timestampNs : UInt64)
    (flags : UInt16) :
    ∃ frame, encodeFrame sensorType sequence timestampNs flags c = .ok frame ∧
      (b.receiveData z true true frame).2 = [⟨⟨b.publishNamespace ++ topic, msgType⟩, data⟩] := by
  refine ⟨_, encodeFrame_eq _ _ _ _ hfit, ?_⟩
  generalize hh : FrameHeader.of sensorType sequence timestampNs flags c = fh
  have hd : fh.Describes c := hh ▸ FrameHeader.of_describes _ _ _ _ hfit
  have hdec : decodeHeader (fh.frame c) = .ok fh := by
    simpa using decodeHeader_frame hd []
  have hpay : payloadOf (fh.frame c) fh = c := by
    simpa using payloadOf_frame hd []
  have haccept : b.frameDecoder.decode (fh.frame c) 0 =
      (⟨Function.update b.frameDecoder.last 0 (some (StreamState.ofFrame fh))⟩, .ok fh) := by
    rcases b.frameDecoder.decode_cases (fh.frame c) 0 with ⟨err, herr⟩ | ⟨fh', hdec', _, hok⟩
    · rw [FrameDecoder.decode, hdec, hempty] at herr
      simp at herr
    · rw [hdec, Except.ok.injEq] at hdec'
      rw [hok, hdec']
  have hheader : (createHeader topic msgType).length = topic.length + 1 + msgType.length + 1 := by
    simp [createHeader]
    omega
  have htopic : topic.isEmpty = false := by simpa using ht
  have htype : msgType.isEmpty = false := by simpa using hm
  have hlen : ¬ topic.length + 1 + msgType.length + 1 >
      (createHeader topic msgType ++ data).length := by
    rw [List.length_append, hheader]
    omega
  simp only [NetworkBridge.receiveData, haccept, hpay, decompress_compress hz hc,
    parseHeader_createHeader ht ht0 hm hm0, htopic, htype, hunused hempty, if_neg hlen]
  simp [List.drop_left' hheader]

/-- The frame that a bridge hands on for a message makes a bridge without history
publish it once, under its namespace, with the same type and bytes. The same holds of
the message framed under any other sequence, timestamp and flags. -/
theorem bridge_fidelity {z : Zstd} (hz : z.Inverts) (sender : NetworkBridge)
    (manager : Subscription) (hhas : manager.hasData = true)
    (hvalid : manager.getData.2 = true) (hdata : manager.getData.1 ≠ [])
    (ht : manager.topic ≠ []) (ht0 : 0 ∉ manager.topic) (hm : manager.msgType ≠ [])
    (hm0 : 0 ∉ manager.msgType) {c : Bytes}
    (hc : compress z (createHeader manager.topic manager.msgType ++ manager.getData.1)
      manager.zstdCompressionLevel = some c)
    (hfit : c.length ≤ kMaxPayload.toNat) (nowNs : UInt64) {receiver : NetworkBridge}
    (hreceiver : (NetworkBridge.system z).Reachable anyStep receiver)
    (hempty : receiver.frameDecoder.last 0 = none) :
    (∃ out, (sender.sendData z true manager nowNs).2 = some out ∧
      (receiver.receiveData z true true out.frame).2 =
        [⟨⟨receiver.publishNamespace ++ manager.topic, manager.msgType⟩, manager.getData.1⟩]) ∧
    ∀ sequence timestampNs flags, ∃ frame,
      encodeFrame .kControl sequence timestampNs flags c = .ok frame ∧
      (receiver.receiveData z true true frame).2 =
        [⟨⟨receiver.publishNamespace ++ manager.topic, manager.msgType⟩, manager.getData.1⟩] := by
  have hframe := NetworkBridge.receiveData_frame hz (NetworkBridge.unused_of_reachable hreceiver)
    hempty ht ht0 hm hm0 hc hfit .kControl
  refine ⟨?_, hframe⟩
  obtain ⟨frame, hencode, hpublish⟩ := hframe sender.txSequence nowNs kFlagCompressed
  have hnonempty : manager.getData.1.isEmpty = false := by simpa using hdata
  refine ⟨if sender.faultEngine then .process frame manager.topic else .write frame, ?_, ?_⟩
  · simp only [NetworkBridge.sendData, hhas, hvalid, hnonempty, hc, hencode]
    rfl
  · rw [← hpublish]
    split <;> rfl

/-- What the library does with fewer than 256 bytes that do not compress: one raw block
behind a frame header with a content size of one byte. -/
def rawZstd : Zstd where
  compressBound n := n + n / 256 + if n < 131072 then (131072 - n) / 2048 else 0
  compress capacity data _ :=
    if data.length < 256 ∧ data.length + 9 ≤ capacity then
      some ([0x28, 0xB5, 0x2F, 0xFD, 0x20, data.length.toUInt8,
        (data.length * 8 + 1).toUInt8, ((data.length * 8 + 1) / 256).toUInt8, 0] ++ data)
    else none
  getFrameContentSize
    | 0x28 :: 0xB5 :: 0x2F :: 0xFD :: 0x20 :: n :: _ => .size n.toNat
    | _ => .error
  decompress capacity c := if (c.drop 9).length ≤ capacity then some (c.drop 9) else none

theorem rawZstd_inverts : rawZstd.Inverts := by
  refine ⟨?_, ?_⟩
  · intro data level c h
    obtain ⟨⟨hlen, _⟩, hc⟩ := Option.ite_none_right_eq_some.mp h
    cases hc
    have hbyte : data.length.toUInt8.toNat = data.length := Nat.mod_eq_of_lt hlen
    exact congrArg ContentSize.size hbyte
  · intro data level c h
    obtain ⟨_, hc⟩ := Option.ite_none_right_eq_some.mp h
    cases hc
    exact if_pos (le_refl _)

def shortMessage : Subscription :=
  { topic := [0x2F, 0x74], msgType := [0x61, 0x2F, 0x42], zstdCompressionLevel := 3,
    hasData := true, getData := ([0xA5, 0, 0x46], true) }

theorem bridge_fidelity_short :
    ∃ out, (NetworkBridge.sendData rawZstd { publishNamespace := [] } true shortMessage 1000).2 =
        some out ∧
      (NetworkBridge.receiveData rawZstd { publishNamespace := [0x2F, 0x6E] } true true
        out.frame).2 = [⟨⟨[0x2F, 0x6E, 0x2F, 0x74], [0x61, 0x2F, 0x42]⟩, [0xA5, 0, 0x46]⟩] := by
  have hreceiver : (NetworkBridge.system rawZstd).Reachable anyStep
      { publishNamespace := [0x2F, 0x6E] } := .start ⟨_, _, _, rfl⟩
  exact (bridge_fidelity rawZstd_inverts { publishNamespace := [] } shortMessage rfl rfl (by decide)
    (by decide) (by decide) (by decide) (by decide) rfl (by decide) 1000 hreceiver rfl).1

end SensorForge
