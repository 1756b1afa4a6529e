import SensorForge.PeerStream

/-! The bridge with its network interface. The health check closes and reopens an
interface that has failed; the decoder keeps what it knows of the stream. -/

namespace SensorForge

open Protocol Transition

structure NetworkInterface where
  shuttingDown : Bool := false
  failed : Bool := false
  ready : Bool := false
  deriving DecidableEq

def NetworkInterface.open (_ : NetworkInterface) : NetworkInterface :=
  { shuttingDown := false, failed := false, ready := false }

def NetworkInterface.close (i : NetworkInterface) : NetworkInterface :=
  { i with shuttingDown := true }

def NetworkInterface.hasFailed (i : NetworkInterface) : Bool := i.failed

def NetworkInterface.isReady (i : NetworkInterface) : Bool := i.ready && !i.failed

structure LinkedBridge where
  bridge : NetworkBridge
  networkInterface : Option NetworkInterface := none

def LinkedBridge.initialize (l : LinkedBridge) : LinkedBridge :=
  { l with networkInterface := some (NetworkInterface.open {}) }

def LinkedBridge.checkNetworkHealth (l : LinkedBridge) : LinkedBridge :=
  match l.networkInterface with
  | none => l.initialize
  | some i => if i.hasFailed then { l with networkInterface := some i.close.open } else l

inductive LinkAction where
  | checkNetworkHealth
  | connected
  | failed
  | send (manager : Subscription) (nowNs : UInt64)
  | receive (okAtStart okAtPublish : Bool) (data : Bytes)

/-- Without an interface nothing is sent or received. -/
def LinkedBridge.next (z : Zstd) (l : LinkedBridge) : LinkAction → Option LinkedBridge
  | .checkNetworkHealth => some l.checkNetworkHealth
  | .connected =>
    l.networkInterface.map fun i => { l with networkInterface := some { i with ready := true } }
  | .failed =>
    l.networkInterface.map fun i => { l with networkInterface := some { i with failed := true } }
  | .send manager nowNs =>
    l.networkInterface.map fun i =>
      { l with bridge := (l.bridge.sendData z i.isReady manager nowNs).1 }
  | .receive okAtStart okAtPublish data =>
    l.networkInterface.map fun _ =>
      { l with bridge := (l.bridge.receiveData z okAtStart okAtPublish data).1 }

def LinkedBridge.system (z : Zstd) : System LinkedBridge LinkAction where
  start l := (NetworkBridge.system z).start l.bridge ∧ l.networkInterface = none
  next := LinkedBridge.next z

theorem NetworkBridge.seen_of_reachable {z : Zstd} {b : NetworkBridge}
    (h : (NetworkBridge.system z).Reachable anyStep b) : b.Seen := by
  refine h.invariant ?_ ?_
  · rintro b ⟨publishNamespace, walWriter, faultEngine, rfl⟩ st hst
    cases hst
  · rintro b (⟨ready, manager, nowNs⟩ | ⟨okAtStart, okAtPublish, data⟩) t hb _ hn
    · cases hn
      obtain ⟨txSequence, walWriter, heq⟩ := b.sendData_state z ready manager nowNs
      rw [heq]
      exact hb
    · cases hn
      cases okAtStart with
      | false => exact hb
      | true =>
        intro st hst
        rw [b.receiveData_frameDecoder z okAtPublish data] at hst
        rcases b.frameDecoder.decode_cases data 0 with ⟨err, herr⟩ | ⟨fh, _, _, hok⟩
        · rw [herr] at hst
          exact hb st hst
        · simp only [hok, Function.update_self, Option.some.injEq] at hst
          exact hst ▸ rfl

theorem LinkedBridge.checkNetworkHealth_bridge (l : LinkedBridge) :
    l.checkNetworkHealth.bridge = l.bridge := by
  unfold LinkedBridge.checkNetworkHealth
  split
  · rfl
  · split <;> rfl

/-- A linked bridge only takes steps of the bridge. -/
theorem LinkedBridge.bridge_reachable {z : Zstd} {l : LinkedBridge}
    (h : (LinkedBridge.system z).Reachable anyStep l) :
    (NetworkBridge.system z).Reachable anyStep l.bridge := by
  refine h.invariant (P := fun l => (NetworkBridge.system z).Reachable anyStep l.bridge) ?_ ?_
  · exact fun l hl => .start hl.1
  · intro l a t hl _ hn
    cases a with
    | checkNetworkHealth =>
      cases hn
      rw [l.checkNetworkHealth_bridge]
      exact hl
    | connected =>
      obtain ⟨i, _, rfl⟩ := Option.map_eq_some_iff.mp hn
      exact hl
    | failed =>
      obtain ⟨i, _, rfl⟩ := Option.map_eq_some_iff.mp hn
      exact hl
    | send manager nowNs =>
      obtain ⟨i, _, rfl⟩ := Option.map_eq_some_iff.mp hn
      exact hl.step (a := BridgeAction.send i.isReady manager nowNs) trivial rfl
    | receive okAtStart okAtPublish data =>
      obtain ⟨i, _, rfl⟩ := Option.map_eq_some_iff.mp hn
      exact hl.step (a := BridgeAction.receive okAtStart okAtPublish data) trivial rfl

theorem LinkedBridge.reopened {l : LinkedBridge} {i : NetworkInterface}
    (hi : l.networkInterface = some i) (hfailed : i.hasFailed = true) :
    l.checkNetworkHealth = { l with networkInterface := some {} } := by
  rw [LinkedBridge.checkNetworkHealth, hi]
  simp only [hfailed, if_true]
  rfl

theorem LinkedBridge.reopened_welcomes_iff {z : Zstd} {l : LinkedBridge}
    (hl : (LinkedBridge.system z).Reachable anyStep l) {ds : List Bytes}
    (hpeer : (headersOf ds).IsChain NotBefore) :
    l.checkNetworkHealth.bridge.Welcomes z ds ↔
      ∀ st ∈ l.bridge.frameDecoder.last 0, ∀ h ∈ (headersOf ds).head?, NotEarlier st h := by
  rw [l.checkNetworkHealth_bridge,
    NetworkBridge.welcomes_iff z
    (NetworkBridge.seen_of_reachable (LinkedBridge.bridge_reachable hl))]
  exact and_iff_left hpeer

/-- After a failed interface has been reopened, an in-order stream of a peer is accepted
if and only if it does not begin before the frame that was last accepted. -/
theorem reconnect_fresh_iff {z : Zstd} {l : LinkedBridge}
    (hl : (LinkedBridge.system z).Reachable anyStep l) {i : NetworkInterface}
    (hi : l.networkInterface = some i) (hfailed : i.hasFailed = true) {ds : List Bytes}
    (hpeer : (headersOf ds).IsChain NotBefore) :
    l.checkNetworkHealth.networkInterface = some {} ∧
      (l.checkNetworkHealth.bridge.Welcomes z ds ↔
        ∀ st ∈ l.bridge.frameDecoder.last 0, ∀ h ∈ (headersOf ds).head?, NotEarlier st h) := by
  refine ⟨?_, LinkedBridge.reopened_welcomes_iff hl hpeer⟩
  rw [LinkedBridge.reopened hi hfailed]

/-- A frame without payload. -/
def emptyFrame (sequence timestampNs : UInt64) : Bytes :=
  (FrameHeader.of .kControl sequence timestampNs kFlagCompressed []).frame []

theorem headersOf_emptyFrame (sequence timestampNs : UInt64) (ds : List Bytes) :
    headersOf (emptyFrame sequence timestampNs :: ds) =
      FrameHeader.of .kControl sequence timestampNs kFlagCompressed [] :: headersOf ds :=
  headersOf_ok (decodeHeader_sent (Nat.zero_le _) sequence timestampNs) ds

/-- A bridge that has accepted a frame before its interface failed. -/
def acceptedThenFailed : List LinkAction :=
  [.checkNetworkHealth, .connected, .receive true true (emptyFrame 5 100), .failed]

theorem run_acceptedThenFailed : ∃ l : LinkedBridge,
    (LinkedBridge.system rawZstd).run anyStep { bridge := { publishNamespace := [] } }
        acceptedThenFailed = some l ∧
      (LinkedBridge.system rawZstd).Reachable anyStep l ∧
      l.networkInterface = some { ready := true, failed := true } ∧
      l.bridge.frameDecoder.last 0 =
        some { seen := true, lastSequence := 5, lastTimestampNs := 100 } := by
  have hrun : ((LinkedBridge.system rawZstd).run anyStep { bridge := { publishNamespace := [] } }
      acceptedThenFailed).map (fun l => (l.networkInterface, l.bridge.frameDecoder.last 0)) =
      some (some { ready := true, failed := true },
        some { seen := true, lastSequence := 5, lastTimestampNs := 100 }) := by
    decide +kernel
  obtain ⟨l, hl, hview⟩ := Option.map_eq_some_iff.mp hrun
  obtain ⟨hinterface, hlast⟩ := Prod.mk.inj hview
  have hstart : (LinkedBridge.system rawZstd).Reachable anyStep
      { bridge := { publishNamespace := [] } } := .start ⟨⟨_, _, _, rfl⟩, rfl⟩
  exact ⟨l, hl, hstart.run hl, hinterface, hlast⟩

theorem reconnect_fresh_later : ∃ l : LinkedBridge,
    (LinkedBridge.system rawZstd).run anyStep { bridge := { publishNamespace := [] } }
        acceptedThenFailed = some l ∧
      l.bridge.frameDecoder.last 0 =
        some { seen := true, lastSequence := 5, lastTimestampNs := 100 } ∧
      l.checkNetworkHealth.bridge.Welcomes rawZstd
        [emptyFrame 6 100, emptyFrame 7 250, emptyFrame 9 250] := by
  obtain ⟨l, hl, hreach, hinterface, hlast⟩ := run_acceptedThenFailed
  have hheaders : headersOf [emptyFrame 6 100, emptyFrame 7 250, emptyFrame 9 250] =
      [.of .kControl 6 100 kFlagCompressed [], .of .kControl 7 250 kFlagCompressed [],
        .of .kControl 9 250 kFlagCompressed []] := by
    rw [headersOf_emptyFrame, headersOf_emptyFrame, headersOf_emptyFrame]
    rfl
  have hpeer : (headersOf [emptyFrame 6 100, emptyFrame 7 250, emptyFrame 9 250]).IsChain
      NotBefore := by
    rw [hheaders]
    exact .cons_cons (by unfold NotBefore; decide)
      (.cons_cons (by unfold NotBefore; decide) (.singleton _))
  refine ⟨l, hl, hlast, (reconnect_fresh_iff hreach hinterface rfl hpeer).2.mpr ?_⟩
  rw [hlast, hheaders]
  intro st hst h hh
  obtain rfl := Option.some.inj hst
  obtain rfl := Option.some.inj hh
  unfold NotEarlier
  decide

/-- A peer that restarts counts from 0 again. -/
theorem reconnect_stale :
    ¬ ∀ l : LinkedBridge, (LinkedBridge.system rawZstd).Reachable anyStep l →
      ∀ i, l.networkInterface = some i → i.hasFailed = true →
        ∀ ds, (headersOf ds).IsChain NotBefore →
          l.checkNetworkHealth.bridge.Welcomes rawZstd ds := by
  intro h
  obtain ⟨l, -, hreach, hinterface, hlast⟩ := run_acceptedThenFailed
  have hpeer : (headersOf [emptyFrame 0 100]).IsChain NotBefore := by
    rw [headersOf_emptyFrame]
    exact List.isChain_singleton _
  have hall := h l hreach _ hinterface rfl [emptyFrame 0 100] hpeer
  rw [LinkedBridge.reopened_welcomes_iff hreach hpeer, headersOf_emptyFrame] at hall
  exact absurd (hall _ hlast _ rfl).1 (by decide)

end SensorForge
