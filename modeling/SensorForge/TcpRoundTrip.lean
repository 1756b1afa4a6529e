import SensorForge.TcpReceiver

/-! What is written with `write` on a host of one byte order is delivered by the receive
thread of a host of the same order, however the stream is cut into chunks. -/

namespace SensorForge.Transport

open ByteOrder Framing Transition

theorem written_eq_wire {payloads : List Bytes} (h : ∀ p ∈ payloads, p.length < 2 ^ 32) {F : Format}
    (hfirst : F.first = 0xAB) (hsecond : F.second = 0xCD) (host : HostOrder := .little) :
    written payloads host = F.wire (fun n => hostBytes n.toUInt32 host) payloads := by
  refine congrArg List.flatten (List.map_congr_left fun data hdata => ?_)
  have hsize : data.length.toUInt32.toNat = data.length := by
    rw [Nat.toUInt32_eq, UInt32.toNat_ofNat']
    exact Nat.mod_eq_of_lt (h data hdata)
  simp [write, hsize, hfirst, hsecond]

theorem HostOrder.bytes_length (host : HostOrder) (v : UInt32) : (host.bytes v).length = 4 := by
  cases host <;> rfl

theorem receiveFormat_readSize {n : Nat} (h : n < 2 ^ 32) (host : HostOrder) :
    (receiveFormat host).readSize (hostBytes n.toUInt32 host) = n := by
  have hvalue : (receiveFormat host).readSize (hostBytes n.toUInt32 host) = n.toUInt32.toNat :=
    congrArg UInt32.toNat (host.value_bytes n.toUInt32)
  rw [hvalue, Nat.toUInt32_eq, UInt32.toNat_ofNat']
  exact Nat.mod_eq_of_lt h

theorem frames_written {payloads : List Bytes} (h : ∀ p ∈ payloads, p.length < 2 ^ 32)
    (host : HostOrder) (more : Bytes) :
    (receiveFormat host).frames (written payloads host ++ more) =
      payloads ++ (receiveFormat host).frames more := by
  rw [written_eq_wire (F := receiveFormat host) h rfl rfl host]
  refine (receiveFormat host).frames_wire_append ?_ ?_ ?_ more
  · exact fun p _ => host.bytes_length _
  · exact fun p _ => rfl
  · exact fun p hp => receiveFormat_readSize (h p hp) host

/-- The socket hands on at least one byte at a time. An empty push would wake a thread
for which there is nothing to read. -/
def handed (_ : ReceiveThread) : ReceiveAction → Prop
  | .pushBytes chunk => chunk ≠ []
  | .step => True

theorem ReceiveThread.received_written {host : HostOrder} {payloads : List Bytes}
    (hsmall : ∀ p ∈ payloads, p.length < 2 ^ 32) {t : ReceiveThread}
    (h : (ReceiveThread.system host).Reachable anyStep t) (hw : t.Waiting)
    (hpushed : t.pushed = written payloads host) : t.received = payloads := by
  have hframes := frames_written hsmall host []
  rw [List.append_nil, Format.frames_nil, List.append_nil] at hframes
  rw [ReceiveThread.received_eq h hw, hpushed, hframes]

/-- Any further bytes would be read as those of a new message, so the thread is not
inside one. -/
theorem ReceiveThread.state_written {host : HostOrder} {payloads : List Bytes}
    (hsmall : ∀ p ∈ payloads, p.length < 2 ^ 32) {t : ReceiveThread}
    (h : (ReceiveThread.system host).Reachable anyStep t) (hw : t.Waiting)
    (hpushed : t.pushed = written payloads host) : t.state = 0 := by
  have hinv := ReceiveThread.Inv.reachable h
  have hreached := hinv.reached (ReceiveThread.waiting_iff.mp hw).1
  have hreceived := ReceiveThread.received_written hsmall h hw hpushed
  have hhunt : t.reached = .hunt := by
    by_contra hne
    obtain ⟨k, hk⟩ := (receiveFormat host).exists_pending_ne_nil (fun _ => rfl) hreached.1 hne
    have hframes := ReceiveThread.frames_waiting h hw (List.replicate k (receiveFormat host).second)
    rw [hreceived, hpushed, frames_written hsmall,
      (receiveFormat host).frames_replicate_second k] at hframes
    exact hk (List.append_cancel_left hframes)
  rcases hinv.state with hstate | hstate | hstate | hstate
  · exact hstate
  all_goals simp [ReceiveThread.reached, hstate] at hhunt

/-- Once all that was written has been pushed, in whatever chunks and with whatever reads
in between, the thread goes on for finitely many steps. It has then delivered the payloads
and looks for the next message. -/
theorem message_round_trip (host : HostOrder) {payloads : List Bytes}
    (hsmall : ∀ p ∈ payloads, p.length < 2 ^ 32) {t : ReceiveThread}
    (ht : (ReceiveThread.system host).Reachable handed t)
    (hpushed : t.pushed = written payloads host) :
    ∃ n u, (ReceiveThread.system host).run anyStep t (List.replicate n .step) = some u ∧
      u.Waiting ∧ u.received = payloads ∧ u.state = 0 := by
  have hany := ht.mono fun _ _ _ => trivial
  obtain ⟨n, u, hrun, hw, hsame⟩ := t.steps_to_waiting host
  have hu := hany.run hrun
  refine ⟨n, u, hrun, hw, ?_, ?_⟩
  · exact ReceiveThread.received_written hsmall hu hw (hsame.trans hpushed)
  · exact ReceiveThread.state_written hsmall hu hw (hsame.trans hpushed)

theorem message_round_trip_marker :
    ∃ n u, (ReceiveThread.system .big).run anyStep
        { host := .big, queue := [0xAB, 0xCD, 0, 0, 0, 2, 0xAB, 0xCD, 0xAB, 0xCD, 0, 0, 0, 0]
          pushed := [0xAB, 0xCD, 0, 0, 0, 2, 0xAB, 0xCD, 0xAB, 0xCD, 0, 0, 0, 0] }
        (List.replicate n .step) = some u ∧
      u.Waiting ∧ u.received = [[0xAB, 0xCD], []] ∧ u.state = 0 := by
  have hpush : (ReceiveThread.system .big).Reachable handed
      { host := .big, queue := [0xAB, 0xCD, 0, 0, 0, 2, 0xAB]
        pushed := [0xAB, 0xCD, 0, 0, 0, 2, 0xAB] } :=
    .step (a := .pushBytes [0xAB, 0xCD, 0, 0, 0, 2, 0xAB]) (.start rfl) (List.cons_ne_nil _ _) rfl
  have hrest : ([0xCD, 0xAB, 0xCD, 0, 0, 0, 0] : Bytes) ≠ [] := List.cons_ne_nil _ _
  have hall := hpush.step (a := ReceiveAction.pushBytes [0xCD, 0xAB, 0xCD, 0, 0, 0, 0]) hrest rfl
  exact message_round_trip .big (by decide) hall (by decide)

end SensorForge.Transport
