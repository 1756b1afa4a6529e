import SensorForge.SentFrames
import SensorForge.TcpRoundTrip

/-! Two bridges that are linked by a TCP connection, which may fail at any byte and is then
opened again. -/

namespace SensorForge

open ByteOrder Protocol Transport Transition

def NetworkBridge.receiveAll (z : Zstd) :
    NetworkBridge → List Bytes → NetworkBridge × List Publication
  | b, [] => (b, [])
  | b, data :: ds =>
    let (b, out) := b.receiveData z true true data
    let (b, rest) := NetworkBridge.receiveAll z b ds
    (b, out ++ rest)

/-- `wire` is what the sender has written and the receiver's socket has not read. `current` has
been written on this connection, `earlier` has been received on those before it. -/
structure StreamLink where
  sender : Sender
  receiver : NetworkBridge
  thread : ReceiveThread
  up : Bool := true
  wire : Bytes := []
  published : List Publication := []
  earlier : List Sent := []
  current : List Sent := []

/-- The messages of the frames that the thread has handed to the receiving bridge. -/
def StreamLink.received (l : StreamLink) : List Sent :=
  l.earlier ++ l.current.take l.thread.received.length

def StreamLink.put (l : StreamLink) (sender : Sender) (xs : List Sent) : StreamLink :=
  { l with
    sender
    wire := l.wire ++ written (xs.map (·.frame)) l.thread.host
    current := l.current ++ xs }

/-- The thread calls the receiving bridge back with each payload. -/
def StreamLink.hand (z : Zstd) (l : StreamLink) (thread : ReceiveThread) (new : List Bytes) :
    StreamLink :=
  { l with
    thread
    receiver := (l.receiver.receiveAll z new).1
    published := l.published ++ (l.receiver.receiveAll z new).2 }

def StreamLink.reopened (l : StreamLink) : StreamLink :=
  { l with
    thread := { host := l.thread.host }
    up := true
    wire := []
    earlier := l.received
    current := [] }

inductive StreamAction where
  | send (ready : Bool) (manager : Subscription) (nowNs : UInt64)
  | deliver (size : Nat)
  | step
  | fail
  | reopen

/-- What is on the wire when the connection fails is lost, and so is what is written before it
has been opened again. Opening it discards what the thread has not handed on. -/
def StreamLink.next (z : Zstd) (l : StreamLink) : StreamAction → Option StreamLink
  | .send ready manager nowNs =>
    some (l.put (l.sender.send z ready manager nowNs).1
      (if l.up then (l.sender.send z ready manager nowNs).2.toList else []))
  | .deliver size =>
    if 0 < size ∧ size ≤ l.wire.length then
      (l.thread.next (.pushBytes (l.wire.take size))).map fun thread =>
        { l with thread, wire := l.wire.drop size }
    else none
  | .step =>
    (l.thread.next .step).map fun thread =>
      l.hand z thread (thread.received.drop l.thread.received.length)
  | .fail => some { l with up := false, wire := [] }
  | .reopen => some l.reopened

def StreamLink.system (z : Zstd) (host : HostOrder) (ns : Bytes) :
    System StreamLink StreamAction where
  start l := ∃ publishNamespace walWriter txWriter,
    l = { sender := { bridge := { publishNamespace, walWriter := txWriter } }
          receiver := { publishNamespace := ns, walWriter }, thread := { host } }
  next := StreamLink.next z

def StreamLink.Steady (l : StreamLink) : StreamAction → Prop
  | .send _ manager nowNs => l.sender.Steady manager nowNs
  | _ => True

instance StreamLink.decideSteady : ∀ (l : StreamLink) (a : StreamAction), Decidable (l.Steady a)
  | l, .send _ manager nowNs => inferInstanceAs (Decidable (l.sender.Steady manager nowNs))
  | _, .deliver _ => instDecidableTrue
  | _, .step => instDecidableTrue
  | _, .fail => instDecidableTrue
  | _, .reopen => instDecidableTrue

structure StreamLink.Inv (z : Zstd) (host : HostOrder) (ns : Bytes) (l : StreamLink) : Prop where
  sender : l.sender.Inv z
  thread : (ReceiveThread.system host).Reachable anyStep l.thread
  stream : ∃ lost, l.thread.pushed ++ (l.wire ++ lost) = written (l.current.map (·.frame)) host ∧
    (l.up = true → lost = [])
  history : (l.earlier ++ l.current).Sublist l.sender.sent
  heard : l.receiver.HeardAll ns l.received
  published : l.published = publications ns (l.received.map (·.message))
  rejects : l.receiver.frameRejectCount = 0

theorem Framed.length_lt {z : Zstd} {m : Message} {sequence timestampNs : UInt64} {frame : Bytes}
    (h : Framed z m sequence timestampNs frame) : frame.length < 2 ^ 32 := by
  obtain ⟨c, _, hfit, rfl⟩ := h
  have hmax : kMaxPayload.toNat = 4194304 := rfl
  simp only [FrameHeader.frame, List.length_append, FrameHeader.bytes_length, putU32_length]
  omega

/-- A bridge that has accepted frames accepts those that were sent after them. -/
theorem NetworkBridge.HeardAll.receiveAll {z : Zstd} {ns : Bytes} {xs ys : List Sent}
    (hordered : (xs ++ ys).Pairwise Sent.Before)
    (hframed : ∀ y ∈ ys, y.message.Named ∧ Framed z y.message y.sequence y.timestampNs y.frame)
    {b : NetworkBridge} (h : b.HeardAll ns xs) :
    (b.receiveAll z (ys.map (·.frame))).1.HeardAll ns (xs ++ ys) ∧
      (b.receiveAll z (ys.map (·.frame))).1.frameRejectCount = b.frameRejectCount ∧
      publications ns ((xs ++ ys).map (·.message)) =
        publications ns (xs.map (·.message)) ++ (b.receiveAll z (ys.map (·.frame))).2 := by
  induction ys generalizing b xs with
  | nil =>
    rw [List.append_nil]
    exact ⟨h, rfl, (List.append_nil _).symm⟩
  | cons y ys ih =>
    obtain ⟨hnamed, hframe⟩ := hframed y List.mem_cons_self
    have hlast : ∀ x ∈ xs.getLast?, x.sequence ≤ y.sequence ∧ x.timestampNs ≤ y.timestampNs := by
      intro x hx
      have hbefore := (List.pairwise_append.mp hordered).2.2 x (List.mem_of_getLast? hx) y
        List.mem_cons_self
      exact ⟨UInt64.le_of_lt hbefore.1, hbefore.2⟩
    obtain ⟨hheard, hrejects, hout⟩ := h.accept hnamed hframe hlast
    have hrest := ih (by rwa [List.append_assoc])
      (fun x hx => hframed x (List.mem_cons_of_mem _ hx)) hheard
    rw [List.append_assoc, List.singleton_append] at hrest
    refine ⟨hrest.1, hrest.2.1.trans hrejects, ?_⟩
    rw [hrest.2.2, hout, List.append_assoc]
    rfl

theorem Transport.ReceiveThread.step_received {t u : ReceiveThread} (h : t.next .step = some u) :
    t.received <+: u.received := by
  by_cases hlt : t.bytes.length < t.wanted
  · cases hq : t.queue with
    | nil => simp [ReceiveThread.next, hlt, hq] at h
    | cons b queue =>
      simp only [ReceiveThread.next, if_pos hlt, hq, Option.some.injEq] at h
      exact h ▸ List.prefix_refl _
  · simp only [ReceiveThread.next, if_neg hlt, Option.some.injEq] at h
    subst h
    unfold ReceiveThread.resume
    split
    all_goals first
      | exact List.prefix_refl _
      | exact List.prefix_append _ _

section Invariant

variable {z : Zstd} {host : HostOrder} {ns : Bytes} {l : StreamLink}

theorem StreamLink.Inv.frames_small (h : l.Inv z host ns) :
    ∀ p ∈ l.current.map (·.frame), p.length < 2 ^ 32 := by
  intro p hp
  obtain ⟨x, hx, rfl⟩ := List.mem_map.mp hp
  exact (h.sender.framed x (h.history.subset (List.mem_append_right _ hx))).2.length_lt

/-- The thread hands on the frames that were written on this connection, in their order. -/
theorem StreamLink.Inv.received_prefix (h : l.Inv z host ns) {t : ReceiveThread}
    (ht : (ReceiveThread.system host).Reachable anyStep t) (hpushed : t.pushed = l.thread.pushed) :
    t.received <+: l.current.map (·.frame) := by
  obtain ⟨lost, hstream, _⟩ := h.stream
  have hframes := (ReceiveThread.Inv.reachable ht).frames (l.wire ++ lost)
  have hwritten := frames_written h.frames_small host []
  rw [List.append_nil, Framing.Format.frames_nil, List.append_nil] at hwritten
  rw [hpushed, hstream, hwritten] at hframes
  exact ⟨_, hframes⟩

theorem StreamLink.Inv.received_length (h : l.Inv z host ns) :
    l.thread.received.length ≤ l.current.length := by
  have hlength := (h.received_prefix h.thread rfl).length_le
  rwa [List.length_map] at hlength

theorem StreamLink.Inv.received_sublist (h : l.Inv z host ns) :
    l.received.Sublist l.sender.sent :=
  ((List.take_sublist _ _).append_left l.earlier).trans h.history

theorem written_append (ps qs : List Bytes) (host : HostOrder) :
    written (ps ++ qs) host = written ps host ++ written qs host := by
  rw [written, List.flatMap_append]
  rfl

theorem Sender.send_sent (z : Zstd) (s : Sender) (ready : Bool) (manager : Subscription)
    (nowNs : UInt64) : (s.send z ready manager nowNs).1.sent =
      s.sent ++ (s.send z ready manager nowNs).2.toList := rfl

theorem StreamLink.Inv.put (h : l.Inv z host ns) {sender : Sender} (hsender : sender.Inv z)
    {xs : List Sent} (hsent : (l.sender.sent ++ xs).Sublist sender.sent)
    (hxs : l.up = false → xs = []) : (l.put sender xs).Inv z host ns := by
  obtain ⟨lost, hstream, hlost⟩ := h.stream
  have horder := (ReceiveThread.Inv.reachable h.thread).order
  have hreceived : (l.put sender xs).received = l.received := by
    simp only [StreamLink.received, StreamLink.put]
    rw [List.take_append_of_le_length h.received_length]
  refine ⟨hsender, h.thread, ?_, ?_, hreceived ▸ h.heard, hreceived ▸ h.published, h.rejects⟩
  · cases hup : l.up with
    | true =>
      obtain rfl := hlost hup
      refine ⟨[], ?_, fun _ => rfl⟩
      simp only [StreamLink.put, List.map_append, written_append, ← hstream, horder]
      simp
    | false =>
      obtain rfl := hxs hup
      refine ⟨lost, ?_, fun htrue => absurd (hup.symm.trans htrue) Bool.false_ne_true⟩
      simp only [StreamLink.put, List.append_nil, List.map_nil]
      rw [← hstream, written, List.flatMap_nil, List.append_nil]
  · have hhistory := h.history.append (List.Sublist.refl xs)
    rw [List.append_assoc] at hhistory
    exact hhistory.trans hsent

theorem StreamLink.Inv.send (hz : z.Inverts) (h : l.Inv z host ns) {ready : Bool}
    {manager : Subscription} {nowNs : UInt64} (hsteady : l.sender.Steady manager nowNs)
    {t : StreamLink} (hn : l.next z (.send ready manager nowNs) = some t) : t.Inv z host ns := by
  rw [StreamLink.next, Option.some.injEq] at hn
  subst hn
  refine h.put (h.sender.send hz hsteady) ?_ ?_
  · rw [Sender.send_sent]
    refine (List.Sublist.refl _).append ?_
    split
    · exact List.Sublist.refl _
    · exact List.nil_sublist _
  · intro hup
    rw [hup]
    rfl

theorem StreamLink.Inv.deliver (h : l.Inv z host ns) {size : Nat} {t : StreamLink}
    (hn : l.next z (.deliver size) = some t) : t.Inv z host ns := by
  obtain ⟨_, hn⟩ := Option.ite_none_right_eq_some.mp hn
  obtain ⟨thread, hthread, rfl⟩ := Option.map_eq_some_iff.mp hn
  have hreach : (ReceiveThread.system host).Reachable anyStep thread :=
    h.thread.step (a := ReceiveAction.pushBytes (l.wire.take size)) trivial hthread
  cases hthread
  obtain ⟨lost, hstream, hlost⟩ := h.stream
  refine ⟨h.sender, hreach, ⟨lost, ?_, hlost⟩, h.history, h.heard, h.published, h.rejects⟩
  rw [← hstream, List.append_assoc, ← List.append_assoc (l.wire.take size), List.take_append_drop]

theorem StreamLink.Inv.step (h : l.Inv z host ns) {t : StreamLink}
    (hn : l.next z .step = some t) : t.Inv z host ns := by
  obtain ⟨thread, hthread, rfl⟩ := Option.map_eq_some_iff.mp hn
  have hreach : (ReceiveThread.system host).Reachable anyStep thread :=
    h.thread.step (a := ReceiveAction.step) trivial hthread
  obtain ⟨_, hpushed⟩ := ReceiveThread.step_effort hthread
  obtain ⟨new, hnew⟩ := ReceiveThread.step_received hthread
  have hall := h.received_prefix hreach hpushed
  have hold := h.received_length
  -- The thread hands on the next frames of this connection, if any.
  generalize hys : (l.current.drop l.thread.received.length).take new.length = ys
  have hframes : new = ys.map (·.frame) := by
    rw [← hnew, List.prefix_iff_eq_take] at hall
    have hdrop := congrArg (List.drop l.thread.received.length) hall
    rw [List.drop_left, List.length_append, List.drop_take, Nat.add_sub_cancel_left,
      ← List.map_drop, ← List.map_take, hys] at hdrop
    exact hdrop
  have hdrop : thread.received.drop l.thread.received.length = ys.map (·.frame) := by
    rw [← hnew, List.drop_left, hframes]
  rw [hdrop]
  have hreceived : (l.hand z thread (ys.map (·.frame))).received = l.received ++ ys := by
    simp only [StreamLink.received, StreamLink.hand]
    rw [← hnew, List.length_append, List.take_add, hys, List.append_assoc]
  have hsub : (l.received ++ ys).Sublist l.sender.sent := by
    rw [← hreceived]
    exact ((List.take_sublist _ _).append_left l.earlier).trans h.history
  obtain ⟨hheard, hrejects, hout⟩ := h.heard.receiveAll (h.sender.ordered.sublist hsub)
    (fun y hy => h.sender.framed y (hsub.subset (List.mem_append_right _ hy)))
  obtain ⟨lost, hstream, hlost⟩ := h.stream
  refine ⟨h.sender, hreach, ⟨lost, hpushed ▸ hstream, hlost⟩, h.history, ?_, ?_, ?_⟩
  · rw [hreceived]
    exact hheard
  · rw [hreceived, hout, ← h.published]
    rfl
  · exact hrejects.trans h.rejects

theorem StreamLink.Inv.fail (h : l.Inv z host ns) {t : StreamLink}
    (hn : l.next z .fail = some t) : t.Inv z host ns := by
  cases hn
  obtain ⟨lost, hstream, _⟩ := h.stream
  refine ⟨h.sender, h.thread, ⟨l.wire ++ lost, hstream, fun hup => ?_⟩, h.history, h.heard,
    h.published, h.rejects⟩
  exact absurd hup Bool.false_ne_true

theorem StreamLink.Inv.reopen (h : l.Inv z host ns) {t : StreamLink}
    (hn : l.next z .reopen = some t) : t.Inv z host ns := by
  cases hn
  have horder := (ReceiveThread.Inv.reachable h.thread).order
  have hstart : (ReceiveThread.system host).start { host := l.thread.host } := by
    rw [horder]
    rfl
  have hreceived : l.reopened.received = l.received := List.append_nil _
  refine ⟨h.sender, .start hstart, ⟨[], rfl, fun _ => rfl⟩, ?_, ?_, ?_, h.rejects⟩
  · rw [StreamLink.reopened, List.append_nil]
    exact h.received_sublist
  · rw [hreceived]
    exact h.heard
  · rw [hreceived]
    exact h.published

theorem StreamLink.Inv.reachable (hz : z.Inverts)
    (h : (StreamLink.system z host ns).Reachable StreamLink.Steady l) : l.Inv z host ns := by
  refine h.invariant ?_ ?_
  · rintro l ⟨publishNamespace, walWriter, txWriter, rfl⟩
    refine ⟨⟨?_, .nil, ?_⟩, .start rfl, ⟨[], rfl, fun _ => rfl⟩, .slnil, ⟨rfl, rfl, rfl⟩, rfl, rfl⟩
    · exact fun x hx => absurd hx List.not_mem_nil
    · exact fun x hx => absurd hx List.not_mem_nil
  · intro l a t hl hsteady hn
    cases a with
    | send ready manager nowNs => exact hl.send hz hsteady hn
    | deliver size => exact hl.deliver hn
    | step => exact hl.step hn
    | fail => exact hl.fail hn
    | reopen => exact hl.reopen hn

/-- Nothing is sent, and the connection does not fail. -/
def StreamLink.Quiet (_ : StreamLink) : StreamAction → Prop
  | .deliver _ => True
  | .step => True
  | _ => False

instance StreamLink.decideQuiet : ∀ (l : StreamLink) (a : StreamAction), Decidable (l.Quiet a)
  | _, .deliver _ => instDecidableTrue
  | _, .step => instDecidableTrue
  | _, .send _ _ _ => instDecidableFalse
  | _, .fail => instDecidableFalse
  | _, .reopen => instDecidableFalse

theorem StreamLink.Inv.run {as : List StreamAction} (h : l.Inv z host ns) {t : StreamLink}
    (hr : (StreamLink.system z host ns).run StreamLink.Quiet l as = some t) : t.Inv z host ns := by
  induction as generalizing l with
  | nil =>
    cases hr
    exact h
  | cons a as ih =>
    obtain ⟨u, hquiet, hu, hrest⟩ := System.run_cons.mp hr
    cases a with
    | deliver size => exact ih (h.deliver hu) hrest
    | step => exact ih (h.step hu) hrest
    | send | fail | reopen => exact hquiet.elim

end Invariant

end SensorForge
