import SensorForge.Selections
import SensorForge.StreamLink
import SensorForge.SubscriptionManager

/-! A bridge with its topics: what their subscriptions capture, the send timers hand to the TCP
link, and the other bridge publishes. -/

namespace SensorForge

open ByteOrder Protocol Selections Transport Transition

/-- What a bridge is configured with for a topic. The type is that of its publishers. -/
structure BridgedTopic where
  topic : Bytes
  msgType : Bytes
  zstdCompressionLevel : Int
  publishStaleData : Bool
  sensorType : SensorType := .kControl

def BridgedTopic.subscription (c : BridgedTopic) (m : SubscriptionManager) : Subscription where
  topic := c.topic
  msgType := c.msgType
  zstdCompressionLevel := c.zstdCompressionLevel
  hasData := m.hasData
  getData := m.getData.2

structure BridgedTopics (ι : Type*) where
  runs : ι → CaptureRun
  link : StreamLink

inductive BridgedAction (ι : Type*) where
  | capture (i : ι) (msg : Bytes) (nowNs : UInt64)
  | send (i : ι) (ready : Bool) (nowNs : UInt64)
  | link (a : StreamAction)

variable {ι : Type*} [DecidableEq ι]

def BridgedTopics.setRun (l : BridgedTopics ι) (i : ι) (run : CaptureRun) : BridgedTopics ι :=
  { l with runs := Function.update l.runs i run }

/-- `send_data` asks a manager for its data if there is any and the interface is ready. -/
def CaptureRun.asked (s : CaptureRun) (ready : Bool) : CaptureRun :=
  if s.manager.hasData && ready then
    { s with manager := s.manager.getData.1, popped := s.popped ++ s.manager.fresh.toList }
  else s

def BridgedTopics.next (z : Zstd) (topics : ι → BridgedTopic) (l : BridgedTopics ι) :
    BridgedAction ι → Option (BridgedTopics ι)
  | .capture i msg nowNs => ((l.runs i).next (.callback msg nowNs)).map (l.setRun i)
  | .send i ready nowNs =>
    (l.link.next z (.send ready ((topics i).subscription (l.runs i).manager) nowNs)).map fun link =>
      { l.setRun i ((l.runs i).asked ready) with link }
  | .link (.send _ _ _) => none
  | .link a => (l.link.next z a).map fun link => { l with link }

def BridgedTopics.system (z : Zstd) (host : HostOrder) (ns : Bytes) (topics : ι → BridgedTopic) :
    System (BridgedTopics ι) (BridgedAction ι) where
  start l := (StreamLink.system z host ns).start l.link ∧ ∀ i, l.runs i =
    { manager := (SubscriptionManager.create (topics i).publishStaleData).setSensorType
        (topics i).sensorType }
  next := BridgedTopics.next z topics

def BridgedTopics.Steady (topics : ι → BridgedTopic) (l : BridgedTopics ι) :
    BridgedAction ι → Prop
  | .capture _ _ _ => True
  | .send i _ nowNs => l.link.sender.Steady ((topics i).subscription (l.runs i).manager) nowNs
  | .link a => l.link.Steady a

instance BridgedTopics.decideSteady (topics : ι → BridgedTopic) :
    ∀ (l : BridgedTopics ι) (a : BridgedAction ι), Decidable (l.Steady topics a)
  | _, .capture _ _ _ => instDecidableTrue
  | l, .send i _ nowNs => inferInstanceAs
    (Decidable (l.link.sender.Steady ((topics i).subscription (l.runs i).manager) nowNs))
  | l, .link a => inferInstanceAs (Decidable (l.link.Steady a))

/-- What has been sent under a topic. -/
def sentOn (sent : List Sent) (topic : Bytes) : List Bytes :=
  (sent.filter (·.message.topic = topic)).map (·.message.data)

theorem Sender.send_asked {z : Zstd} {s : Sender} {ready : Bool} {manager : Subscription}
    {nowNs : UInt64} {x : Sent} (h : (s.send z ready manager nowNs).2 = some x) :
    x.message = manager.message ∧ manager.hasData = true ∧ ready = true ∧
      manager.getData.2 = true := by
  cases hattempt : SendCall.attempt z ⟨ready, manager, nowNs⟩ with
  | none =>
    simp only [Sender.send, NetworkBridge.sendData_none hattempt] at h
    cases h
  | some c =>
    have hasked := (Option.ite_none_right_eq_some.mp hattempt).1
    simp only [Bool.and_eq_true] at hasked
    obtain ⟨out, _, rfl⟩ := Option.map_eq_some_iff.mp h
    exact ⟨rfl, hasked.1.1.1, hasked.1.1.2, hasked.2⟩

theorem SubscriptionManager.received_of_hasData {m : SubscriptionManager} (h : m.hasData = true) :
    m.receivedMsg = true := by
  by_contra hreceived
  simp [SubscriptionManager.hasData, hreceived] at h

/-- What a send timer takes from a manager was captured after what it has taken before, or is the
last of that again. -/
theorem CaptureRun.Inv.asked_picks {s : CaptureRun} {q : FrameQueue} (hs : s.Inv q) (ready : Bool)
    {ys : List Bytes}
    (h : Picks s.manager.publishStaleData (s.popped.map SensorFrame.data) ys) :
    Picks s.manager.publishStaleData ((s.asked ready).popped.map SensorFrame.data) ys ∧
      (s.manager.hasData = true → ready = true → s.manager.getData.2.2 = true →
        Picks s.manager.publishStaleData ((s.asked ready).popped.map SensorFrame.data)
          (ys ++ [s.manager.getData.2.1])) := by
  by_cases hasked : (s.manager.hasData && ready) = true
  · have hreceived := SubscriptionManager.received_of_hasData (Bool.and_eq_true_iff.mp hasked).1
    have hfresh := fresh_eq_head hs.ring hreceived
    rw [CaptureRun.asked, if_pos hasked, hfresh]
    rcases SubscriptionManager.getData_cases hs.ring hreceived with
      ⟨f, q', ring', hpop, _, hget⟩ | ⟨hempty, hstale, hne, hget⟩ | ⟨hempty, _, hget⟩
    · rw [hget, BoundedFifo.pop_eq_some_iff.mp hpop]
      simp only [List.head?_cons, Option.toList_some, List.map_append, List.map_singleton]
      exact ⟨h.of_sublist (List.sublist_append_left _ _), fun _ _ _ => h.concat f.data⟩
    · rw [hget, hempty]
      simp only [List.head?_nil, Option.toList_none, List.append_nil]
      refine ⟨h, fun _ _ _ => ?_⟩
      rw [hstale] at h ⊢
      exact h.last (by rw [List.getLast?_map, hs.last_popped hne, Option.map_some])
    · rw [hget, hempty]
      simp only [List.head?_nil, Option.toList_none, List.append_nil]
      exact ⟨h, fun _ _ hvalid => absurd hvalid Bool.false_ne_true⟩
  · rw [CaptureRun.asked, if_neg hasked]
    exact ⟨h, fun hdata hready _ => absurd (by rw [hdata, hready]; rfl) hasked⟩

theorem CaptureRun.Inv.asked {s : CaptureRun} {q : FrameQueue} (hs : s.Inv q) (ready : Bool) :
    ∃ q', (s.asked ready).Inv q' := by
  rw [CaptureRun.asked]
  split
  · exact hs.getData
  · exact ⟨q, hs⟩

theorem sentOn_append (xs ys : List Sent) (topic : Bytes) :
    sentOn (xs ++ ys) topic = sentOn xs topic ++ sentOn ys topic := by
  simp [sentOn]

structure BridgedTopics.Inv (topics : ι → BridgedTopic) (l : BridgedTopics ι) : Prop where
  run : ∀ i, ∃ q, (l.runs i).Inv q
  stale : ∀ i, (l.runs i).manager.publishStaleData = (topics i).publishStaleData
  picks : ∀ i, Picks (topics i).publishStaleData ((l.runs i).popped.map SensorFrame.data)
    (sentOn l.link.sender.sent (topics i).topic)
  origin : ∀ x ∈ l.link.sender.sent, ∃ i, x.message.topic = (topics i).topic ∧
    x.message.msgType = (topics i).msgType

section Invariant

variable {z : Zstd} {host : HostOrder} {ns : Bytes} {topics : ι → BridgedTopic}
  {l t : BridgedTopics ι}

theorem BridgedTopics.setRun_all {P : ι → CaptureRun → Prop} {i : ι} {run : CaptureRun}
    (hi : P i run) (h : ∀ j, j ≠ i → P j (l.runs j)) (j : ι) : P j ((l.setRun i run).runs j) := by
  have hruns : (l.setRun i run).runs = Function.update l.runs i run := rfl
  rw [hruns]
  by_cases hj : j = i
  · subst hj
    rwa [Function.update_self]
  · rw [Function.update_of_ne hj]
    exact h j hj

theorem BridgedTopics.Inv.capture (h : l.Inv topics) {i : ι} {msg : Bytes} {nowNs : UInt64}
    (hn : l.next z topics (.capture i msg nowNs) = some t) : t.Inv topics := by
  obtain ⟨run, hrun, rfl⟩ := Option.map_eq_some_iff.mp hn
  obtain ⟨q, hq⟩ := h.run i
  obtain ⟨m, hm, rfl⟩ := Option.map_eq_some_iff.mp hrun
  have hstale : m.publishStaleData = (l.runs i).manager.publishStaleData := by
    obtain ⟨ring', q', result, _, _, rfl⟩ := SubscriptionManager.callback_cases hq.ring hm
    exact SubscriptionManager.count_publishStaleData _ _
  refine ⟨?_, ?_, ?_, h.origin⟩
  · exact setRun_all (P := fun _ run => ∃ q, run.Inv q) (hq.callback hm) fun j _ => h.run j
  · exact setRun_all
      (P := fun j run => run.manager.publishStaleData = (topics j).publishStaleData)
      (hstale.trans (h.stale i)) fun j _ => h.stale j
  · exact setRun_all
      (P := fun j run => Picks (topics j).publishStaleData (run.popped.map SensorFrame.data)
        (sentOn l.link.sender.sent (topics j).topic))
      (h.picks i) fun j _ => h.picks j

theorem CaptureRun.Inv.asked_stale {s : CaptureRun} {q : FrameQueue} (hs : s.Inv q) (ready : Bool) :
    (s.asked ready).manager.publishStaleData = s.manager.publishStaleData := by
  rw [CaptureRun.asked]
  split
  · cases hreceived : s.manager.receivedMsg with
    | false => rw [SubscriptionManager.getData_unreceived hreceived]
    | true =>
      rcases SubscriptionManager.getData_cases hs.ring hreceived with
        ⟨f, q', ring', _, _, hget⟩ | ⟨_, _, _, hget⟩ | ⟨_, _, hget⟩ <;> rw [hget]
  · rfl

theorem BridgedTopics.Inv.send (h : l.Inv topics)
    (htopics : Function.Injective fun i => (topics i).topic) {i : ι} {ready : Bool} {nowNs : UInt64}
    (hn : l.next z topics (.send i ready nowNs) = some t) : t.Inv topics := by
  cases hn
  obtain ⟨q, hq⟩ := h.run i
  have hpicks := h.picks i
  rw [← h.stale i] at hpicks
  have hasked := hq.asked_picks ready hpicks
  rw [h.stale i] at hasked
  have hout : ∀ x ∈ (l.link.sender.send z ready ((topics i).subscription (l.runs i).manager) nowNs).2,
      x.message = ⟨(topics i).topic, (topics i).msgType, (l.runs i).manager.getData.2.1⟩ ∧
        Picks (topics i).publishStaleData (((l.runs i).asked ready).popped.map SensorFrame.data)
          (sentOn l.link.sender.sent (topics i).topic ++ [(l.runs i).manager.getData.2.1]) := by
    intro x hx
    obtain ⟨hmessage, hdata, hready, hvalid⟩ := Sender.send_asked hx
    exact ⟨hmessage, hasked.2 hdata hready hvalid⟩
  have hsent : (l.link.sender.send z ready ((topics i).subscription (l.runs i).manager) nowNs).1.sent =
      l.link.sender.sent ++
        (l.link.sender.send z ready ((topics i).subscription (l.runs i).manager) nowNs).2.toList := rfl
  refine ⟨?_, ?_, ?_, ?_⟩
  · exact setRun_all (P := fun _ run => ∃ q, run.Inv q) (hq.asked ready) fun j _ => h.run j
  · exact setRun_all
      (P := fun j run => run.manager.publishStaleData = (topics j).publishStaleData)
      ((hq.asked_stale ready).trans (h.stale i)) fun j _ => h.stale j
  · refine setRun_all
      (P := fun j run => Picks (topics j).publishStaleData (run.popped.map SensorFrame.data)
        (sentOn (l.link.sender.send z ready ((topics i).subscription (l.runs i).manager)
          nowNs).1.sent (topics j).topic)) ?_ fun j hj => ?_
    · rw [hsent, sentOn_append]
      cases hx : (l.link.sender.send z ready ((topics i).subscription (l.runs i).manager) nowNs).2 with
      | none => simpa [sentOn] using hasked.1
      | some x =>
        obtain ⟨hmessage, hpicked⟩ := hout x hx
        simpa [sentOn, hmessage] using hpicked
    · rw [hsent, sentOn_append]
      cases hx : (l.link.sender.send z ready ((topics i).subscription (l.runs i).manager) nowNs).2 with
      | none => simpa [sentOn] using h.picks j
      | some x =>
        have hother : (topics i).topic ≠ (topics j).topic := fun heq => hj (htopics heq).symm
        simpa [sentOn, (hout x hx).1, hother] using h.picks j
  · intro x hx
    change x ∈ (l.link.sender.send z ready _ nowNs).1.sent at hx
    rw [hsent] at hx
    rcases List.mem_append.mp hx with hx | hx
    · exact h.origin x hx
    · have hmessage := (hout x (Option.mem_toList.mp hx)).1
      exact ⟨i, by rw [hmessage], by rw [hmessage]⟩

theorem StreamLink.next_sender {l t : StreamLink} {a : StreamAction}
    (hn : l.next z a = some t) (ha : ∀ ready manager nowNs, a ≠ .send ready manager nowNs) :
    t.sender = l.sender := by
  cases a with
  | send ready manager nowNs => exact absurd rfl (ha ready manager nowNs)
  | deliver size =>
    obtain ⟨_, hn⟩ := Option.ite_none_right_eq_some.mp hn
    obtain ⟨thread, _, rfl⟩ := Option.map_eq_some_iff.mp hn
    rfl
  | step =>
    obtain ⟨thread, _, rfl⟩ := Option.map_eq_some_iff.mp hn
    rfl
  | fail | reopen =>
    cases hn
    rfl

theorem BridgedTopics.next_of_link {a : StreamAction}
    (hn : l.next z topics (.link a) = some t) :
    (∀ ready manager nowNs, a ≠ .send ready manager nowNs) ∧
      ∃ link, l.link.next z a = some link ∧ t = { l with link } := by
  have hother : ∀ ready manager nowNs, a ≠ .send ready manager nowNs := by
    rintro ready manager nowNs rfl
    cases hn
  have hmap : (l.link.next z a).map (fun link => { l with link }) = some t := by
    cases a with
    | send ready manager nowNs => exact absurd rfl (hother ready manager nowNs)
    | _ => exact hn
  obtain ⟨link, hlink, rfl⟩ := Option.map_eq_some_iff.mp hmap
  exact ⟨hother, link, hlink, rfl⟩

theorem BridgedTopics.Inv.reachable (htopics : Function.Injective fun i => (topics i).topic)
    (h : (BridgedTopics.system z host ns topics).Reachable (BridgedTopics.Steady topics) l) :
    l.Inv topics := by
  refine h.invariant ?_ ?_
  · rintro l ⟨⟨publishNamespace, walWriter, txWriter, hlink⟩, hruns⟩
    have hsent : l.link.sender.sent = [] := by rw [hlink]
    refine ⟨fun i => ?_, fun i => ?_, fun i => ?_, fun x hx => ?_⟩
    · rw [hruns i]
      exact ⟨_, (CaptureRun.Inv.create (topics i).publishStaleData).setSensorType _⟩
    · rw [hruns i]
      rfl
    · rw [hsent]
      exact Picks.nil
    · rw [hsent] at hx
      cases hx
  · intro l a t hl hsteady hn
    cases a with
    | capture i msg nowNs => exact hl.capture (z := z) hn
    | send i ready nowNs => exact hl.send (z := z) htopics hn
    | link a =>
      obtain ⟨hother, link, hlink, rfl⟩ := BridgedTopics.next_of_link hn
      have hsender := StreamLink.next_sender hlink hother
      refine ⟨hl.run, hl.stale, fun i => ?_, ?_⟩
      · rw [hsender]
        exact hl.picks i
      · rw [hsender]
        exact hl.origin

end Invariant

end SensorForge
