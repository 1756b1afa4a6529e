import SensorForge.FrameCodec
import SensorForge.RingFifo
import SensorForge.TransitionSystem

/-! The subscription manager: captured messages go through the ring to the send timer,
and counters, staleness and the last frame follow them. -/

namespace SensorForge

open SensorForge.Core Protocol Transition

structure SensorFrame where
  data : Bytes := []
  sequence : UInt64 := 0
  timestampNs : UInt64 := 0
  deriving DecidableEq, Inhabited

/-- What a move leaves behind. -/
def SensorFrame.movedFrom (f : SensorFrame) : SensorFrame := { f with data := [] }

def kRingCapacity : Capacity where
  size := 1024
  size_t := by decide
  two_le := by decide
  pow_two := by decide

def defaultPolicyFor (t : SensorType) : BackpressurePolicy :=
  if t = .kCamera then .kOverwriteOldest
  else if t = .kLidar then .kDropNewest
  else if t = .kImu then .kBatchAccumulate
  else if t = .kGps then .kDropNewest
  else if t = .kCan then .kNeverDropBlock
  else .kDropNewest

structure SubscriptionManager where
  receivedMsg : Bool := false
  stale : Bool := true
  publishStaleData : Bool
  ring : SPSCRing SensorFrame kRingCapacity := .create
  currentFrame : SensorFrame := {}
  captureSequence : UInt64 := 0
  sensorType : SensorType := .kControl
  policy : BackpressurePolicy := .kDropNewest
  enqueuedCount : UInt64 := 0
  droppedCount : UInt64 := 0
  overwrittenCount : UInt64 := 0

namespace SubscriptionManager

def setSensorType (m : SubscriptionManager) (t : SensorType) : SubscriptionManager :=
  { m with sensorType := t, policy := defaultPolicyFor t }

def create (publishStaleData : Bool) : SubscriptionManager :=
  let m : SubscriptionManager := { publishStaleData }
  m.setSensorType m.sensorType

def count (m : SubscriptionManager) : PushResult → SubscriptionManager
  | .kEnqueued | .kBlockedThenEnqueued => { m with enqueuedCount := m.enqueuedCount + 1 }
  | .kOverwrote =>
    { m with
      overwrittenCount := m.overwrittenCount + 1
      enqueuedCount := m.enqueuedCount + 1 }
  | .kDroppedNewest => { m with droppedCount := m.droppedCount + 1 }

def capture (m : SubscriptionManager) (msg : Bytes) (nowNs : UInt64) : SensorFrame :=
  { data := msg, sequence := m.captureSequence, timestampNs := nowNs }

/-- `none` where the policy waits for room. -/
def callback (m : SubscriptionManager) (msg : Bytes) (nowNs : UInt64) :
    Option SubscriptionManager :=
  let frame := m.capture msg nowNs
  let m := { m with receivedMsg := true, stale := false, captureSequence := m.captureSequence + 1 }
  (applyPolicy m.ring frame m.policy).map fun (ring, result) => { m with ring }.count result

def hasData (m : SubscriptionManager) : Bool :=
  if !m.receivedMsg then false
  else if !m.ring.emptyApprox then true
  else m.publishStaleData

def isStale (m : SubscriptionManager) : Bool := m.stale

def getData (m : SubscriptionManager) : SubscriptionManager × Bytes × Bool :=
  if !m.receivedMsg then (m, m.currentFrame.data, false)
  else
    match m.ring.tryPop SensorFrame.movedFrom {} with
    | (ring, popped, true) =>
      ({ m with ring, currentFrame := popped, stale := ring.emptyApprox }, popped.data, true)
    | (ring, _, false) =>
      let m := { m with ring }
      if m.publishStaleData && !m.currentFrame.data.isEmpty then (m, m.currentFrame.data, true)
      else ({ m with stale := true }, m.currentFrame.data, false)

end SubscriptionManager

/-- The frames in the ring, oldest first. -/
abbrev FrameQueue := RingQueue SensorFrame kRingCapacity

theorem represents_emptyApprox {ring : SPSCRing SensorFrame kRingCapacity} {q : FrameQueue}
    (h : ring.Represents q) : ring.emptyApprox = q.items.isEmpty := by
  rw [SPSCRing.emptyApprox, h.sizeApprox, Bool.eq_iff_iff, decide_eq_true_iff,
    List.isEmpty_iff_length_eq_zero]

namespace SubscriptionManager

variable {m m' : SubscriptionManager} {q : FrameQueue} {msg : Bytes} {nowNs : UInt64}

@[simp] theorem count_receivedMsg (m : SubscriptionManager) (r : PushResult) :
    (m.count r).receivedMsg = m.receivedMsg := by cases r <;> rfl

@[simp] theorem count_stale (m : SubscriptionManager) (r : PushResult) :
    (m.count r).stale = m.stale := by cases r <;> rfl

@[simp] theorem count_publishStaleData (m : SubscriptionManager) (r : PushResult) :
    (m.count r).publishStaleData = m.publishStaleData := by cases r <;> rfl

@[simp] theorem count_ring (m : SubscriptionManager) (r : PushResult) :
    (m.count r).ring = m.ring := by cases r <;> rfl

@[simp] theorem count_currentFrame (m : SubscriptionManager) (r : PushResult) :
    (m.count r).currentFrame = m.currentFrame := by cases r <;> rfl

@[simp] theorem count_captureSequence (m : SubscriptionManager) (r : PushResult) :
    (m.count r).captureSequence = m.captureSequence := by cases r <;> rfl

@[simp] theorem count_policy (m : SubscriptionManager) (r : PushResult) :
    (m.count r).policy = m.policy := by cases r <;> rfl

/-- What a callback does to the ring, and what it counts. -/
theorem callback_cases (hq : m.ring.Represents q) (h : m.callback msg nowNs = some m') :
    ∃ ring' q' result,
      RingQueue.apply q (m.capture msg nowNs) m.policy = some (q', result) ∧
        ring'.Represents q' ∧
        m' = SubscriptionManager.count
          { m with
            receivedMsg := true, stale := false, captureSequence := m.captureSequence + 1
            ring := ring' } result := by
  have hrel := hq.applyPolicy (m.capture msg nowNs) m.policy
  obtain ⟨⟨ring', result⟩, happly, rfl⟩ := Option.map_eq_some_iff.mp h
  dsimp only at happly
  rw [happly] at hrel
  cases hcall : RingQueue.apply q (m.capture msg nowNs) m.policy with
  | none =>
    rw [hcall] at hrel
    cases hrel
  | some x =>
    rw [hcall] at hrel
    obtain ⟨hrep, hresult⟩ : ring'.Represents x.1 ∧ result = x.2 := by
      cases hrel
      assumption
    exact ⟨ring', x.1, result, by rw [hresult], hrep, rfl⟩

/-- What the send timer gets, and what becomes of the ring. -/
theorem getData_cases (hq : m.ring.Represents q) (hreceived : m.receivedMsg = true) :
    (∃ f q' ring', q.pop = some (f, q') ∧ ring'.Represents q' ∧
      m.getData = ({ m with ring := ring', currentFrame := f, stale := q'.items.isEmpty },
        f.data, true)) ∨
    (q.items = [] ∧ m.publishStaleData = true ∧ m.currentFrame.data ≠ [] ∧
      m.getData = (m, m.currentFrame.data, true)) ∨
    (q.items = [] ∧ (m.publishStaleData = false ∨ m.currentFrame.data = []) ∧
      m.getData = ({ m with stale := true }, m.currentFrame.data, false)) := by
  cases hpop : q.pop with
  | some x =>
    obtain ⟨f, q'⟩ := x
    obtain ⟨ring', htry, hrep⟩ := hq.tryPop_some hpop SensorFrame.movedFrom {}
    refine .inl ⟨f, q', ring', rfl, hrep, ?_⟩
    rw [getData, if_neg (by simp [hreceived]), htry, ← represents_emptyApprox hrep]
  | none =>
    have hempty := BoundedFifo.pop_eq_none_iff.mp hpop
    have htry := hq.tryPop_none hpop SensorFrame.movedFrom {}
    have hget : m.getData =
        if m.publishStaleData && !m.currentFrame.data.isEmpty then (m, m.currentFrame.data, true)
        else ({ m with stale := true }, m.currentFrame.data, false) := by
      rw [getData, if_neg (by simp [hreceived]), htry]
    rw [hget]
    split
    · next hresend =>
      rw [Bool.and_eq_true, Bool.not_eq_true', List.isEmpty_eq_false_iff] at hresend
      exact .inr (.inl ⟨hempty, hresend.1, hresend.2, rfl⟩)
    · next hresend =>
      refine .inr (.inr ⟨hempty, ?_, rfl⟩)
      rw [Bool.and_eq_true, Bool.not_eq_true', List.isEmpty_eq_false_iff, not_and_or,
        Bool.not_eq_true, not_not] at hresend
      exact hresend

theorem getData_items (hq : m.ring.Represents q) (hreceived : m.receivedMsg = true) :
    m.getData.1.ring.items = q.items.tail := by
  rcases getData_cases hq hreceived with
    ⟨f, q', ring', hpop, hrep, hget⟩ | ⟨hempty, _, _, hget⟩ | ⟨hempty, _, hget⟩
  · rw [hget, BoundedFifo.pop_eq_some_iff.mp hpop, List.tail_cons]
    exact hrep.items
  · rw [hget, hempty, List.tail_nil, ← hempty]
    exact hq.items
  · rw [hget, hempty, List.tail_nil, ← hempty]
    exact hq.items

theorem getData_unreceived (h : m.receivedMsg = false) :
    m.getData = (m, m.currentFrame.data, false) := by
  simp [getData, h]

end SubscriptionManager

/-- A manager with its history: the frames captured so far, and the frames that the send
timer has taken from the ring. -/
structure CaptureRun where
  manager : SubscriptionManager
  captured : List SensorFrame := []
  popped : List SensorFrame := []

inductive ManagerAction where
  | callback (msg : Bytes) (nowNs : UInt64)
  | getData
  | setSensorType (t : SensorType)

/-- The frame that `getData` takes from the ring. -/
def SubscriptionManager.fresh (m : SubscriptionManager) : Option SensorFrame :=
  if !m.receivedMsg then none
  else
    match m.ring.tryPop SensorFrame.movedFrom {} with
    | (_, popped, true) => some popped
    | (_, _, false) => none

def CaptureRun.next (s : CaptureRun) : ManagerAction → Option CaptureRun
  | .callback msg nowNs => (s.manager.callback msg nowNs).map fun manager =>
    { s with manager, captured := s.captured ++ [s.manager.capture msg nowNs] }
  | .getData => some
    { s with manager := s.manager.getData.1, popped := s.popped ++ s.manager.fresh.toList }
  | .setSensorType t => some { s with manager := s.manager.setSensorType t }

def CaptureRun.system (publishStaleData : Bool) : System CaptureRun ManagerAction where
  start s := s = { manager := .create publishStaleData }
  next := CaptureRun.next

structure CaptureRun.Inv (s : CaptureRun) (q : FrameQueue) : Prop where
  ring : s.manager.ring.Represents q
  order : (s.popped ++ q.items).Sublist s.captured
  offered : s.captured ≠ [] → s.popped ++ q.items ≠ []
  sequences : s.captured.map SensorFrame.sequence =
    (List.range s.captured.length).map UInt64.ofNat
  sequence : s.manager.captureSequence = UInt64.ofNat s.captured.length
  total : s.manager.captureSequence = s.manager.enqueuedCount + s.manager.droppedCount
  enqueued : s.manager.enqueuedCount =
    UInt64.ofNat (s.popped.length + q.items.length) + s.manager.overwrittenCount
  stale : s.manager.stale = q.items.isEmpty
  current : s.manager.currentFrame = s.popped.getLast?.getD {}
  received : s.manager.receivedMsg = !s.captured.isEmpty

theorem CaptureRun.Inv.create (publishStaleData : Bool) :
    CaptureRun.Inv { manager := .create publishStaleData } BoundedFifo.empty where
  ring := SPSCRing.create_represents
  order := List.nil_sublist _
  offered h := absurd rfl h
  sequences := rfl
  sequence := rfl
  total := rfl
  enqueued := rfl
  stale := rfl
  current := rfl
  received := rfl

theorem CaptureRun.Inv.setSensorType {s : CaptureRun} {q : FrameQueue} (hs : s.Inv q)
    (t : SensorType) : CaptureRun.Inv { s with manager := s.manager.setSensorType t } q :=
  ⟨hs.ring, hs.order, hs.offered, hs.sequences, hs.sequence, hs.total, hs.enqueued, hs.stale,
    hs.current, hs.received⟩

theorem CaptureRun.Inv.callback {s : CaptureRun} {q : FrameQueue} (hs : s.Inv q) {msg : Bytes}
    {nowNs : UInt64} {m : SubscriptionManager} (h : s.manager.callback msg nowNs = some m) :
    ∃ q', CaptureRun.Inv
      { s with manager := m, captured := s.captured ++ [s.manager.capture msg nowNs] } q' := by
  obtain ⟨ring', q', result, hcall, hrep, rfl⟩ :=
    SubscriptionManager.callback_cases hs.ring h
  have hsequences : (s.captured ++ [s.manager.capture msg nowNs]).map SensorFrame.sequence =
      (List.range (s.captured ++ [s.manager.capture msg nowNs]).length).map UInt64.ofNat := by
    rw [List.map_append, hs.sequences, List.length_append, List.length_singleton,
      List.range_succ, List.map_append, List.map_singleton, List.map_singleton,
      SubscriptionManager.capture, hs.sequence]
  have hsequence : s.manager.captureSequence + 1 =
      UInt64.ofNat (s.captured ++ [s.manager.capture msg nowNs]).length := by
    rw [hs.sequence, List.length_append, List.length_singleton, UInt64.ofNat_add]
    rfl
  have hreceived : true = !(s.captured ++ [s.manager.capture msg nowNs]).isEmpty := by simp
  have hfull : q.items.length = kRingCapacity.size - 1 → q.items ≠ [] := fun hlen =>
    List.ne_nil_of_length_pos (by rw [hlen]; decide)
  refine ⟨q', ?_⟩
  rcases RingQueue.apply_cases hcall with
    ⟨rfl, hitems⟩ | ⟨rfl, hlen, hitems⟩ | ⟨rfl, hlen, rfl⟩
  · refine ⟨hrep, ?_, ?_, hsequences, hsequence, ?_, ?_, ?_, hs.current, hreceived⟩
    · rw [hitems, ← List.append_assoc]
      exact hs.order.append_right _
    · simp [hitems]
    · change s.manager.captureSequence + 1 = s.manager.enqueuedCount + 1 + s.manager.droppedCount
      rw [hs.total]
      ac_rfl
    · change s.manager.enqueuedCount + 1 =
        UInt64.ofNat (s.popped.length + q'.items.length) + s.manager.overwrittenCount
      have hone : UInt64.ofNat 1 = 1 := rfl
      rw [hs.enqueued, hitems, List.length_append, List.length_singleton, ← Nat.add_assoc,
        UInt64.ofNat_add _ 1, hone]
      ac_rfl
    · simp [hitems, SubscriptionManager.count]
  · refine ⟨hrep, ?_, ?_, hsequences, hsequence, ?_, ?_, ?_, hs.current, hreceived⟩
    · rw [hitems, ← List.append_assoc]
      exact (((List.tail_sublist _).append_left _).trans hs.order).append_right _
    · simp [hitems]
    · change s.manager.captureSequence + 1 = s.manager.enqueuedCount + 1 + s.manager.droppedCount
      rw [hs.total]
      ac_rfl
    · change s.manager.enqueuedCount + 1 =
        UInt64.ofNat (s.popped.length + q'.items.length) + (s.manager.overwrittenCount + 1)
      have hpos := List.length_pos_of_ne_nil (hfull hlen)
      rw [hs.enqueued, hitems, List.length_append, List.length_tail, List.length_singleton,
        Nat.sub_add_cancel hpos]
      ac_rfl
    · simp [hitems, SubscriptionManager.count]
  · have hne := hfull hlen
    refine ⟨hrep, hs.order.trans (List.sublist_append_left _ _), ?_, hsequences, hsequence, ?_,
      hs.enqueued, ?_, hs.current, hreceived⟩
    · intro _ hnil
      exact hne (List.append_eq_nil_iff.mp hnil).2
    · change s.manager.captureSequence + 1 = s.manager.enqueuedCount + (s.manager.droppedCount + 1)
      rw [hs.total]
      ac_rfl
    · simpa [SubscriptionManager.count] using hne

/-- The frame that can be sent again is the one that was sent last. -/
theorem CaptureRun.Inv.last_popped {s : CaptureRun} {q : FrameQueue} (hs : s.Inv q)
    (hne : s.manager.currentFrame.data ≠ []) :
    s.popped.getLast? = some s.manager.currentFrame := by
  have hcurrent := hs.current
  cases hlast : s.popped.getLast? with
  | some f =>
    rw [hlast, Option.getD_some] at hcurrent
    rw [hcurrent]
  | none =>
    rw [hlast, Option.getD_none] at hcurrent
    rw [hcurrent] at hne
    exact absurd rfl hne

theorem fresh_eq_head {m : SubscriptionManager} {q : FrameQueue} (hq : m.ring.Represents q)
    (hreceived : m.receivedMsg = true) : m.fresh = q.items.head? := by
  rw [SubscriptionManager.fresh, if_neg (by simp [hreceived])]
  cases hpop : q.pop with
  | some x =>
    obtain ⟨f, q'⟩ := x
    obtain ⟨ring', htry, _⟩ := hq.tryPop_some hpop SensorFrame.movedFrom {}
    rw [htry, BoundedFifo.pop_eq_some_iff.mp hpop]
    rfl
  | none =>
    rw [hq.tryPop_none hpop, BoundedFifo.pop_eq_none_iff.mp hpop]
    rfl

theorem CaptureRun.Inv.getData {s : CaptureRun} {q : FrameQueue} (hs : s.Inv q) :
    ∃ q', CaptureRun.Inv
      { s with manager := s.manager.getData.1, popped := s.popped ++ s.manager.fresh.toList } q' := by
  cases hreceived : s.manager.receivedMsg with
  | false =>
    have hfresh : s.manager.fresh = none := by simp [SubscriptionManager.fresh, hreceived]
    rw [SubscriptionManager.getData_unreceived hreceived, hfresh, Option.toList_none,
      List.append_nil]
    exact ⟨q, hs⟩
  | true =>
    have hfresh := fresh_eq_head hs.ring hreceived
    rcases SubscriptionManager.getData_cases hs.ring hreceived with
      ⟨f, q', ring', hpop, hrep, hget⟩ | ⟨hempty, _, _, hget⟩ | ⟨hempty, _, hget⟩
    · have hitems := BoundedFifo.pop_eq_some_iff.mp hpop
      rw [hitems, List.head?_cons] at hfresh
      rw [hget, hfresh, Option.toList_some]
      refine ⟨q', hrep, ?_, ?_, hs.sequences, hs.sequence, hs.total, ?_, rfl, ?_, hs.received⟩
      · rw [List.append_assoc, List.singleton_append, ← hitems]
        exact hs.order
      · intro hne
        rw [List.append_assoc, List.singleton_append, ← hitems]
        exact hs.offered hne
      · have henqueued := hs.enqueued
        rw [hitems, List.length_cons] at henqueued
        change s.manager.enqueuedCount = UInt64.ofNat ((s.popped ++ [f]).length + q'.items.length) +
          s.manager.overwrittenCount
        rw [henqueued, List.length_append, List.length_singleton, Nat.add_right_comm,
          Nat.add_assoc s.popped.length]
      · rw [List.getLast?_concat]
        rfl
    · rw [hempty, List.head?_nil] at hfresh
      rw [hget, hfresh, Option.toList_none, List.append_nil]
      exact ⟨q, hs⟩
    · rw [hempty, List.head?_nil] at hfresh
      rw [hget, hfresh, Option.toList_none, List.append_nil]
      exact ⟨q, hs.ring, hs.order, hs.offered, hs.sequences, hs.sequence, hs.total, hs.enqueued,
        by simp [hempty], hs.current, hs.received⟩

theorem CaptureRun.Inv.next {s t : CaptureRun} {q : FrameQueue} {a : ManagerAction} (hs : s.Inv q)
    (h : s.next a = some t) : ∃ q', t.Inv q' := by
  cases a with
  | callback msg nowNs =>
    obtain ⟨m, hm, rfl⟩ := Option.map_eq_some_iff.mp h
    exact hs.callback hm
  | getData =>
    cases h
    exact hs.getData
  | setSensorType t =>
    cases h
    exact ⟨q, hs.setSensorType t⟩

theorem CaptureRun.reachable_inv {publishStaleData : Bool} {s : CaptureRun}
    (hs : (CaptureRun.system publishStaleData).Reachable anyStep s) : ∃ q, s.Inv q := by
  apply hs.invariant
  · rintro s rfl
    exact ⟨_, CaptureRun.Inv.create publishStaleData⟩
  · rintro s a t ⟨q, hq⟩ _ hn
    exact hq.next hn

theorem sequences_increasing {n : Nat} (hn : n ≤ 2 ^ 64) :
    ((List.range n).map UInt64.ofNat).Pairwise (· < ·) := by
  rw [List.pairwise_map]
  refine List.Pairwise.imp_of_mem ?_ List.pairwise_lt_range
  intro a b ha hb hlt
  have hb' := List.mem_range.mp hb
  rw [UInt64.lt_iff_toNat_lt, UInt64.toNat_ofNat', UInt64.toNat_ofNat',
    Nat.mod_eq_of_lt (by omega), Nat.mod_eq_of_lt (by omega)]
  exact hlt

/-- In every state that callbacks and sends lead to, under any policy: the counters
account for every capture and every frame, fresh frames come in the order of their
numbers as long as these do not wrap, staleness is an empty ring, and what is sent again
is the frame popped last. -/
theorem stream_accounting {publishStaleData : Bool} {s : CaptureRun}
    (hs : (CaptureRun.system publishStaleData).Reachable anyStep s) :
    s.manager.captureSequence = s.manager.enqueuedCount + s.manager.droppedCount ∧
      s.manager.enqueuedCount = UInt64.ofNat (s.popped.length + s.manager.ring.sizeApprox) +
        s.manager.overwrittenCount ∧
      (s.captured.length ≤ 2 ^ 64 → (s.popped.map SensorFrame.sequence).Pairwise (· < ·)) ∧
      (s.manager.stale = true ↔ s.manager.ring.items = []) ∧
      (s.manager.getData.2.2 = true → s.manager.fresh = none →
        ∃ f, s.popped.getLast? = some f ∧ s.manager.getData.2.1 = f.data) := by
  obtain ⟨q, hq⟩ := CaptureRun.reachable_inv hs
  refine ⟨hq.total, ?_, ?_, ?_, ?_⟩
  · rw [hq.ring.sizeApprox]
    exact hq.enqueued
  · intro hlen
    have hsub : s.popped.Sublist s.captured := (List.sublist_append_left _ _).trans hq.order
    have hinc := sequences_increasing hlen
    rw [← hq.sequences] at hinc
    exact hinc.sublist (hsub.map _)
  · rw [hq.stale, hq.ring.items, List.isEmpty_iff]
  · intro hvalid hfresh
    cases hreceived : s.manager.receivedMsg with
    | false =>
      rw [SubscriptionManager.getData_unreceived hreceived] at hvalid
      cases hvalid
    | true =>
      rw [fresh_eq_head hq.ring hreceived, List.head?_eq_none_iff] at hfresh
      rcases SubscriptionManager.getData_cases hq.ring hreceived with
        ⟨f, q', ring', hpop, _, _⟩ | ⟨_, _, hne, hget⟩ | ⟨_, _, hget⟩
      · rw [BoundedFifo.pop_eq_some_iff, hfresh] at hpop
        cases hpop
      · rw [hget]
        exact ⟨_, hq.last_popped hne, rfl⟩
      · rw [hget] at hvalid
        cases hvalid

def sentOnce : Option CaptureRun :=
  (CaptureRun.system true).run anyStep { manager := .create true } [.callback [7] 0, .getData]

theorem stream_accounting_resent :
    ∃ s, sentOnce = some s ∧ s.manager.fresh = none ∧ s.manager.getData.2 = ([7], true) ∧
      ∃ f, s.popped.getLast? = some f ∧ f.data = [7] := by
  obtain ⟨s, hs, hfresh, hget⟩ : ∃ s, sentOnce = some s ∧ s.manager.fresh = none ∧
      s.manager.getData.2 = ([7], true) := ⟨_, rfl, rfl, rfl⟩
  have hreach : (CaptureRun.system true).Reachable anyStep s :=
    System.Reachable.run (.start rfl) hs
  obtain ⟨f, hlast, hdata⟩ := (stream_accounting hreach).2.2.2.2 (by rw [hget]) hfresh
  rw [hget] at hdata
  exact ⟨s, hs, hfresh, hget, f, hlast, hdata.symm⟩

theorem sent_next {s : CaptureRun} {q : FrameQueue} (hq : s.manager.ring.Represents q)
    (hempty : q.items = []) (hpolicy : s.manager.policy = .kDropNewest) :
    ∃ t u, s.next (.callback [] 0) = some t ∧ t.next .getData = some u ∧
      u.manager.policy = .kDropNewest ∧ u.captured.length = s.captured.length + 1 ∧
      u.popped.length = s.popped.length + 1 := by
  obtain ⟨q', hq'⟩ : ∃ q', q.push (s.manager.capture [] 0) = some q' := by
    cases hpush : q.push (s.manager.capture [] 0) with
    | some q' => exact ⟨q', rfl⟩
    | none =>
      rw [BoundedFifo.push_eq_none_iff, hempty] at hpush
      cases hpush
  obtain ⟨ring', hpush, hrep⟩ := hq.tryPush_some hq'
  obtain ⟨t, ht, hring, hreceived, hpolicy', hcaptured, hpopped⟩ : ∃ t,
      s.next (.callback [] 0) = some t ∧ t.manager.ring.Represents q' ∧
        t.manager.receivedMsg = true ∧ t.manager.policy = .kDropNewest ∧
        t.captured = s.captured ++ [s.manager.capture [] 0] ∧ t.popped = s.popped := by
    simp only [CaptureRun.next, SubscriptionManager.callback, applyPolicy, hpolicy, hpush,
      Option.map_some]
    exact ⟨_, rfl, hrep, rfl, rfl, rfl, rfl⟩
  have hitems := (BoundedFifo.push_eq_some_iff.mp hq').2
  rw [hempty, List.nil_append] at hitems
  refine ⟨t, _, ht, rfl, ?_, ?_, ?_⟩
  · change t.manager.getData.1.policy = .kDropNewest
    rcases SubscriptionManager.getData_cases hring hreceived with
      ⟨_, _, _, _, _, hget⟩ | ⟨_, _, _, hget⟩ | ⟨_, _, hget⟩ <;>
    · rw [hget]
      exact hpolicy'
  · rw [hcaptured, List.length_append, List.length_singleton]
  · rw [fresh_eq_head hring hreceived, hitems, List.head?_cons, Option.toList_some,
      List.length_append, hpopped, List.length_singleton]

theorem sent_reachable (n : Nat) : ∃ s, (CaptureRun.system true).Reachable anyStep s ∧
    s.manager.policy = .kDropNewest ∧ s.captured.length = n ∧ s.popped.length = n := by
  induction n with
  | zero => exact ⟨_, .start rfl, rfl, rfl, rfl⟩
  | succ n ih =>
    obtain ⟨s, hs, hpolicy, hcaptured, hpopped⟩ := ih
    obtain ⟨q, hq⟩ := CaptureRun.reachable_inv hs
    have hempty : q.items = [] := by
      have hlen := hq.order.length_le
      rw [List.length_append, hcaptured, hpopped] at hlen
      exact List.eq_nil_of_length_eq_zero (by omega)
    obtain ⟨t, u, ht, hu, hpolicy', hcaptured', hpopped'⟩ := sent_next hq.ring hempty hpolicy
    have hreach := (hs.step (a := ManagerAction.callback [] 0) trivial ht).step
      (a := ManagerAction.getData) trivial hu
    exact ⟨u, hreach, hpolicy', by rw [hcaptured', hcaptured], by rw [hpopped', hpopped]⟩

theorem sequences_not_increasing {n : Nat} (hn : 2 ^ 64 < n) :
    ¬ ((List.range n).map UInt64.ofNat).Pairwise (· < ·) := by
  intro h
  rw [List.pairwise_map, List.pairwise_iff_getElem] at h
  have hwrap := h 0 (2 ^ 64) (by rw [List.length_range]; omega) (by rw [List.length_range]; omega)
    (Nat.two_pow_pos 64)
  rw [List.getElem_range, List.getElem_range, UInt64.lt_iff_toNat_lt, UInt64.toNat_ofNat',
    UInt64.toNat_ofNat', Nat.mod_self] at hwrap
  omega

/-- The capture number is back at zero after `2 ^ 64` messages. -/
theorem capture_sequence_wraps :
    ¬ ∀ (publishStaleData : Bool) (s : CaptureRun),
      (CaptureRun.system publishStaleData).Reachable anyStep s →
      (s.popped.map SensorFrame.sequence).Pairwise (· < ·) := by
  intro h
  obtain ⟨n, hn⟩ : ∃ n, n = 2 ^ 64 + 1 := ⟨_, rfl⟩
  obtain ⟨s, hs, _, hcaptured, hpopped⟩ := sent_reachable n
  obtain ⟨q, hq⟩ := CaptureRun.reachable_inv hs
  have hsub : s.popped.Sublist s.captured := (List.sublist_append_left _ _).trans hq.order
  have hall : s.popped = s.captured := hsub.eq_of_length (hpopped.trans hcaptured.symm)
  have hinc := h true s hs
  rw [hall, hq.sequences, hcaptured] at hinc
  exact sequences_not_increasing (by omega) hinc

end SensorForge
