import SensorForge.FaultFlush

/-! What the end of a call of `flush` means for the frames of the delay queue: the worker
may have taken one out and not yet passed it to the write callback. -/

namespace SensorForge.Faults

open Transition

variable {ω D : Type} [Double D] {W : World ω D} {rules : List (FaultRule D)}

/-- The calling thread's work touches neither thread's hand, and only adds to the queue. -/
structure Queues (e e' : FaultEngine ω D) : Prop where
  workerHand : e'.workerHand = e.workerHand
  flushHand : e'.flushHand = e.flushHand
  flushing : e'.flushing = e.flushing
  delayed : e.delayed <+: e'.delayed

theorem process_queues (e : FaultEngine ω D) (c : ProcessCall D) : Queues e (e.process W c) := by
  have honwards := process_onwards (W := W) e c
  obtain ⟨window, restarts, heq⟩ := trackRestarts_eq { e with calls := e.calls ++ [c] }
    (e.active c.tS c.stream) c.stream
  rw [heq] at honwards
  exact ⟨honwards.workerHand, honwards.flushHand, honwards.flushing, honwards.delayed⟩

/-- The engine with the history of its queue: the frames that `process` has put in, those
among them that have been passed to the write callback, and what had been put in when the
current call of `flush` began, and before each call that has returned. -/
structure Watched (ω D : Type) [Double D] where
  engine : FaultEngine ω D
  queued : Multiset Frame := 0
  released : Multiset Frame := 0
  before : Multiset Frame := 0
  returned : List (Multiset Frame) := []

def Watched.next (W : World ω D) (s : Watched ω D) (a : EngineAction D) : Option (Watched ω D) :=
  (s.engine.next W a).map fun engine =>
    match a with
    | .process _ =>
      { s with
        engine
        queued := s.queued +
          ↑((engine.delayed.drop s.engine.delayed.length).map Delayed.frame) }
    | .workerPop _ => { s with engine }
    | .workerEmit => { s with engine, released := s.released + ↑s.engine.workerHand.toList }
    | .flush => { s with engine, before := s.queued }
    | .flushPop _ => { s with engine }
    | .flushEmit => { s with engine, released := s.released + ↑s.engine.flushHand.toList }
    | .flushReturn => { s with engine, returned := s.returned ++ [s.before] }

def Watched.system (W : World ω D) (rules : List (FaultRule D)) :
    System (Watched ω D) (EngineAction D) where
  start s := ∃ world, s = { engine := { rules := rules, world := world } }
  next := Watched.next W

/-- What was in the queue before a call of `flush` that has returned has been passed to
the callback. -/
def Watched.Barrier (s : Watched ω D) : Prop := ∀ before ∈ s.returned, before ≤ s.released

/-- No `flush` returns while the worker holds a frame. -/
def Watched.workerIdle (s : Watched ω D) : EngineAction D → Prop
  | .flushReturn => s.engine.workerHand = none
  | _ => True

/-- Where the frames of the queue are. -/
structure Watched.Inv (s : Watched ω D) : Prop where
  queued : s.queued = s.released + ↑(s.engine.delayed.map Delayed.frame) +
    ↑s.engine.workerHand.toList + ↑s.engine.flushHand.toList
  before : s.engine.flushing = true → s.before = s.queued
  flushHand : s.engine.flushing = false → s.engine.flushHand = none
  written : s.released ≤ ↑(s.engine.written.map Written.frame)

theorem Watched.Inv.start (world : ω) :
    Watched.Inv { engine := { rules := rules, world := world } } :=
  ⟨rfl, fun h => (by cases h), fun _ => rfl, le_refl _⟩

theorem Watched.Inv.process {s t : Watched ω D} {c : ProcessCall D} (hs : s.Inv)
    (h : s.next W (.process c) = some t) : t.Inv := by
  obtain ⟨e, he, rfl⟩ := Option.map_eq_some_iff.mp h
  cases next_step he with
  | process c hidle =>
    have hq := process_queues (W := W) s.engine c
    obtain ⟨ds, hds⟩ := hq.delayed
    obtain ⟨ws, hws⟩ := process_written (W := W) s.engine c
    refine ⟨?_, ?_, ?_, ?_⟩
    · dsimp only
      rw [hq.workerHand, hq.flushHand, ← hds, List.drop_left, hs.queued, List.map_append,
        ← Multiset.coe_add]
      abel
    · intro hf
      rw [hq.flushing, hidle] at hf
      cases hf
    · intro hf
      rw [hq.flushing] at hf
      exact hq.flushHand.trans (hs.flushHand hf)
    · dsimp only
      rw [hws, List.map_append, ← Multiset.coe_add]
      exact hs.written.trans (Multiset.le_add_right _ _)

theorem Watched.Inv.emit {s : Watched ω D} (hs : s.Inv) (f : Frame) :
    s.released + ↑[f] ≤ ↑((s.engine.emit W f).written.map Written.frame) := by
  simp only [FaultEngine.emit, List.map_append, List.map_cons, List.map_nil, ← Multiset.coe_add]
  exact Multiset.add_le_add_right hs.written

theorem Watched.Inv.next {s t : Watched ω D} {a : EngineAction D} (hs : s.Inv)
    (h : s.next W a = some t) : t.Inv := by
  obtain ⟨e, he, rfl⟩ := Option.map_eq_some_iff.mp h
  cases next_step he with
  | process c => exact hs.process h
  | workerWait i d hfree htop hearly => exact ⟨hs.queued, hs.before, hs.flushHand, hs.written⟩
  | workerPop i d hfree htop hdue =>
    refine ⟨?_, hs.before, hs.flushHand, hs.written⟩
    rw [hs.queued, top_mem htop, hfree]
    simp only [Option.toList_none, Option.toList_some, Multiset.coe_nil, Multiset.coe_singleton]
    abel
  | workerEmit f hhand =>
    refine ⟨?_, hs.before, hs.flushHand, ?_⟩
    · simp only [FaultEngine.emit, Option.toList_none, Multiset.coe_nil]
      rw [hs.queued]
      abel
    · dsimp only
      rw [hhand]
      exact hs.emit f
  | flush hidle =>
    refine ⟨hs.queued, fun _ => rfl, fun hf => ?_, hs.written⟩
    cases hf
  | flushPop i d hf hfree htop =>
    refine ⟨?_, hs.before, fun hidle => ?_, hs.written⟩
    · rw [hs.queued, top_mem htop, hfree]
      simp only [Option.toList_none, Option.toList_some, Multiset.coe_nil, Multiset.coe_singleton]
      abel
    · rw [hf] at hidle
      cases hidle
  | flushEmit f hhand =>
    refine ⟨?_, hs.before, fun _ => rfl, ?_⟩
    · simp only [FaultEngine.emit, Option.toList_none, Multiset.coe_nil]
      rw [hs.queued]
      abel
    · dsimp only
      rw [hhand]
      exact hs.emit f
  | flushReturn hf hfree hempty =>
    refine ⟨hs.queued, fun hf => ?_, fun _ => hfree, hs.written⟩
    cases hf

theorem Watched.reachable_inv {guard : Watched ω D → EngineAction D → Prop} {s : Watched ω D}
    (h : (Watched.system W rules).Reachable guard s) : s.Inv := by
  apply h.invariant
  · rintro s ⟨world, rfl⟩
    exact Watched.Inv.start world
  · intro s a t hs _ hn
    exact hs.next hn

/-- At the return the queue is empty, and what has not come out is what the worker holds. -/
theorem Watched.Inv.flushReturn {s t : Watched ω D} (hs : s.Inv)
    (h : s.next W .flushReturn = some t) :
    t.returned = s.returned ++ [s.before] ∧ t.released = s.released ∧
      s.before = s.released + ↑s.engine.workerHand.toList := by
  obtain ⟨e, he, rfl⟩ := Option.map_eq_some_iff.mp h
  cases next_step he with
  | flushReturn hf hfree hempty =>
    refine ⟨rfl, rfl, ?_⟩
    rw [hs.before hf, hs.queued, hfree, hempty]
    simp

theorem Watched.Inv.flushed_iff {s t : Watched ω D} (hs : s.Inv)
    (h : s.next W .flushReturn = some t) : s.before ≤ t.released ↔ s.engine.workerHand = none := by
  obtain ⟨_, hreleased, hbefore⟩ := hs.flushReturn h
  rw [hreleased, hbefore, add_le_iff_nonpos_right, nonpos_iff_eq_zero, Multiset.coe_eq_zero,
    Option.toList_eq_nil_iff]

theorem Watched.released_le {s t : Watched ω D} {a : EngineAction D} (h : s.next W a = some t) :
    s.released ≤ t.released := by
  obtain ⟨e, _, rfl⟩ := Option.map_eq_some_iff.mp h
  cases a <;> first | exact le_refl _ | exact Multiset.le_add_right _ _

theorem Watched.Barrier.next {s t : Watched ω D} {a : EngineAction D} (hs : s.Barrier)
    (hinv : s.Inv) (hidle : s.workerIdle a) (h : s.next W a = some t) : t.Barrier := by
  have hreleased := Watched.released_le h
  by_cases ha : a = .flushReturn
  · subst ha
    have hlast := (hinv.flushed_iff h).mpr hidle
    intro before hbefore
    rw [(hinv.flushReturn h).1, List.mem_append, List.mem_singleton] at hbefore
    rcases hbefore with hbefore | rfl
    · exact (hs before hbefore).trans hreleased
    · exact hlast
  · have hsame : t.returned = s.returned := by
      obtain ⟨e, _, rfl⟩ := Option.map_eq_some_iff.mp h
      cases a <;> first | rfl | exact absurd rfl ha
    intro before hbefore
    exact (hs before (hsame ▸ hbefore)).trans hreleased

theorem Watched.reachable_barrier {s : Watched ω D}
    (h : (Watched.system W rules).Reachable Watched.workerIdle s) : s.Barrier := by
  suffices hboth : s.Inv ∧ s.Barrier from hboth.2
  apply h.invariant
  · rintro s ⟨world, rfl⟩
    exact ⟨Watched.Inv.start world, by simp [Watched.Barrier]⟩
  · intro s a t hs hidle hn
    exact ⟨hs.1.next hn, hs.2.next hs.1 hidle hn⟩

/-- In a run in which no `flush` returns while the worker holds a frame, every frame that
was queued before a finished `flush` has been passed to the callback. A `flush` that
returns in any other state has left that frame behind. -/
theorem flush_barrier {s : Watched ω D} (hs : (Watched.system W rules).Reachable anyStep s) :
    ((Watched.system W rules).Reachable Watched.workerIdle s → s.Barrier) ∧
      s.released ≤ ↑(s.engine.written.map Written.frame) ∧
      ∀ t, s.next W .flushReturn = some t → t.returned = s.returned ++ [s.before] ∧
        (s.before ≤ t.released ↔ s.engine.workerHand = none) := by
  have hinv := Watched.reachable_inv hs
  refine ⟨Watched.reachable_barrier, hinv.written, ?_⟩
  intro t ht
  exact ⟨(hinv.flushReturn ht).1, hinv.flushed_iff ht⟩

def delayRule : FaultRule Int64 := { kind := .kDelay, durationS := 10, delayMs := 5 }

def delayCall : ProcessCall Int64 := { data := [7], tS := 1, stream := "imu" }

/-- One frame that the worker takes out when it is due, and `flush` after `as`. -/
def overtaken (as : List (EngineAction Int64)) : Option (Watched (List Int64 × List Int) Int64) :=
  (Watched.system scriptedWorld [delayRule]).run anyStep
    { engine := { rules := [delayRule], world := ([0, 5000000], []) } }
    ([.process delayCall, .workerPop 0] ++ as ++ [.flush])

theorem overtaken_reachable {as : List (EngineAction Int64)}
    {s : Watched (List Int64 × List Int) Int64} (h : overtaken as = some s) :
    (Watched.system scriptedWorld [delayRule]).Reachable anyStep s :=
  System.Reachable.run (.start ⟨([0, 5000000], []), rfl⟩) h

theorem flush_barrier_emitted :
    ∃ s t, overtaken [.workerEmit] = some s ∧ s.next scriptedWorld .flushReturn = some t ∧
      s.before.card = 1 ∧ s.before ≤ t.released := by
  obtain ⟨s, hs, hhand, hcard, t, ht⟩ : ∃ s, overtaken [.workerEmit] = some s ∧
      s.engine.workerHand = none ∧ s.before.card = 1 ∧
        ∃ t, s.next scriptedWorld .flushReturn = some t :=
    ⟨_, rfl, rfl, rfl, _, rfl⟩
  exact ⟨s, t, hs, ht, hcard,
    ((flush_barrier (overtaken_reachable hs)).2.2 t ht).2.mpr hhand⟩

theorem flush_overtakes :
    ¬ ∀ (rules : List (FaultRule Int64)) (s : Watched (List Int64 × List Int) Int64),
      (Watched.system scriptedWorld rules).Reachable anyStep s → s.Barrier := by
  intro h
  obtain ⟨s, t, hs, ht, hreturned, hreleased⟩ : ∃ s t, overtaken [] = some s ∧
      s.next scriptedWorld .flushReturn = some t ∧
        t.returned = [{({ data := [7], call := 0 } : Frame)}] ∧ t.released = 0 :=
    ⟨_, _, rfl, rfl, rfl, rfl⟩
  have hbar := h [delayRule] t ((overtaken_reachable hs).step trivial ht) _
    (hreturned ▸ List.mem_singleton_self _)
  rw [hreleased] at hbar
  exact absurd hbar (by decide)

end SensorForge.Faults
