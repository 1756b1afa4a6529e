import SensorForge.FlushBarrier

/-! The shutdown of a bridge with fault injection, beside the delay worker. The network
interface is closed and released before the fault engine is flushed. -/

namespace SensorForge.Faults

open Transition

variable {ω D : Type} [Double D] {W : World ω D} {rules : List (FaultRule D)}

/-- Where the thread of the bridge is: between two steps of `check_network_health`, or behind
a step of `shutdown`. -/
inductive Stage
  | running | resetting | closed | released | flushed | done
  deriving DecidableEq

/-- `networkInterface` tells whether the interface is open, while there is one; `handed` are
the calls of its `write`, with what it told at the time. Of the engine the history remains
when it is gone. -/
structure InjectingBridge (ω D : Type) [Double D] where
  faultEngine : FaultEngine ω D
  networkInterface : Option Bool := some true
  handed : List (Frame × Bool) := []
  stage : Stage := .running

inductive BridgeStep (D : Type)
  | engine (a : EngineAction D)
  | resetClose
  | resetOpen
  | shutdownClose
  | releaseInterface
  | resetEngine

/-- The worker runs beside every step of the bridge's thread; calls of `process` come from its
timers, and those of `flush` from `shutdown`. -/
def Stage.allows (stage : Stage) : EngineAction D → Bool
  | .workerPop _ | .workerEmit => stage ≠ .done
  | .process _ => stage = .running
  | .flush | .flushPop _ | .flushEmit | .flushReturn => stage = .released

def Stage.after (stage : Stage) : EngineAction D → Stage
  | .flushReturn => .flushed
  | _ => stage

/-- What the write callback of the engine passes on of its new frames. -/
def InjectingBridge.called (b : InjectingBridge ω D) (e : FaultEngine ω D) : InjectingBridge ω D :=
  { b with
    faultEngine := e
    handed := b.handed ++ b.networkInterface.elim [] fun isOpen =>
      (e.written.drop b.faultEngine.written.length).map fun w => (w.frame, isOpen) }

def InjectingBridge.next (W : World ω D) (b : InjectingBridge ω D) :
    BridgeStep D → Option (InjectingBridge ω D)
  | .engine a =>
    if b.stage.allows a then
      (b.faultEngine.next W a).map fun e => { b.called e with stage := b.stage.after a }
    else none
  | .resetClose =>
    if b.stage = .running then some { b with networkInterface := some false, stage := .resetting }
    else none
  | .resetOpen =>
    if b.stage = .resetting then some { b with networkInterface := some true, stage := .running }
    else none
  | .shutdownClose =>
    if b.stage = .running then some { b with networkInterface := some false, stage := .closed }
    else none
  | .releaseInterface =>
    if b.stage = .closed then some { b with networkInterface := none, stage := .released } else none
  | .resetEngine =>
    -- the destructor joins the worker
    if b.stage = .flushed ∧ b.faultEngine.workerHand = none then some { b with stage := .done }
    else none

def InjectingBridge.system (W : World ω D) (rules : List (FaultRule D)) :
    System (InjectingBridge ω D) (BridgeStep D) where
  start b := ∃ world, b = { faultEngine := { rules := rules, world := world } }
  next := InjectingBridge.next W

/-- The frames that wait for their time, in the queue or already in a hand. -/
def FaultEngine.inQueue (e : FaultEngine ω D) : Multiset Frame :=
  ↑(e.delayed.map Delayed.frame) + ↑e.workerHand.toList + ↑e.flushHand.toList

/-- The frames that were handed to the interface while it was open. -/
def InjectingBridge.sent (b : InjectingBridge ω D) : Multiset Frame :=
  ↑((b.handed.filter Prod.snd).map Prod.fst)

/-- From `s`, where `shutdown` is called, to `t`, where it has returned: each waiting frame is
handed to the open interface once, and every forwarded frame is handed to the interface. -/
structure SurvivesShutdown (s t : InjectingBridge ω D) : Prop where
  sent : t.sent = s.sent + s.faultEngine.inQueue
  forwarded : t.handed.map Prod.fst = t.faultEngine.written.map Written.frame

def BridgeStep.ofWorker : BridgeStep D → Bool
  | .engine (.workerPop _) | .engine .workerEmit => true
  | _ => false

def Stage.interface : Stage → Option Bool
  | .running => some true
  | .resetting | .closed => some false
  | .released | .flushed | .done => none

structure InjectingBridge.Inv (b : InjectingBridge ω D) : Prop where
  interface : b.networkInterface = b.stage.interface
  handed : b.networkInterface.isSome →
    b.handed.map Prod.fst = b.faultEngine.written.map Written.frame
  idle : b.stage ≠ .released → b.faultEngine.flushing = false ∧ b.faultEngine.flushHand = none

theorem frames_eq_inQueue (e : FaultEngine ω D) :
    e.frames = ↑e.held.toList + e.inQueue + ↑(e.written.map Written.frame) := by
  simp only [FaultEngine.frames, FaultEngine.waiting, FaultEngine.inQueue]
  abel

theorem InjectingBridge.Inv.present {b : InjectingBridge ω D} (hb : b.Inv)
    (h : b.stage.interface.isSome) :
    b.handed.map Prod.fst = b.faultEngine.written.map Written.frame :=
  hb.handed (hb.interface ▸ h)

/-- What a step of the threads moves from the queue to the callback. -/
theorem next_inQueue {e e' : FaultEngine ω D} {a : EngineAction D} (h : e.next W a = some e')
    (ha : ∀ c, a ≠ .process c) : ∃ ws, e'.written = e.written ++ ws ∧
      e'.inQueue + ↑(ws.map Written.frame) = e.inQueue := by
  have hcarries := next_carries h ha
  obtain ⟨ws, hws, _⟩ := hcarries.written
  refine ⟨ws, hws, ?_⟩
  have hheld : e'.held = e.held := by
    cases next_step h with
    | process c => exact absurd rfl (ha c)
    | _ => rfl
  have hframes := hcarries.frames
  rw [frames_eq_inQueue, frames_eq_inQueue, hheld, hws, List.map_append, ← Multiset.coe_add,
    zero_add] at hframes
  apply add_left_cancel (a := (↑e.held.toList + ↑(e.written.map Written.frame) : Multiset Frame))
  calc _ = ↑e.held.toList + e'.inQueue +
        (↑(e.written.map Written.frame) + ↑(ws.map Written.frame)) := by abel
    _ = ↑e.held.toList + e.inQueue + ↑(e.written.map Written.frame) := hframes
    _ = _ := by abel

section Steps

variable {b b' s t u : InjectingBridge ω D}

theorem called_of_written {e : FaultEngine ω D} {ws : List Written}
    (h : e.written = b.faultEngine.written ++ ws) :
    (b.called e).handed = b.handed ++
      b.networkInterface.elim [] fun isOpen => ws.map fun w => (w.frame, isOpen) := by
  rw [InjectingBridge.called, h, List.drop_left]

/-- What `next` does for a step of the engine. -/
theorem engine_next {a : EngineAction D} (h : b.next W (.engine a) = some b') :
    ∃ e ws, b.stage.allows a = true ∧ b.faultEngine.next W a = some e ∧
      e.written = b.faultEngine.written ++ ws ∧ b' =
        { faultEngine := e
          networkInterface := b.networkInterface
          handed := b.handed ++ b.networkInterface.elim [] fun isOpen =>
            ws.map fun w => (w.frame, isOpen)
          stage := b.stage.after a } := by
  simp only [InjectingBridge.next] at h
  split at h
  · next hallowed =>
    obtain ⟨e, he, rfl⟩ := Option.map_eq_some_iff.mp h
    have hwritten : ∃ ws, e.written = b.faultEngine.written ++ ws := by
      by_cases ha : ∃ c, a = .process c
      · obtain ⟨c, rfl⟩ := ha
        cases next_step he
        exact process_written _ c
      · obtain ⟨ws, hws, _⟩ := (next_carries he fun c hc => ha ⟨c, hc⟩).written
        exact ⟨ws, hws⟩
    obtain ⟨ws, hws⟩ := hwritten
    refine ⟨e, ws, hallowed, he, hws, ?_⟩
    rw [← called_of_written hws]
    rfl
  · cases h

/-- A step of the engine; its callback passes on every new frame while there is an interface. -/
theorem InjectingBridge.Inv.engine (hb : b.Inv) {a : EngineAction D}
    (h : b.next W (.engine a) = some b') : b'.Inv := by
  obtain ⟨e, ws, hallowed, he, hws, rfl⟩ := engine_next h
  constructor
  · rw [hb.interface]
    cases a with
    | flushReturn =>
      have hstage : b.stage = .released := by simpa [Stage.allows] using hallowed
      rw [hstage]
      rfl
    | _ => rfl
  · dsimp only
    intro hsome
    obtain ⟨isOpen, hopen⟩ := Option.isSome_iff_exists.mp hsome
    rw [List.map_append, hb.handed hsome, hopen, hws]
    simp
  · cases next_step he with
    | process c =>
      have hqueues := process_queues (W := W) b.faultEngine c
      dsimp only
      rw [hqueues.flushing, hqueues.flushHand]
      exact hb.idle
    | workerWait i d => exact hb.idle
    | workerPop i d => exact hb.idle
    | workerEmit f => exact hb.idle
    | flush | flushPop i d | flushEmit f =>
      have hreleased : b.stage = .released := by simpa [Stage.allows] using hallowed
      exact fun hstage => absurd hreleased hstage
    | flushReturn hf hfree => exact fun _ => ⟨rfl, hfree⟩

/-- The thread goes on to another stage while there is an interface. -/
theorem InjectingBridge.Inv.moved (hb : b.Inv) (h : b.stage.interface.isSome) (stage : Stage) :
    ({ b with networkInterface := stage.interface, stage := stage } : InjectingBridge ω D).Inv := by
  refine ⟨rfl, fun _ => hb.present h, fun _ => hb.idle fun hreleased => ?_⟩
  rw [hreleased] at h
  cases h

theorem InjectingBridge.Inv.next (hb : b.Inv) {a : BridgeStep D} (h : b.next W a = some b') :
    b'.Inv := by
  cases a with
  | engine a => exact hb.engine h
  | resetClose =>
    obtain ⟨hstage, h⟩ := Option.ite_none_right_eq_some.mp h
    cases h
    exact hb.moved (hstage ▸ rfl) .resetting
  | resetOpen =>
    obtain ⟨hstage, h⟩ := Option.ite_none_right_eq_some.mp h
    cases h
    exact hb.moved (hstage ▸ rfl) .running
  | shutdownClose =>
    obtain ⟨hstage, h⟩ := Option.ite_none_right_eq_some.mp h
    cases h
    exact hb.moved (hstage ▸ rfl) .closed
  | releaseInterface =>
    obtain ⟨hstage, h⟩ := Option.ite_none_right_eq_some.mp h
    cases h
    exact hb.moved (hstage ▸ rfl) .released
  | resetEngine =>
    obtain ⟨hstage, h⟩ := Option.ite_none_right_eq_some.mp h
    cases h
    have hgone : b.networkInterface = none := by
      rw [hb.interface, hstage.1]
      rfl
    refine ⟨hgone, fun hsome => ?_, fun _ => hb.idle (by simp [hstage.1])⟩
    rw [hgone] at hsome
    cases hsome

theorem reachable_inv (h : (InjectingBridge.system W rules).Reachable anyStep b) : b.Inv := by
  apply h.invariant
  · rintro b ⟨world, rfl⟩
    exact ⟨rfl, fun _ => rfl, fun _ => ⟨rfl, rfl⟩⟩
  · intro b a b' hb _ hn
    exact hb.next hn

theorem sent_append (b : InjectingBridge ω D) (ws : List Written) (isOpen : Bool) :
    ({ b with
        handed := b.handed ++ ws.map fun w => (w.frame, isOpen) } : InjectingBridge ω D).sent =
      b.sent + if isOpen then ↑(ws.map Written.frame) else 0 := by
  cases isOpen
  · simp [InjectingBridge.sent, List.filter_map, Function.comp_def]
  · simp [InjectingBridge.sent, List.filter_map, Function.comp_def]

/-- While the interface is open, what leaves the queue is sent. -/
theorem worker_sends (hb : b.Inv) (hstage : b.stage = .running) {a : BridgeStep D}
    (ha : a.ofWorker = true) (h : b.next W a = some b') :
    b'.stage = .running ∧ b'.sent + b'.faultEngine.inQueue = b.sent + b.faultEngine.inQueue := by
  have hopen : b.networkInterface = some true := by
    rw [hb.interface, hstage]
    rfl
  obtain ⟨c, rfl, hthread, hafter⟩ : ∃ c, a = .engine c ∧ (∀ p, c ≠ .process p) ∧
      b.stage.after c = b.stage := by
    cases a with
    | engine c =>
      cases c with
      | workerPop i => exact ⟨.workerPop i, rfl, by simp, rfl⟩
      | workerEmit => exact ⟨.workerEmit, rfl, by simp, rfl⟩
      | _ => cases ha
    | _ => cases ha
  obtain ⟨e, ws, _, he, hws, rfl⟩ := engine_next h
  obtain ⟨ws', hws', hmoved⟩ := next_inQueue he hthread
  obtain rfl : ws' = ws := List.append_cancel_left (hws'.symm.trans hws)
  refine ⟨hafter.trans hstage, ?_⟩
  rw [hopen]
  have hsent := sent_append b ws' true
  calc _ = b.sent + ↑(ws'.map Written.frame) + e.inQueue := congrArg (· + e.inQueue) hsent
    _ = b.sent + (e.inQueue + ↑(ws'.map Written.frame)) := by abel
    _ = _ := by rw [hmoved]

def Stage.closing : Stage → Prop
  | .running | .resetting => False
  | _ => True

theorem Stage.closing.interface {stage : Stage} (h : stage.closing) :
    stage.interface = none ∨ stage.interface = some false := by
  cases stage with
  | running => exact absurd h id
  | resetting => exact absurd h id
  | closed => exact .inr rfl
  | _ => exact .inl rfl

omit [Double D] in
theorem Stage.closing.after {stage : Stage} (h : stage.closing) (a : EngineAction D) :
    (stage.after a).closing := by
  cases a with
  | flushReturn => exact trivial
  | _ => exact h

/-- What the engine emits behind the close is not sent, and nothing comes in any more. -/
theorem closing_engine (hb : b.Inv) (hstage : b.stage.closing) {a : EngineAction D}
    (h : b.next W (.engine a) = some b') : b'.stage.closing ∧ b'.sent = b.sent ∧
      (b.faultEngine.inQueue = 0 → b'.faultEngine.inQueue = 0 ∧
        b'.faultEngine.written = b.faultEngine.written ∧ b'.handed = b.handed) := by
  obtain ⟨e, ws, hallowed, he, hws, rfl⟩ := engine_next h
  have hthread : ∀ c, a ≠ .process c := by
    rintro c rfl
    have hrunning : b.stage = .running := by simpa [Stage.allows] using hallowed
    rw [hrunning] at hstage
    exact hstage
  refine ⟨hstage.after a, ?_, fun hempty => ?_⟩
  · have hclosed := hstage.interface
    rw [← hb.interface] at hclosed
    rcases hclosed with hnone | hfalse
    · simp [InjectingBridge.sent, hnone]
    · rw [hfalse]
      exact (sent_append b ws false).trans (add_zero _)
  · obtain ⟨ws', hws', hmoved⟩ := next_inQueue he hthread
    obtain rfl : ws' = ws := List.append_cancel_left (hws'.symm.trans hws)
    rw [hempty, add_eq_zero] at hmoved
    obtain rfl : ws' = [] := by simpa using hmoved.2
    refine ⟨hmoved.1, by simpa using hws, ?_⟩
    cases b.networkInterface <;> simp

/-- Once `shutdown` has closed the interface nothing more is sent. -/
theorem closing_next (hb : b.Inv) (hstage : b.stage.closing) {a : BridgeStep D}
    (h : b.next W a = some b') : b'.stage.closing ∧ b'.sent = b.sent ∧
      (b.faultEngine.inQueue = 0 → b'.faultEngine.inQueue = 0 ∧
        b'.faultEngine.written = b.faultEngine.written ∧ b'.handed = b.handed) := by
  cases a with
  | engine a => exact closing_engine hb hstage h
  | resetClose | resetOpen | shutdownClose =>
    obtain ⟨hbefore, _⟩ := Option.ite_none_right_eq_some.mp h
    rw [hbefore] at hstage
    cases hstage
  | releaseInterface | resetEngine =>
    obtain ⟨_, h⟩ := Option.ite_none_right_eq_some.mp h
    cases h
    exact ⟨trivial, rfl, fun hempty => ⟨hempty, rfl, rfl⟩⟩

theorem worker_run {as : List (BridgeStep D)} (hb : b.Inv) (hstage : b.stage = .running)
    (has : ∀ a ∈ as, a.ofWorker = true)
    (h : (InjectingBridge.system W rules).run anyStep b as = some b') :
    b'.Inv ∧ b'.stage = .running ∧
      b'.sent + b'.faultEngine.inQueue = b.sent + b.faultEngine.inQueue := by
  induction as generalizing b with
  | nil =>
    cases h
    exact ⟨hb, hstage, rfl⟩
  | cons a as ih =>
    obtain ⟨u, _, hu, h⟩ := System.run_cons.mp h
    obtain ⟨hrunning, hsent⟩ := worker_sends hb hstage (has a (by simp)) hu
    obtain ⟨hinv, hstage', hsent'⟩ := ih (hb.next hu) hrunning (fun c hc => has c (by simp [hc])) h
    exact ⟨hinv, hstage', hsent'.trans hsent⟩

theorem closing_run {as : List (BridgeStep D)} (hb : b.Inv) (hstage : b.stage.closing)
    (h : (InjectingBridge.system W rules).run anyStep b as = some b') :
    b'.sent = b.sent ∧ (b.faultEngine.inQueue = 0 →
      b'.faultEngine.written = b.faultEngine.written ∧ b'.handed = b.handed) := by
  induction as generalizing b with
  | nil =>
    cases h
    exact ⟨rfl, fun _ => ⟨rfl, rfl⟩⟩
  | cons a as ih =>
    obtain ⟨u, _, hu, h⟩ := System.run_cons.mp h
    obtain ⟨hclosing, hsent, hquiet⟩ := closing_next hb hstage hu
    obtain ⟨hsent', hquiet'⟩ := ih (hb.next hu) hclosing h
    refine ⟨hsent'.trans hsent, fun hempty => ?_⟩
    obtain ⟨hempty', hwritten, hhanded⟩ := hquiet hempty
    obtain ⟨hwritten', hhanded'⟩ := hquiet' hempty'
    exact ⟨hwritten'.trans hwritten, hhanded'.trans hhanded⟩

theorem inQueue_eq_zero (hb : b.Inv) (hstage : b.stage = .running) : b.faultEngine.inQueue = 0 ↔
    b.faultEngine.delayed = [] ∧ b.faultEngine.workerHand = none := by
  have hflush : b.faultEngine.flushHand = none := (hb.idle (by simp [hstage])).2
  simp [FaultEngine.inQueue, hflush]

/-- What waits when `shutdown` is called, in `s`, reaches the open interface if and only if
nothing waits any more when the interface is closed, in `u`. Whatever comes after that, up to
the end of `shutdown`, makes no difference. -/
theorem survives_shutdown_iff (hs : (InjectingBridge.system W rules).Reachable anyStep s)
    (hstage : s.stage = .running) {before after : List (BridgeStep D)}
    (hworker : ∀ a ∈ before, a.ofWorker = true)
    (hu : (InjectingBridge.system W rules).run anyStep s before = some u)
    (ht : (InjectingBridge.system W rules).run anyStep u (.shutdownClose :: after) = some t) :
    SurvivesShutdown s t ↔
      u.faultEngine.delayed = [] ∧ u.faultEngine.workerHand = none := by
  obtain ⟨hinv, hrunning, hsent⟩ := worker_run (reachable_inv hs) hstage hworker hu
  obtain ⟨v, _, hv, ht⟩ := System.run_cons.mp ht
  have hclose : u.next W .shutdownClose = some v := hv
  obtain ⟨_, hv⟩ := Option.ite_none_right_eq_some.mp hclose
  cases hv
  obtain ⟨hsent', hquiet⟩ := closing_run (hinv.next hclose) trivial ht
  have htsent : t.sent = u.sent := hsent'
  rw [← inQueue_eq_zero hinv hrunning]
  constructor
  · intro hsurvives
    have hsame : u.sent + u.faultEngine.inQueue = u.sent + 0 := by
      rw [hsent, ← hsurvives.sent, htsent, add_zero]
    exact add_left_cancel hsame
  · intro hempty
    obtain ⟨hwritten, hhanded⟩ := hquiet hempty
    have hpresent := hinv.present (hrunning ▸ rfl)
    constructor
    · rw [htsent, ← hsent, hempty, add_zero]
    · rw [hhanded, hwritten]
      exact hpresent

/-- The drain of `flush`, as steps of the bridge. -/
theorem drain_run {as : List (EngineAction D)}
    (has : ∀ a ∈ as, a.ofFlush = true ∧ a ≠ .flushReturn) (hstage : b.stage = .released)
    {e : FaultEngine ω D} (h : (Faults.system W rules).run anyStep b.faultEngine as = some e) :
    ∃ b', (InjectingBridge.system W rules).run anyStep b (as.map .engine) = some b' ∧
      b'.faultEngine = e ∧ b'.stage = .released := by
  induction as generalizing b with
  | nil =>
    cases h
    exact ⟨b, rfl, rfl, hstage⟩
  | cons a as ih =>
    obtain ⟨e₁, _, he, h⟩ := System.run_cons.mp h
    obtain ⟨hflush, hreturn⟩ := has a (by simp)
    have hallowed : b.stage.allows a = true ∧ b.stage.after a = .released := by
      rw [hstage]
      cases a with
      | flush => exact ⟨rfl, rfl⟩
      | flushPop i => exact ⟨rfl, rfl⟩
      | flushEmit => exact ⟨rfl, rfl⟩
      | flushReturn => exact absurd rfl hreturn
      | _ => cases hflush
    have hnext : b.next W (.engine a) =
        some { b.called e₁ with stage := b.stage.after a } := by
      have he' : b.faultEngine.next W a = some e₁ := he
      rw [InjectingBridge.next, if_pos hallowed.1, he']
      rfl
    obtain ⟨b', hrun, hengine, hreleased⟩ :=
      ih (b := { b.called e₁ with stage := b.stage.after a }) (fun c hc => has c (by simp [hc]))
        hallowed.2 h
    exact ⟨b', System.run_cons.mpr ⟨_, trivial, hnext, hrun⟩, hengine, hreleased⟩

/-- Behind `flush` the worker emits what it has in hand, and the destructor joins it. -/
theorem flushed_returns (hstage : b.stage = .flushed) : ∃ after t,
    (InjectingBridge.system W rules).run anyStep b after = some t ∧ t.stage = .done := by
  by_cases hidle : b.faultEngine.workerHand = none
  · refine ⟨[.resetEngine], { b with stage := .done }, ?_, rfl⟩
    exact System.run_cons.mpr ⟨_, trivial, if_pos ⟨hstage, hidle⟩, rfl⟩
  · obtain ⟨f, hf⟩ := Option.ne_none_iff_exists'.mp hidle
    have hemit : b.next W (.engine .workerEmit) = some
        { b.called ({ b.faultEngine with workerHand := none }.emit W f) with
          stage := .flushed } := by
      rw [InjectingBridge.next, if_pos (by simp [hstage, Stage.allows]), FaultEngine.next, hf,
        hstage]
      rfl
    refine ⟨[.engine .workerEmit, .resetEngine],
      { b.called ({ b.faultEngine with workerHand := none }.emit W f) with stage := .done },
      ?_, rfl⟩
    refine System.run_cons.mpr ⟨_, trivial, hemit, ?_⟩
    exact System.run_cons.mpr ⟨_, trivial, rfl, rfl⟩

/-- Every shutdown can come to its end. -/
theorem shutdown_returns [IsStrictOrder D (· < ·)] (hb : b.Inv) (hstage : b.stage = .running) :
    ∃ after t, (InjectingBridge.system W rules).run anyStep b (.shutdownClose :: after) = some t ∧
      t.stage = .done := by
  obtain ⟨hflushing, hhand⟩ := hb.idle (by simp [hstage])
  obtain ⟨is, e', hflush⟩ : ∃ (is : List Nat) (e' : FaultEngine ω D),
      (Faults.system W rules).run anyStep b.faultEngine (flushActions is) = some e' :=
    flush_returns hflushing hhand
  obtain ⟨e, hdrain, hreturn⟩ := System.run_append.mp hflush
  obtain ⟨v, _, hv, hreturn⟩ := System.run_cons.mp hreturn
  cases hreturn
  have hsteps : ∀ a ∈ (.flush :: is.flatMap (fun i => [.flushPop i, .flushEmit]) :
      List (EngineAction D)), a.ofFlush = true ∧ a ≠ .flushReturn := by
    intro a ha
    simp only [List.mem_cons, List.mem_flatMap, List.not_mem_nil, or_false] at ha
    rcases ha with rfl | ⟨i, _, rfl | rfl⟩ <;> exact ⟨rfl, by simp⟩
  obtain ⟨c, hc, rfl, hcstage⟩ := drain_run (b := { b with
    networkInterface := none, stage := .released }) hsteps rfl hdrain
  have hreturned : c.next W (.engine .flushReturn) =
      some { c.called e' with stage := .flushed } := by
    have hv' : c.faultEngine.next W .flushReturn = some e' := hv
    rw [InjectingBridge.next, if_pos (by simp [hcstage, Stage.allows]), hv']
    rfl
  obtain ⟨after, t, ht, hdone⟩ : ∃ after t, (InjectingBridge.system W rules).run anyStep
      { c.called e' with stage := .flushed } after = some t ∧ t.stage = .done :=
    flushed_returns rfl
  refine ⟨.releaseInterface :: ((.flush :: is.flatMap (fun i => [.flushPop i, .flushEmit])).map
    .engine ++ .engine .flushReturn :: after), t, ?_, hdone⟩
  refine System.run_cons.mpr ⟨_, trivial, if_pos hstage, ?_⟩
  refine System.run_cons.mpr ⟨_, trivial, rfl, ?_⟩
  exact System.run_append.mpr ⟨c, hc, System.run_cons.mpr ⟨_, trivial, hreturned, ht⟩⟩

end Steps

abbrev ScriptedBridge := InjectingBridge (List Int64 × List Int) Int64

/-- The bridge with one delayed frame. -/
def bridgeDelaying : ScriptedBridge where
  faultEngine := FaultEngine.process scriptedWorld
    { rules := [delayRule], world := ([0, 5000000], []) } delayCall

theorem bridgeDelaying_reachable :
    (InjectingBridge.system scriptedWorld [delayRule]).Reachable anyStep bridgeDelaying :=
  .step (a := .engine (.process delayCall)) (.start ⟨([0, 5000000], []), rfl⟩) trivial rfl

/-- The worker emits the frame before the interface is closed. -/
theorem survives_shutdown_emitted : ∃ t : ScriptedBridge,
    bridgeDelaying.faultEngine.inQueue.card = 1 ∧ SurvivesShutdown bridgeDelaying t := by
  obtain ⟨u, t, hu, ht, hempty⟩ : ∃ u t : ScriptedBridge,
      (InjectingBridge.system scriptedWorld [delayRule]).run anyStep bridgeDelaying
        [.engine (.workerPop 0), .engine .workerEmit] = some u ∧
      (InjectingBridge.system scriptedWorld [delayRule]).run anyStep u
        [.shutdownClose, .releaseInterface, .engine .flush, .engine .flushReturn, .resetEngine] =
          some t ∧ u.faultEngine.delayed = [] ∧ u.faultEngine.workerHand = none :=
    ⟨_, _, rfl, rfl, rfl, rfl⟩
  exact ⟨t, rfl, (survives_shutdown_iff bridgeDelaying_reachable rfl (by decide) hu ht).mpr hempty⟩

/-- The frame that `flush` emits finds no interface any more. -/
theorem shutdown_loses : ¬∀ (rules : List (FaultRule Int64)) (s t : ScriptedBridge)
    (after : List (BridgeStep Int64)),
    (InjectingBridge.system scriptedWorld rules).Reachable anyStep s → s.stage = .running →
      (InjectingBridge.system scriptedWorld rules).run anyStep s (.shutdownClose :: after) = some t →
        t.stage = .done → SurvivesShutdown s t := by
  intro h
  obtain ⟨t, ht, hdone, hhanded, hwritten⟩ : ∃ t : ScriptedBridge,
      (InjectingBridge.system scriptedWorld [delayRule]).run anyStep bridgeDelaying
        (.shutdownClose :: [.releaseInterface, .engine .flush, .engine (.flushPop 0),
          .engine .flushEmit, .engine .flushReturn, .resetEngine]) = some t ∧ t.stage = .done ∧
        t.handed = [] ∧ t.faultEngine.written.length = 1 :=
    ⟨_, rfl, rfl, rfl, rfl⟩
  have hsurvives := h [delayRule] bridgeDelaying t _ bridgeDelaying_reachable rfl ht hdone
  have hlength := congrArg List.length hsurvives.forwarded
  rw [hhanded, List.length_map, List.length_map, hwritten] at hlength
  cases hlength

end SensorForge.Faults
