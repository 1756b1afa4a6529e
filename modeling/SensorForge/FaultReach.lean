import SensorForge.StreamFaults

/-! Which messages a declared fault reaches: those of a stream that it names in full and
that arrives on a subscription. A fault of every stream has no engine, and the reader of
the CAN bus records past the engines. -/

namespace SensorForge.Scenarios

open Faults Transition
open Double (ofInt)

variable {ω D : Type} [DoubleBytes D] {W : World ω D} {sc : Scenario D}

/-- The stream of a message that arrives, and the clock when it does. -/
def RunnerAction.arrival : RunnerAction D → Option (String × Int)
  | .message stream a => some (stream, a.arrivalNow)
  | .canFrame _ _ now => some ("can", now)
  | _ => none

/-- The engine of the stream holds the rule and has processed a payload on the way from
`r` to `r'`. -/
def PassesThrough (W : World ω D) (r r' : ScenarioRunner ω D) (stream : String) (tS : D)
    (rule : FaultRule D) : Prop :=
  ∃ g g' data, r.streamFaults stream = some g ∧ rule ∈ g.engine.rules ∧
    r'.streamFaults stream = some g' ∧
    g'.engine = g.engine.process W { data := data, tS := tS, stream := stream }

/-- The runs that go on from `r`. -/
def onwards (W : World ω D) (r : ScenarioRunner ω D) :
    System (ScenarioRunner ω D) (RunnerAction D) where
  start r' := r' = r
  next := ScenarioRunner.next W

/-- Nothing is recorded on the way from `r` to `r'`, nor from this call of the engine
whatever happens later. -/
def Uncounted (W : World ω D) (r r' : ScenarioRunner ω D) (stream : String) : Prop :=
  r'.metrics = r.metrics ∧
    ∀ u, (onwards W r').Reachable anyStep u → ∀ g gu, r.streamFaults stream = some g →
      u.streamFaults stream = some gu →
        ∀ w ∈ gu.engine.written, w.frame.call ≠ g.engine.calls.length

/-- In a run of the scenario a message of the stream `s` arrives, with the step from `r`
to `r'`, in the window of a fault that matches the stream. -/
structure ArrivesInWindow (W : World ω D) (sc : Scenario D) (f : FaultSpec D) (s : StreamConfig D)
    (now : Int) (r r' : ScenarioRunner ω D) : Prop where
  reachable : (system W sc).Reachable anyStep r
  fault : f ∈ sc.faults
  stream : s ∈ sc.streams
  matched : (toFaultRule f).matchesStream s.name = true
  active : (toFaultRule f).activeAt (seconds (now - r.startTime)) = true
  arrives : ∃ a, a.arrival = some (s.name, now) ∧ r.next W a = some r'

/-- No frame of the engine comes from call `k`, and none will. -/
def Without (k : Nat) (e : FaultEngine ω D) : Prop :=
  k < e.calls.length ∧ ∀ f ∈ e.frames, f.call ≠ k

theorem Without.process {k : Nat} {e : FaultEngine ω D} (h : Without k e) (c : ProcessCall D) :
    Without k (e.process W c) := by
  obtain ⟨hk, hframes⟩ := h
  refine ⟨?_, ?_⟩
  · rw [process_calls, List.length_append]
    omega
  · intro f hf
    rcases process_cases (W := W) e c with h | ⟨_, n, f', hf', h⟩
    · rw [h.frames, zero_add] at hf
      exact hframes f hf
    · rw [h.frames, Multiset.mem_add] at hf
      rcases hf with hf | hf
      · rw [Multiset.eq_of_mem_replicate hf, hf'.call]
        exact (Nat.ne_of_lt hk).symm
      · exact hframes f hf

theorem Without.next {k : Nat} {e e' : FaultEngine ω D} {b : EngineAction D} (h : Without k e)
    (hb : ∀ c, b ≠ .process c) (hn : e.next W b = some e') : Without k e' := by
  have hcarries := next_carries hn hb
  refine ⟨hcarries.calls ▸ h.1, fun f hf => ?_⟩
  rw [hcarries.frames, zero_add] at hf
  exact h.2 f hf

theorem Without.onwards {k : Nat} {r u : ScenarioRunner ω D} {stream : String}
    (hu : (onwards W r).Reachable anyStep u)
    (h : ∀ g, r.streamFaults stream = some g → Without k g.engine) :
    ∀ g, u.streamFaults stream = some g → Without k g.engine := by
  refine hu.invariant (P := fun u => ∀ g, u.streamFaults stream = some g → Without k g.engine) ?_ ?_
  · rintro s rfl
    exact h
  · intro s a t hs _ hn
    exact next_engine (fun e c he => he.process c) (fun e e' b he hb hn => he.next hb hn) hn hs

theorem FaultEngine.FromCalls.fresh {e : FaultEngine ω D} (h : e.FromCalls) :
    ∀ f ∈ e.frames, f.call ≠ e.calls.length := by
  intro f hf
  obtain ⟨c, hc⟩ := h f hf
  obtain ⟨hlt, _⟩ := List.getElem?_eq_some_iff.mp hc.call
  exact Nat.ne_of_lt hlt

theorem mem_rulesFor {f : FaultSpec D} {stream : String} :
    toFaultRule f ∈ rulesFor sc stream → f.stream = stream := by
  intro h
  obtain ⟨f', hf', heq⟩ := List.mem_map.mp h
  have hs : f'.stream = stream := by simpa using (List.mem_filter.mp hf').2
  exact (congrArg FaultRule.stream heq).symm.trans hs

theorem rulesFor_mem {f : FaultSpec D} (hf : f ∈ sc.faults) :
    toFaultRule f ∈ rulesFor sc f.stream :=
  List.mem_map.mpr ⟨f, List.mem_filter.mpr ⟨hf, by simp⟩, rfl⟩

theorem record_of_engine {r : ScenarioRunner ω D} {stream : String} {g : StreamFault ω D}
    (hg : r.streamFaults stream = some g) (a : Arrival) :
    r.record W stream a = r.deliver stream g { g with
      engine := g.engine.process W (a.call r.startTime stream), arrivals := g.arrivals ++ [a] } := by
  unfold ScenarioRunner.record
  rw [hg]

theorem passesThrough_stream {r r' : ScenarioRunner ω D} (hr : r.Fits sc sc.streams)
    {f : FaultSpec D} {stream : String} {a : RunnerAction D} {now : Int} {tS : D}
    (harr : a.arrival = some (stream, now)) (hstep : r.next W a = some r')
    (h : PassesThrough W r r' stream tS (toFaultRule f)) : f.stream = stream ∧ stream ≠ "can" := by
  obtain ⟨g, g', data, hg, hrule, hg', heq⟩ := h
  refine ⟨mem_rulesFor ((hr.fits stream g hg).rules ▸ hrule), ?_⟩
  cases a with
  | message other a =>
    cases harr
    simp only [ScenarioRunner.next] at hstep
    split at hstep
    · next hsub =>
      rintro rfl
      exact absurd (hr.subs _ hsub) (by decide)
    · cases hstep
  | canFrame cf nowUs t =>
    -- the reader leaves the engines alone
    obtain ⟨c, _, rfl⟩ := Option.map_eq_some_iff.mp hstep
    have hsame : g' = g := Option.some.inj (hg'.symm.trans hg)
    have hcalls := congrArg (fun e => e.calls.length) heq
    rw [hsame, process_calls, List.length_append, List.length_singleton] at hcalls
    omega
  | engine other b => cases harr
  | stopCanReader => cases harr

theorem suppressed_of_active {e : FaultEngine ω D} {f : FaultSpec D} {tS : D} {stream : String}
    (hrule : toFaultRule f ∈ e.rules) (hmatch : (toFaultRule f).matchesStream stream = true)
    (hactive : (toFaultRule f).activeAt tS = true)
    (hkind : f.type = .kBurstLoss ∨ f.type = .kEcuDisconnect) :
    suppressed (e.active tS stream) = true := by
  rw [suppressed, List.any_eq_true]
  refine ⟨toFaultRule f, ?_, ?_⟩
  · exact List.mem_filter.mpr ⟨hrule, by rw [hmatch, hactive]; rfl⟩
  · have hk := (faultKind_eq_iff f.type).mpr hkind.symm
    rw [Bool.or_eq_true, decide_eq_true_iff, decide_eq_true_iff]
    exact hk

/-- A message that its engine suppresses is not counted, then or later. -/
theorem uncounted_of_suppressed {r : ScenarioRunner ω D} (hr : r.Fits sc sc.streams)
    {stream : String} {g : StreamFault ω D} (hg : r.streamFaults stream = some g) (a : Arrival)
    (hsup : suppressed (g.engine.active (a.call r.startTime stream).tS stream) = true) :
    Uncounted W r (r.record W stream a) stream := by
  obtain ⟨window, restarts, hdrop⟩ := process_suppressed (W := W)
    (c := a.call r.startTime stream) hsup
  rw [record_of_engine hg, hdrop]
  refine ⟨?_, ?_⟩
  · simp only [ScenarioRunner.deliver, FaultEngine.drop, List.drop_length, List.foldl_nil]
    exact List.modify_id ..
  · intro u hu g₀ gu hg₀ hgu w hw
    cases hg.symm.trans hg₀
    have hwithout : Without g.engine.calls.length gu.engine := Without.onwards hu ?_ gu hgu
    · exact hwithout.2 w.frame (Multiset.mem_add.mpr (.inr (List.mem_map_of_mem hw)))
    · intro g' hg'
      simp only [ScenarioRunner.deliver, Function.update_self, Option.some.injEq] at hg'
      subst hg'
      refine ⟨?_, FaultEngine.FromCalls.fresh (hr.fits stream g hg).fromCalls⟩
      change g.engine.calls.length < (g.engine.calls ++ [a.call r.startTime stream]).length
      simp

/-- A message that arrives in the window of a fault passes through an engine that holds
the fault's rule, and is not counted if the fault suppresses the stream, exactly when the
fault names the stream in full and the stream is not the CAN bus. -/
theorem fault_reaches_iff {f : FaultSpec D} {s : StreamConfig D} {now : Int}
    {r r' : ScenarioRunner ω D} (h : ArrivesInWindow W sc f s now r r') :
    (PassesThrough W r r' s.name (seconds (now - r.startTime)) (toFaultRule f) ∧
      (f.type = .kBurstLoss ∨ f.type = .kEcuDisconnect → Uncounted W r r' s.name)) ↔
      f.stream = s.name ∧ s.name ≠ "can" := by
  have hr := reachable_fits h.reachable
  obtain ⟨a, harr, hstep⟩ := h.arrives
  constructor
  · rintro ⟨hpass, _⟩
    exact passesThrough_stream hr harr hstep hpass
  · rintro ⟨hstream, hcan⟩
    obtain ⟨g, hg⟩ := hr.engines s h.stream ⟨f, h.fault, hstream⟩
    have hrule : toFaultRule f ∈ g.engine.rules := by
      rw [(hr.fits _ g hg).rules, ← hstream]
      exact rulesFor_mem h.fault
    cases a with
    | message stream arr =>
      cases harr
      simp only [ScenarioRunner.next] at hstep
      split at hstep <;> cases hstep
      refine ⟨⟨g, { g with
          engine := g.engine.process W (arr.call r.startTime s.name)
          arrivals := g.arrivals ++ [arr] }, _, hg, hrule, ?_, rfl⟩, fun hkind => ?_⟩
      · rw [record_of_engine hg]
        exact Function.update_self ..
      · exact uncounted_of_suppressed hr hg arr
          (suppressed_of_active hrule h.matched h.active hkind)
    | canFrame cf nowUs t =>
      exact absurd (Prod.mk.inj (Option.some.inj harr)).1.symm hcan
    | engine other b => cases harr
    | stopCanReader => cases harr

def burst (stream : String) : FaultSpec Int64 where
  stream := stream
  startSeconds := 6
  durationSeconds := 2
  type := faultTypeFromString "burst"
  params := [("burst_ms", 2000)]

/-- `reference_02.yaml`, with its burst on `stream`. -/
def canDropoutRecovery (stream : String) : Scenario Int64 where
  name := "can_dropout_recovery"
  durationSeconds := 20
  streams := [⟨"imu", 200⟩, ⟨"gps", 20⟩, ⟨"can", 100⟩]
  faults := [burst stream]
  assertions := [⟨"can_drop_rate_pct", compareOpFromString "greater_than", 0, none⟩,
    ⟨"imu_drop_rate_pct", compareOpFromString "less_than", 1, none⟩,
    ⟨"gps_sequence_gaps", compareOpFromString "equals", 0, none⟩]

theorem canDropoutRecovery_checked (stream : String) : (canDropoutRecovery stream).Checked where
  duration := (by decide : ¬ (20 : Int64) ≤ 0)
  rates := by
    intro s hs
    fin_cases hs <;> decide
  types := by
    intro f hf
    rw [List.mem_singleton.mp hf]
    exact (by decide : faultTypeFromString "burst" ≠ .kUnknown)
  assertions := by
    intro a ha
    fin_cases ha <;> decide

def imuAtSeven : RunnerAction Int64 :=
  .message "imu" { stamp := 6000000000, arrivalNow := 7000000000, latencyNow := 7000000000 }

def canAtSeven : RunnerAction Int64 :=
  .canFrame { data := Vector.replicate 8 0 } 0 7000000000

/-- The first arrival after the start, at seven seconds, and the received counts before
and after it. -/
theorem first_arrival {stream : String} {s : StreamConfig Int64} {a : RunnerAction Int64}
    (harr : a.arrival = some (s.name, 7000000000)) (before after : List Nat)
    (h : ((ScenarioRunner.start (canDropoutRecovery stream) 0 fun _ => ([], [])).bind fun r =>
      (r.next scriptedWorld a).map fun r' => (r.startTime, r.metrics.map StreamMetrics.received,
        r'.metrics.map StreamMetrics.received)) = some (0, before, after))
    (hs : s ∈ (canDropoutRecovery stream).streams) (hname : stream = s.name) :
    ∃ r r', ArrivesInWindow scriptedWorld (canDropoutRecovery stream) (burst stream) s 7000000000
        r r' ∧ r.startTime = 0 ∧ r.metrics.map StreamMetrics.received = before ∧
          r'.metrics.map StreamMetrics.received = after := by
  obtain ⟨r, hstart, h⟩ := Option.bind_eq_some_iff.mp h
  obtain ⟨r', hnext, h⟩ := Option.map_eq_some_iff.mp h
  obtain ⟨htime, hbefore, hafter⟩ : r.startTime = 0 ∧ _ ∧ _ := by simpa using h
  refine ⟨r, r', ⟨.start ⟨0, _, hstart⟩, List.mem_singleton_self _, hs, ?_, ?_, a, harr, hnext⟩,
    htime, hbefore, hafter⟩
  · simp [toFaultRule, burst, FaultRule.matchesStream, hname]
  · rw [htime]
    exact (by decide : (toFaultRule (burst "can")).activeAt (seconds (7000000000 - 0)) = true)

theorem fault_reaches_imu :
    ∃ r r' : ScenarioRunner (List Int64 × List Int) Int64,
      PassesThrough scriptedWorld r r' "imu" 7 (toFaultRule (burst "imu")) ∧
        Uncounted scriptedWorld r r' "imu" := by
  have harr : imuAtSeven.arrival = some ("imu", 7000000000) := rfl
  obtain ⟨r, r', hwindow, htime, _, _⟩ := first_arrival (s := ⟨"imu", 200⟩) harr [0, 0, 0]
    [0, 0, 0] (by decide +kernel) (by simp [canDropoutRecovery]) rfl
  obtain ⟨hpass, huncounted⟩ := (fault_reaches_iff hwindow).mpr ⟨rfl, by decide⟩
  rw [htime] at hpass
  exact ⟨r, r', hpass, huncounted (.inl (by decide))⟩

/-- The burst of the reference scenario: the CAN frame at seven seconds goes past every
engine, and it is counted. -/
theorem can_burst_missed :
    (¬ ∀ (sc : Scenario Int64) (f : FaultSpec Int64) (s : StreamConfig Int64) (now : Int)
        (r r' : ScenarioRunner (List Int64 × List Int) Int64), sc.Checked →
        ArrivesInWindow scriptedWorld sc f s now r r' →
        PassesThrough scriptedWorld r r' s.name (seconds (now - r.startTime)) (toFaultRule f)) ∧
      ¬ ∀ (sc : Scenario Int64) (f : FaultSpec Int64) (s : StreamConfig Int64) (now : Int)
        (r r' : ScenarioRunner (List Int64 × List Int) Int64), sc.Checked →
        ArrivesInWindow scriptedWorld sc f s now r r' →
        f.type = .kBurstLoss ∨ f.type = .kEcuDisconnect → Uncounted scriptedWorld r r' s.name := by
  have harr : canAtSeven.arrival = some ("can", 7000000000) := rfl
  obtain ⟨r, r', hwindow, _, hbefore, hafter⟩ := first_arrival (s := ⟨"can", 100⟩) harr [0, 0, 0]
    [0, 0, 1] (by decide +kernel) (by simp [canDropoutRecovery]) rfl
  have hchecked := canDropoutRecovery_checked "can"
  constructor
  · intro h
    have hpass := h _ _ _ _ r r' hchecked hwindow
    obtain ⟨a, harr, hnext⟩ := hwindow.arrives
    exact (passesThrough_stream (reachable_fits hwindow.reachable) harr hnext hpass).2 rfl
  · intro h
    have huncounted := h _ _ _ _ r r' hchecked hwindow (.inl (by decide))
    rw [← huncounted.1, hafter] at hbefore
    cases hbefore

end SensorForge.Scenarios
