import SensorForge.FaultReach

/-! The latency in a stream's metrics is the one that `record` measured before the engine,
in the bits that the engine has left of it. -/

namespace SensorForge.Scenarios

open BitFlips Faults Transition
open Double (ofInt)
open DoubleBytes (toBytes ofBytes)

variable {ω D : Type} [DoubleBytes D] {W : World ω D} {sc : Scenario D}

/-- What the callback has recorded is the time at which it ran, less the stamp, and the
two numbers that it has read are those that went into the engine. -/
def Measured (startTime : Int) (a : Arrival) (w : Written) : Prop :=
  latencyOf w = some (latencyMs w.firedAt a.stamp : D) ∧
    sampleOf w.frame.data =
      some ((latencyMs a.latencyNow a.stamp : D), seconds (a.arrivalNow - startTime))

@[simp] theorem sampleBuffer_length (latency arrivalS : D) :
    (sampleBuffer latency arrivalS).length = 16 := by
  simp [sampleBuffer, DoubleBytes.toBytes_length]

theorem sampleOf_sampleBuffer (latency arrivalS : D) :
    sampleOf (sampleBuffer latency arrivalS) = some (latency, arrivalS) := by
  have hl := DoubleBytes.toBytes_length latency
  have ha := DoubleBytes.toBytes_length arrivalS
  have hlen := sampleBuffer_length latency arrivalS
  rw [sampleOf, if_pos (Nat.le_of_eq hlen.symm), sampleBuffer, List.take_left' hl,
    List.drop_left' hl, List.take_of_length_le (Nat.le_of_eq ha), DoubleBytes.ofBytes_toBytes,
    DoubleBytes.ofBytes_toBytes]

theorem sampleOf_eq_iff {buf : Bytes} (hbuf : buf.length = 16) (latency arrivalS : D) :
    sampleOf buf = some (latency, arrivalS) ↔ buf = sampleBuffer latency arrivalS := by
  constructor
  · intro h
    rw [sampleOf, if_pos (Nat.le_of_eq hbuf.symm), Option.some.injEq, Prod.mk.injEq] at h
    obtain ⟨hl, ha⟩ := h
    have hrest : (buf.drop 8).take 8 = buf.drop 8 :=
      List.take_of_length_le (by rw [List.length_drop]; omega)
    rw [hrest] at ha
    rw [sampleBuffer, ← hl, ← ha, DoubleBytes.toBytes_ofBytes _ (by rw [List.length_take]; omega),
      DoubleBytes.toBytes_ofBytes _ (by rw [List.length_drop]; omega), List.take_append_drop]
  · rintro rfl
    exact sampleOf_sampleBuffer latency arrivalS

theorem map_some_filterMap {α β : Type*} {f : α → Option β} {l : List α}
    (h : ∀ x ∈ l, (f x).isSome) : (l.filterMap f).map some = l.map f := by
  induction l with
  | nil => rfl
  | cons x l ih =>
    obtain ⟨y, hy⟩ := Option.isSome_iff_exists.mp (h x (by simp))
    rw [List.filterMap_cons, hy, List.map_cons, List.map_cons, ih fun z hz => h z (by simp [hz]), hy]

/-- What an engine writes is the pair of some arrival, flipped here and there. -/
theorem written_arrival {r : ScenarioRunner ω D} (hr : r.Fits sc sc.streams) {stream : String}
    {g : StreamFault ω D} (hg : r.streamFaults stream = some g) {w : Written}
    (hw : w ∈ g.engine.written) :
    ∃ a, g.arrivals[w.frame.call]? = some a ∧
      (∀ x ∈ w.frame.flips, x.1 < (a.call (D := D) r.startTime stream).data.length) ∧
      w.frame.data = flipAll (a.call (D := D) r.startTime stream).data w.frame.flips := by
  have hfits := hr.fits stream g hg
  obtain ⟨c, hc⟩ := hfits.fromCalls w.frame
    (Multiset.mem_add.mpr (.inr (List.mem_map_of_mem hw)))
  have hcall := hc.call
  rw [hfits.calls, List.getElem?_map] at hcall
  obtain ⟨a, ha, rfl⟩ := Option.map_eq_some_iff.mp hcall
  exact ⟨a, ha, hc.inside, hc.data⟩

theorem measured_iff {startTime : Int} {stream : String} {a : Arrival} {w : Written}
    (hin : ∀ x ∈ w.frame.flips, x.1 < (a.call (D := D) startTime stream).data.length)
    (hdata : w.frame.data = flipAll (a.call (D := D) startTime stream).data w.frame.flips) :
    Measured (D := D) startTime a w ↔
      Cancel w.frame.flips ∧ (latencyMs a.latencyNow a.stamp : D) = latencyMs w.firedAt a.stamp := by
  have hlen : w.frame.data.length = 16 := by
    rw [hdata, flipAll_length]
    exact sampleBuffer_length _ _
  have hsample : sampleOf w.frame.data =
      some ((latencyMs a.latencyNow a.stamp : D), seconds (a.arrivalNow - startTime)) ↔
        Cancel w.frame.flips := by
    rw [sampleOf_eq_iff hlen, hdata]
    exact flipAll_eq_self_iff hin
  unfold Measured latencyOf
  rw [← hsample, and_comm]
  refine and_congr_right fun h => ?_
  rw [h, Option.map_some, Option.some.injEq]

/-- The latencies of a stream that has an engine are those that the callback has read;
one of them is the time of the callback less the stamp, undamaged, exactly when the flips
of the frame cancel out and the clock has not moved on since `record` read it. -/
theorem measured_latency_iff {r : ScenarioRunner ω D}
    (hreach : (system W sc).Reachable anyStep r) {stream : String} {g : StreamFault ω D}
    (hg : r.streamFaults stream = some g) :
    (stream ≠ "can" → ∃ m, r.metrics[g.metrics]? = some m ∧ m.name = stream ∧
      m.latenciesMs.map some = g.engine.written.map latencyOf) ∧
    ∀ w ∈ g.engine.written, ∃ a, g.arrivals[w.frame.call]? = some a ∧
      (Measured (D := D) r.startTime a w ↔ Cancel w.frame.flips ∧
        (latencyMs a.latencyNow a.stamp : D) = latencyMs w.firedAt a.stamp) := by
  have hr := reachable_fits hreach
  have hfits := hr.fits stream g hg
  constructor
  · intro hcan
    obtain ⟨m, hm, hl⟩ := hfits.recorded hcan
    have hname := hfits.captured
    rw [List.getElem?_map, hm, Option.map_some, Option.some.injEq] at hname
    refine ⟨m, hm, hname, ?_⟩
    rw [hl]
    apply map_some_filterMap
    intro w hw
    obtain ⟨a, _, _, hdata⟩ := written_arrival hr hg hw
    have hlen : w.frame.data.length = 16 := by
      rw [hdata, flipAll_length]
      exact sampleBuffer_length _ _
    simp [latencyOf, sampleOf, hlen]
  · intro w hw
    obtain ⟨a, ha, hin, hdata⟩ := written_arrival hr hg hw
    exact ⟨a, ha, measured_iff hin hdata⟩

/-- The scenario of `reference_01.yaml` for its delayed stream, the delay a whole second. -/
def delayedImu : Scenario Int64 where
  name := "delayed_imu_during_maneuver"
  durationSeconds := 30
  streams := [⟨"imu", 200⟩]
  faults := [{
    stream := "imu", startSeconds := 8, durationSeconds := 3
    type := faultTypeFromString "delay", params := [("delay_ms", 1000)] }]
  assertions := [⟨"imu_latency_p99_ms", compareOpFromString "less_than", 30, none⟩]

theorem delayedImu_checked : delayedImu.Checked where
  duration := (by decide : ¬ (30 : Int64) ≤ 0)
  rates := by
    intro s hs
    rw [List.mem_singleton.mp hs]
    exact (by decide : ¬ (200 : Int64) ≤ 0)
  types := by
    intro f hf
    rw [List.mem_singleton.mp hf]
    exact (by decide : faultTypeFromString "delay" ≠ .kUnknown)
  assertions := by
    intro a ha
    rw [List.mem_singleton.mp ha]
    exact (by decide : "imu_latency_p99_ms" ≠ "" ∧ compareOpFromString "less_than" ≠ .kUnknown)

def imuArrival (second : Int) : Arrival where
  stamp := (second - 1) * 1000000000
  arrivalNow := second * 1000000000
  latencyNow := second * 1000000000

/-- What the engine has written after a message in the given second and what follows it;
`ns` are the readings of its clock, `fired` the times of its callback. -/
def writtenAfter (sc : Scenario Int64) (second : Int) (ns : List Int64) (fired : List Int)
    (as : List (EngineAction Int64)) : Option (List Written × List Arrival × Int) :=
  (ScenarioRunner.start sc 0 fun _ => (ns, fired)).bind fun r =>
    ((system scriptedWorld sc).run anyStep r
      (.message "imu" (imuArrival second) :: as.map (.engine "imu"))).bind fun r' =>
        (r'.streamFaults "imu").map fun g => (g.engine.written, g.arrivals, r'.startTime)

theorem exists_run_imu (sc : Scenario Int64) (second : Int) (ns : List Int64) (fired : List Int)
    (as : List (EngineAction Int64)) (ws : List Written)
    (h : writtenAfter sc second ns fired as = some (ws, [imuArrival second], 0)) :
    ∃ r g, (system scriptedWorld sc).Reachable anyStep r ∧
      r.streamFaults "imu" = some g ∧ g.engine.written = ws ∧ g.arrivals = [imuArrival second] ∧
        r.startTime = 0 := by
  obtain ⟨r, hstart, h⟩ := Option.bind_eq_some_iff.mp h
  obtain ⟨r', hrun, h⟩ := Option.bind_eq_some_iff.mp h
  obtain ⟨g, hg, h⟩ := Option.map_eq_some_iff.mp h
  obtain ⟨hws, harrivals, htime⟩ : g.engine.written = ws ∧ _ ∧ _ := by simpa using h
  have hr : (system scriptedWorld sc).Reachable anyStep r := .start ⟨0, _, hstart⟩
  exact ⟨r', g, hr.run hrun, hg, hws, harrivals, htime⟩

/-- The sample of a message in the given second, one second old. -/
def imuWritten (second : Int) (firedAt : Int) : Written where
  frame := { data := sampleBuffer (1000 : Int64) (Int64.ofInt second), call := 0 }
  firedAt := firedAt

/-- The messages of some seconds are sent twice over. -/
def duplicatedImu : Scenario Int64 where
  name := "duplicated_imu"
  durationSeconds := 30
  streams := [⟨"imu", 200⟩]
  faults := [{
    stream := "imu", startSeconds := 8, durationSeconds := 3
    type := faultTypeFromString "duplicate", params := [] }]
  assertions := []

theorem measured_of_duplicate :
    ∃ (r : ScenarioRunner (List Int64 × List Int) Int64) (g : StreamFault _ Int64),
      r.streamFaults "imu" = some g ∧
        g.engine.written = [imuWritten 9 9000000000, imuWritten 9 9000000000] ∧
        ∀ w ∈ g.engine.written, Measured (D := Int64) r.startTime (imuArrival 9) w := by
  obtain ⟨r, g, hreach, hg, hws, harrivals, _⟩ :=
    exists_run_imu duplicatedImu 9 [] [9000000000, 9000000000] []
      [imuWritten 9 9000000000, imuWritten 9 9000000000] (by decide +kernel)
  refine ⟨r, g, hg, hws, fun w hw => ?_⟩
  obtain ⟨a, ha, hiff⟩ := (measured_latency_iff hreach hg).2 _ hw
  obtain rfl : w = imuWritten 9 9000000000 := by simpa [hws] using hw
  obtain rfl : imuArrival 9 = a := by simpa [harrivals, imuWritten] using ha
  exact hiff.mpr ⟨cancel_nil, by decide⟩

/-- The worker writes the frame of the ninth second one second later; what is recorded is
the latency that it had on arrival. -/
theorem delay_not_measured :
    ¬ ∀ (sc : Scenario Int64) (r : ScenarioRunner (List Int64 × List Int) Int64) (stream : String)
      (g : StreamFault _ Int64) (w : Written) (a : Arrival), sc.Checked →
      (system scriptedWorld sc).Reachable anyStep r → r.streamFaults stream = some g →
      w ∈ g.engine.written → g.arrivals[w.frame.call]? = some a →
      Measured (D := Int64) r.startTime a w := by
  intro h
  obtain ⟨r, g, hreach, hg, hws, harrivals, _⟩ :=
    exists_run_imu delayedImu 9 [9000000000, 10000000000] [10000000000] [.workerPop 0, .workerEmit]
      [imuWritten 9 10000000000] (by decide +kernel)
  have hmeasured := h delayedImu r "imu" g (imuWritten 9 10000000000) (imuArrival 9)
    delayedImu_checked hreach hg (by simp [hws]) (by simp [harrivals, imuWritten])
  have hlatency := hmeasured.1
  revert hlatency
  decide

end SensorForge.Scenarios
