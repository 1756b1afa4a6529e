import SensorForge.Interleaving
import SensorForge.ParallelRunner
import SensorForge.Segment
import SensorForge.StreamFaults

/-! Runs side by side: their messages go by topic, their CAN frames over one bus. -/

namespace SensorForge.Scenarios

open Faults Transition

variable {ω D : Type} [DoubleBytes D] (W : World ω D)

/-- Something that happens at one of the runs; `ι` numbers them. A message or a frame has
been sent by the publisher of the run `src` for one of its streams. -/
inductive FleetAction (ι D : Type)
  | message (src dst : ι) (stream sub : String) (a : Arrival)
  | canFrame (src dst : ι) (f : CanFrame) (nowUs : UInt32) (now : Int)
  | engine (dst : ι) (stream : String) (a : EngineAction D)
  | stopCanReader (dst : ι)

variable {ι : Type}

def FleetAction.dst : FleetAction ι D → ι
  | .message _ dst _ _ _ => dst
  | .canFrame _ dst _ _ _ => dst
  | .engine dst _ _ => dst
  | .stopCanReader dst => dst

def FleetAction.sender : FleetAction ι D → Option ι
  | .message src _ _ _ _ => some src
  | .canFrame src _ _ _ _ => some src
  | .engine _ _ _ => none
  | .stopCanReader _ => none

def FleetAction.seen : FleetAction ι D → RunnerAction D
  | .message _ _ _ sub a => .message sub a
  | .canFrame _ _ f nowUs now => .canFrame f nowUs now
  | .engine _ stream a => .engine stream a
  | .stopCanReader _ => .stopCanReader

/-- `spawn_publisher` hands this topic to the publisher of a stream. -/
def publisherTopic (ns stream : String) : String := ns ++ "/" ++ stream

/-- `spawn_publisher` sets no `can_interface`, and this is its default. -/
def publisherInterface : String := "vcan0"

def subscriptionTopic (ns stream : String) : String := ns ++ "/" ++ stream

/-- What `subscribe_stream` has the reader bind to. -/
def readerInterface : String := "vcan0"

/-- Every stream of a scenario has a publisher; the middleware carries a message to the
subscriptions to its topic, and a bus a frame to its readers. -/
def Carried (runs : ι → Run D) : FleetAction ι D → Prop
  | .message src dst stream sub _ =>
    stream ∈ (runs src).scenario.streams.map StreamConfig.name ∧
      publisherTopic (runs src).ns stream = subscriptionTopic (runs dst).ns sub
  | .canFrame src _ _ _ _ =>
    "can" ∈ (runs src).scenario.streams.map StreamConfig.name ∧
      publisherInterface = readerInterface
  | .engine _ _ _ => True
  | .stopCanReader _ => True

instance (runs : ι → Run D) : DecidablePred (Carried runs)
  | .message _ _ _ _ _ => inferInstanceAs (Decidable (_ ∧ _))
  | .canFrame _ _ _ _ _ => inferInstanceAs (Decidable (_ ∧ _))
  | .engine _ _ _ => instDecidableTrue
  | .stopCanReader _ => instDecidableTrue

def fleetNet (runs : ι → Run D) : Net ι (ScenarioRunner ω D) (FleetAction ι D) where
  place := FleetAction.dst
  allowed := Carried runs
  step r a := r.next W a.seen

instance (runs : ι → Run D) : DecidablePred (fleetNet W runs).allowed :=
  inferInstanceAs (DecidablePred (Carried runs))

/-- All runs have started, in what order does not matter to any of them. -/
def fleet [DecidableEq ι] (runs : ι → Run D) :
    System (ι → ScenarioRunner ω D) (FleetAction ι D) :=
  (fleetNet W runs).system fun s => ∀ i, ∃ startTime worlds,
    ScenarioRunner.start (runs i).scenario startTime worlds = some (s i)

variable {W}

/-- `r` has gone the same way as `r'` but for `k` frames more on the bus. -/
structure Ahead (k : Nat) (r r' : ScenarioRunner ω D) : Prop where
  startTime : r.startTime = r'.startTime
  subs : r.subs = r'.subs
  streamFaults : r.streamFaults = r'.streamFaults
  reader : r.canReader.map CanReader.metrics = r'.canReader.map CanReader.metrics
  names : r.metrics.map StreamMetrics.name = r'.metrics.map StreamMetrics.name
  received : (r.metrics.map StreamMetrics.received).sum =
    (r'.metrics.map StreamMetrics.received).sum + k

theorem Ahead.refl (r : ScenarioRunner ω D) : Ahead 0 r r := ⟨rfl, rfl, rfl, rfl, rfl, rfl⟩

theorem received_modify {ms : List (StreamMetrics D)} {h : StreamMetrics D → StreamMetrics D}
    {d : Nat} (hreceived : ∀ m, (h m).received = m.received + d) (i : Nat) :
    ((ms.modify i h).map StreamMetrics.received).sum =
      (ms.map StreamMetrics.received).sum + if i < ms.length then d else 0 := by
  induction ms generalizing i with
  | nil => simp
  | cons m ms ih =>
    cases i with
    | zero =>
      simp only [List.modify_zero_cons, List.map_cons, List.sum_cons, hreceived, List.length_cons,
        Nat.succ_pos, if_true]
      omega
    | succ i =>
      simp only [List.modify_succ_cons, List.map_cons, List.sum_cons, ih, List.length_cons,
        Nat.add_lt_add_iff_right, Nat.add_assoc]

theorem callbacks_received (m : StreamMetrics D) (ws : List Written) :
    (ws.foldl (fun m w => m.callback w.frame.data) m).received =
      m.received + (ws.filter fun w => (sampleOf (D := D) w.frame.data).isSome).length := by
  induction ws generalizing m with
  | nil => rfl
  | cons w ws ih =>
    rw [List.foldl_cons, ih, StreamMetrics.callback]
    split
    · next h =>
      rw [List.filter_cons_of_pos (by rw [h]; rfl), List.length_cons]
      simp only [StreamMetrics.record, StreamMetrics.recordLatency]
      omega
    · next h => rw [List.filter_cons_of_neg (by simp [h])]

theorem metrics_length {r r' : ScenarioRunner ω D}
    (h : r.metrics.map StreamMetrics.name = r'.metrics.map StreamMetrics.name) :
    r.metrics.length = r'.metrics.length := by
  simpa using congrArg List.length h

theorem Ahead.metrics {k d : Nat} {r r' : ScenarioRunner ω D} (h : Ahead k r r') (i : Nat)
    {f f' : StreamMetrics D → StreamMetrics D} (hname : ∀ m, (f m).name = m.name)
    (hname' : ∀ m, (f' m).name = m.name) (hreceived : ∀ m, (f m).received = m.received + d)
    (hreceived' : ∀ m, (f' m).received = m.received + d) :
    Ahead k { r with metrics := r.metrics.modify i f }
      { r' with metrics := r'.metrics.modify i f' } where
  startTime := h.startTime
  subs := h.subs
  streamFaults := h.streamFaults
  reader := h.reader
  names := by rw [names_modify i hname, names_modify i hname', h.names]
  received := by
    rw [received_modify hreceived, received_modify hreceived', h.received, metrics_length h.names]
    omega

theorem Ahead.deliver {k : Nat} {r r' : ScenarioRunner ω D} (h : Ahead k r r') (stream : String)
    (g g' : StreamFault ω D) : Ahead k (r.deliver stream g g') (r'.deliver stream g g') := by
  have hmetrics := h.metrics g.metrics (fun m => callbacks_name m _) (fun m => callbacks_name m _)
    (fun m => callbacks_received m (g'.engine.written.drop g.engine.written.length))
    (fun m => callbacks_received m _)
  refine { hmetrics with streamFaults := ?_ }
  simp only [ScenarioRunner.deliver, h.streamFaults]

theorem Ahead.metricsFor {k : Nat} {r r' : ScenarioRunner ω D} (h : Ahead k r r')
    (stream : String) : r.metricsFor stream = r'.metricsFor stream := by
  have hmap : ∀ ms : List (StreamMetrics D), ms.findIdx? (fun m => m.name = stream) =
      (ms.map StreamMetrics.name).findIdx? fun name => name = stream := by
    intro ms
    rw [List.findIdx?_map]
    rfl
  rw [ScenarioRunner.metricsFor, ScenarioRunner.metricsFor, hmap, hmap, h.names]

theorem Ahead.record {k : Nat} {r r' : ScenarioRunner ω D} (h : Ahead k r r') (stream : String)
    (a : Arrival) : Ahead k (r.record W stream a) (r'.record W stream a) := by
  have hfaults : r'.streamFaults stream = r.streamFaults stream := by rw [h.streamFaults]
  unfold ScenarioRunner.record
  rw [hfaults, ← h.metricsFor]
  split
  · rw [h.startTime]
    exact h.deliver stream _ _
  · split
    · refine h.metrics (d := 1) _ ?_ ?_ ?_ ?_ <;> exact fun _ => rfl
    · exact h

theorem readCan_received (r : ScenarioRunner ω D) (c : CanReader) (f : CanFrame) (nowUs : UInt32)
    (now : Int) :
    ((r.readCan c f nowUs now).metrics.map StreamMetrics.received).sum =
      (r.metrics.map StreamMetrics.received).sum +
        if c.metrics < r.metrics.length then 1 else 0 := by
  simp only [ScenarioRunner.readCan]
  exact received_modify (fun _ => rfl) c.metrics

theorem readCan_names (r : ScenarioRunner ω D) (c : CanReader) (f : CanFrame) (nowUs : UInt32)
    (now : Int) :
    (r.readCan c f nowUs now).metrics.map StreamMetrics.name =
      r.metrics.map StreamMetrics.name :=
  names_modify _ fun _ => rfl

theorem Ahead.readCan {k : Nat} {r r' : ScenarioRunner ω D} (h : Ahead k r r') {c c' : CanReader}
    (hc : c.metrics = c'.metrics) (f : CanFrame) (nowUs : UInt32) (now : Int) :
    Ahead k (r.readCan c f nowUs now) (r'.readCan c' f nowUs now) where
  startTime := h.startTime
  subs := h.subs
  streamFaults := h.streamFaults
  reader := congrArg some hc
  names := by rw [readCan_names, readCan_names, h.names]
  received := by
    rw [readCan_received, readCan_received, h.received, hc, metrics_length h.names]
    omega

theorem Ahead.readMore {k : Nat} {r r' : ScenarioRunner ω D} (h : Ahead k r r') {c : CanReader}
    (hc : r.canReader = some c) (hin : c.metrics < r.metrics.length) (f : CanFrame)
    (nowUs : UInt32) (now : Int) : Ahead (k + 1) (r.readCan c f nowUs now) r' where
  startTime := h.startTime
  subs := h.subs
  streamFaults := h.streamFaults
  reader := by
    rw [← h.reader, hc]
    rfl
  names := by rw [readCan_names, h.names]
  received := by rw [readCan_received, if_pos hin, h.received, Nat.add_assoc]

theorem Ahead.next {k : Nat} {r r' t : ScenarioRunner ω D} (h : Ahead k r r')
    {a : RunnerAction D} (hn : r.next W a = some t) :
    ∃ t', r'.next W a = some t' ∧ Ahead k t t' := by
  cases a with
  | message stream a =>
    simp only [ScenarioRunner.next] at hn ⊢
    rw [← h.subs]
    split at hn
    · next hsub =>
      cases hn
      rw [if_pos hsub]
      exact ⟨_, rfl, h.record stream a⟩
    · cases hn
  | canFrame f nowUs now =>
    obtain ⟨c, hc, rfl⟩ := Option.map_eq_some_iff.mp hn
    have hreader := h.reader
    rw [hc, Option.map_some] at hreader
    obtain ⟨c', hc', hmetrics⟩ := Option.map_eq_some_iff.mp hreader.symm
    refine ⟨r'.readCan c' f nowUs now, ?_, h.readCan hmetrics.symm f nowUs now⟩
    simp [ScenarioRunner.next, hc']
  | engine stream b =>
    obtain ⟨g, e, hg, he, hb, rfl⟩ := engineAction_next hn
    refine ⟨r'.deliver stream g { g with engine := e }, ?_, h.deliver stream _ _⟩
    rw [h.streamFaults] at hg
    cases b with
    | process c => exact absurd rfl (hb c)
    | _ => simp [ScenarioRunner.next, hg, he]
  | stopCanReader =>
    cases hn
    exact ⟨_, rfl, { h with reader := rfl }⟩

theorem takeWhile_repr (n : Nat) (rest : List Char) :
    ((Nat.repr n).toList ++ '/' :: rest).takeWhile (· ≠ '/') = (Nat.repr n).toList := by
  have hdigit : ∀ c ∈ (Nat.repr n).toList, decide (c ≠ '/') = true := by
    intro c hc
    have hdec := Replay.toDigits_decimal n c (by simpa [Nat.repr] using hc)
    refine decide_eq_true ?_
    rintro rfl
    exact absurd hdec (by unfold Replay.isDecimal; decide)
  rw [List.takeWhile_append_of_pos hdigit]
  simp

/-- A topic tells the number of the run that it belongs to. -/
theorem topic_inj {E : Type} {o : Options} {m n : Nat} {sc sc' : Scenario E} {stream sub : String}
    (h : publisherTopic (runAt o m sc).ns stream = subscriptionTopic (runAt o n sc').ns sub) :
    m = n := by
  have hl := congrArg String.toList h
  simp only [publisherTopic, subscriptionTopic, runAt, String.toList_append, List.append_assoc] at hl
  have hdigits := List.append_cancel_left (List.append_cancel_left hl)
  have hslash : "/".toList = ['/'] := by decide
  rw [hslash, List.singleton_append, List.singleton_append] at hdigits
  have hrepr := congrArg (List.takeWhile (· ≠ '/')) hdigits
  rw [takeWhile_repr, takeWhile_repr] at hrepr
  exact Nat.repr_injective (String.toList_inj.mp hrepr)

section Runs

variable [DecidableEq ι] {runs : ι → Run D}

/-- `as'` is what happens at `i` in `as` when the publishers of `j` send nothing; what
happens elsewhere may be anything else. -/
structure Silenced (i j : ι) (as as' : List (FleetAction ι D)) : Prop where
  silent : ∀ a ∈ as', a.sender ≠ some j
  same : as'.filter (fun a => a.dst = i) =
    (as.filter fun a => a.dst = i).filter fun a => a.sender ≠ some j

/-- A frame that the publisher of `j` has put on the bus, read by `i`. -/
def FleetAction.CrossFrame (i j : ι) (a : FleetAction ι D) : Prop :=
  ∃ f nowUs now, a = .canFrame j i f nowUs now

theorem ahead_run {sc : Scenario D} {i j : ι} {as : List (FleetAction ι D)}
    {r r' t : ScenarioRunner ω D} {k : Nat} (h : Ahead k r r') (hfits : r.Fits sc sc.streams)
    (has : ∀ a ∈ as, a.sender = some j → a.CrossFrame i j)
    (hrun : as.foldlM (fleetNet W runs).step r = some t) :
    ∃ t', (as.filter fun a => a.sender ≠ some j).foldlM (fleetNet W runs).step r' = some t' ∧
      Ahead (k + (as.filter fun a => a.sender = some j).length) t t' := by
  induction as generalizing r r' k with
  | nil =>
    cases hrun
    exact ⟨r', rfl, h⟩
  | cons a as ih =>
    have hrest := fun b hb => has b (List.mem_cons_of_mem a hb)
    rw [List.foldlM_cons] at hrun
    obtain ⟨u, hu, hrun⟩ := Option.bind_eq_some_iff.mp hrun
    have hu : r.next W a.seen = some u := hu
    by_cases hsender : a.sender = some j
    · obtain ⟨f, nowUs, now, rfl⟩ := has a List.mem_cons_self hsender
      obtain ⟨c, hc, rfl⟩ := Option.map_eq_some_iff.mp hu
      have hin : c.metrics < r.metrics.length := by
        have hname := hfits.canReader c hc
        rw [List.getElem?_eq_some_iff] at hname
        simpa using hname.1
      obtain ⟨t', ht', hahead⟩ := ih (h.readMore hc hin f nowUs now) (hfits.next hu) hrest hrun
      refine ⟨t', ?_, ?_⟩
      · rw [List.filter_cons_of_neg (by simp [FleetAction.sender])]
        exact ht'
      · rw [List.filter_cons_of_pos (by simp [FleetAction.sender]), List.length_cons]
        rwa [Nat.add_assoc, Nat.add_comm 1] at hahead
    · obtain ⟨u', hu', hnext⟩ := h.next hu
      obtain ⟨t', ht', hahead⟩ := ih hnext (hfits.next hu) hrest hrun
      refine ⟨t', ?_, ?_⟩
      · rw [List.filter_cons_of_pos (by simpa using hsender), List.foldlM_cons]
        exact Option.bind_eq_some_iff.mpr ⟨u', hu', ht'⟩
      · rw [List.filter_cons_of_neg (by simpa using hsender)]
        exact hahead

end Runs

/-- What reaches a launched run from the publishers of another comes over the bus. -/
theorem carried_cross {E : Type} {parse : String → Option (Scenario E)} {o : Options}
    {runs : List (Run E)} (h : launch parse o = some runs) {i j : Fin runs.length} (hij : i ≠ j)
    {a : FleetAction (Fin runs.length) E} (ha : Carried (fun n => runs[n]) a) (hdst : a.dst = i)
    (hsender : a.sender = some j) : a.CrossFrame i j := by
  cases a with
  | message src dst stream sub a =>
    obtain rfl : dst = i := hdst
    obtain rfl : src = j := Option.some.inj hsender
    obtain ⟨sc, hsc⟩ := launch_getElem h src.isLt
    obtain ⟨sc', hsc'⟩ := launch_getElem h dst.isLt
    have htopic := ha.2
    simp only [Fin.getElem_fin, hsc, hsc'] at htopic
    exact absurd (Fin.ext (topic_inj htopic)).symm hij
  | canFrame src dst f nowUs now =>
    obtain rfl : dst = i := hdst
    obtain rfl : src = j := Option.some.inj hsender
    exact ⟨f, nowUs, now, rfl⟩
  | engine dst stream b => cases hsender
  | stopCanReader dst => cases hsender

section Silenced

variable {parse : String → Option (Scenario D)} {o : Options} {runs : List (Run D)}
  {i j : Fin runs.length} {s t t' : Fin runs.length → ScenarioRunner ω D} {u : ScenarioRunner ω D}
  {as as' : List (FleetAction (Fin runs.length) D)}

theorem toward_cross (h : launch parse o = some runs) (hij : i ≠ j)
    (hr : (fleet W fun n => runs[n]).run anyStep s as = some t) :
    ∀ a ∈ (fleetNet W fun n => runs[n]).toward i as, a.sender = some j → a.CrossFrame i j := by
  intro a ha hsender
  obtain ⟨ha, hdst⟩ := List.mem_filter.mp ha
  exact carried_cross h hij (Net.run_allowed hr a ha) (of_decide_eq_true hdst) hsender

theorem silenced_run (hr : (fleet W fun n => runs[n]).run anyStep s as = some t)
    (hu : (((fleetNet W fun n => runs[n]).toward i as).filter fun a => a.sender ≠ some j).foldlM
      (fleetNet W fun n => runs[n]).step (s i) = some u) :
    ∃ as' t', Silenced i j as as' ∧ (fleet W fun n => runs[n]).run anyStep s as' = some t' := by
  have hplaces : ∀ a ∈ ((fleetNet W fun n => runs[n]).toward i as).filter
      fun a => a.sender ≠ some j, a.dst = i ∧ Carried (fun n => runs[n]) a := by
    intro a ha
    obtain ⟨ha, hdst⟩ := List.mem_filter.mp (List.mem_of_mem_filter ha)
    exact ⟨of_decide_eq_true hdst, Net.run_allowed hr a ha⟩
  obtain ⟨t', ht', _⟩ := Net.run_alone hplaces hu
  refine ⟨_, t', ⟨fun a ha => ?_, ?_⟩, ht'⟩
  · exact of_decide_eq_true (List.mem_filter.mp ha).2
  · rw [List.filter_eq_self.mpr fun a ha => decide_eq_true (hplaces a ha).1]
    rfl

theorem silenced_at (hsilenced : Silenced i j as as')
    (hr' : (fleet W fun n => runs[n]).run anyStep s as' = some t')
    (hu : (((fleetNet W fun n => runs[n]).toward i as).filter fun a => a.sender ≠ some j).foldlM
      (fleetNet W fun n => runs[n]).step (s i) = some u) : u = t' i := by
  have hat' := Net.run_at hr' i
  have hsame : (fleetNet W fun n => runs[n]).toward i as' = _ := hsilenced.same
  rw [hsame] at hat'
  exact Option.some.inj (hu.symm.trans hat')

theorem metrics_eq_iff
    (hcross : ∀ a ∈ (fleetNet W fun n => runs[n]).toward i as, a.sender = some j →
      a.CrossFrame i j)
    (hr : (fleet W fun n => runs[n]).run anyStep s as = some t)
    (hu : (((fleetNet W fun n => runs[n]).toward i as).filter fun a => a.sender ≠ some j).foldlM
      (fleetNet W fun n => runs[n]).step (s i) = some u)
    (hahead : Ahead (((fleetNet W fun n => runs[n]).toward i as).filter
      fun a => a.sender = some j).length (t i) u) :
    (t i).metrics = u.metrics ↔ ∀ a ∈ as, ¬ a.CrossFrame i j := by
  constructor
  · intro heq a ha hframe
    obtain ⟨f, nowUs, now, rfl⟩ := hframe
    have hreceived := hahead.received
    rw [heq] at hreceived
    have hnone : ((fleetNet W fun n => runs[n]).toward i as).filter
        (fun a => a.sender = some j) = [] :=
      List.length_eq_zero_iff.mp (by omega)
    have hmem : FleetAction.canFrame j i f nowUs now ∈ (fleetNet W fun n => runs[n]).toward i as :=
      List.mem_filter.mpr ⟨ha, decide_eq_true rfl⟩
    exact List.filter_eq_nil_iff.mp hnone _ hmem (decide_eq_true rfl)
  · intro hnone
    have hall : ((fleetNet W fun n => runs[n]).toward i as).filter
        (fun a => a.sender ≠ some j) = (fleetNet W fun n => runs[n]).toward i as := by
      refine List.filter_eq_self.mpr fun a ha => decide_eq_true fun hsender => ?_
      exact hnone a (List.mem_of_mem_filter ha) (hcross a ha hsender)
    rw [hall, Net.run_at hr i] at hu
    rw [Option.some.inj hu]

end Silenced

/-- The metrics of a run are what they would have been, had the publishers of another run
sent nothing, exactly when its reader has read no CAN frame of theirs. -/
theorem isolation_iff {parse : String → Option (Scenario D)} {o : Options} {runs : List (Run D)}
    (h : launch parse o = some runs) {i j : Fin runs.length} (hij : i ≠ j)
    {s t : Fin runs.length → ScenarioRunner ω D} (hs : (fleet W fun n => runs[n]).start s)
    {as : List (FleetAction (Fin runs.length) D)}
    (hr : (fleet W fun n => runs[n]).run anyStep s as = some t) :
    (∃ as' t', Silenced i j as as' ∧ (fleet W fun n => runs[n]).run anyStep s as' = some t') ∧
    ∀ as' t', Silenced i j as as' → (fleet W fun n => runs[n]).run anyStep s as' = some t' →
      ((t i).metrics = (t' i).metrics ↔ ∀ a ∈ as, ¬ a.CrossFrame i j) := by
  obtain ⟨startTime, worlds, hstart⟩ := hs i
  have hcross := toward_cross (W := W) h hij hr
  obtain ⟨u, hu, hahead⟩ := ahead_run (Ahead.refl _) (start_fits hstart) hcross (Net.run_at hr i)
  rw [Nat.zero_add] at hahead
  refine ⟨silenced_run hr hu, fun as' t' hsilenced hr' => ?_⟩
  rw [← silenced_at hsilenced hr' hu]
  exact metrics_eq_iff hcross hr hu hahead

def canScenario : Scenario Int64 :=
  { name := "can_only", durationSeconds := 10, streams := [⟨"can", 100⟩], faults := []
    assertions := [] }

def twoOptions : Options :=
  { scenarioPaths := ["can_only.yaml", "can_only.yaml"], count_pos := Nat.one_pos }

def canRuns : List (Run Int64) := [runAt twoOptions 0 canScenario, runAt twoOptions 1 canScenario]

theorem canRuns_launch : launch (fun _ => some canScenario) twoOptions = some canRuns := rfl

def canRunner : ScenarioRunner (List Int64 × List Int) Int64 :=
  { scenario := canScenario, startTime := 0
    metrics := [{ name := "can", expectedRateHz := 100, durationSeconds := 10 }]
    canReader := some { metrics := 0 } }

def canFleet : Fin canRuns.length → ScenarioRunner (List Int64 × List Int) Int64 :=
  fun _ => canRunner

theorem canFleet_start :
    (fleet scriptedWorld fun n : Fin canRuns.length => canRuns[n]).start canFleet := by
  intro i
  refine ⟨0, fun _ => ([], []), ?_⟩
  fin_cases i <;> rfl

def canData : CanFrame := ⟨#v[0, 0, 0, 0, 0, 0, 0, 0]⟩

def firstRun : Fin canRuns.length := ⟨0, by decide⟩

def secondRun : Fin canRuns.length := ⟨1, by decide⟩

/-- Both publishers send, and each reader receives the frame of its own run. -/
def ownFrames : List (FleetAction (Fin canRuns.length) Int64) :=
  [.canFrame firstRun firstRun canData 0 0, .canFrame secondRun secondRun canData 0 0]

theorem isolation_own_frames :
    ∃ t, (fleet scriptedWorld fun n : Fin canRuns.length => canRuns[n]).run anyStep canFleet
        ownFrames = some t ∧
      (∀ n, (t n).metrics.map StreamMetrics.received = [1]) ∧
      ∀ as' t', Silenced firstRun secondRun ownFrames as' →
        (fleet scriptedWorld fun n : Fin canRuns.length => canRuns[n]).run anyStep canFleet as' =
          some t' → (t firstRun).metrics = (t' firstRun).metrics := by
  refine ⟨_, rfl, ?_, fun as' t' hs ht => ?_⟩
  · intro n
    fin_cases n <;> rfl
  · refine ((isolation_iff canRuns_launch (by decide) canFleet_start rfl).2 as' t' hs ht).mpr ?_
    rintro a ha ⟨f, nowUs, now, rfl⟩
    rcases List.mem_pair.mp ha with heq | heq
    · rw [FleetAction.canFrame.injEq] at heq
      exact absurd heq.1 (by decide)
    · rw [FleetAction.canFrame.injEq] at heq
      exact absurd heq.2.1 (by decide)

/-- One frame of the second run's publisher, and the first run has received one. -/
theorem can_frames_shared :
    ¬ ∀ (parse : String → Option (Scenario Int64)) (o : Options) (runs : List (Run Int64)),
      launch parse o = some runs → ∀ i j : Fin runs.length, i ≠ j →
      ∀ (s t t' : Fin runs.length → ScenarioRunner (List Int64 × List Int) Int64)
        (as as' : List (FleetAction (Fin runs.length) Int64)),
        (fleet scriptedWorld fun n => runs[n]).start s →
        (fleet scriptedWorld fun n => runs[n]).run anyStep s as = some t →
        Silenced i j as as' → (fleet scriptedWorld fun n => runs[n]).run anyStep s as' = some t' →
        (t i).metrics = (t' i).metrics := by
  intro h
  have heq := h _ _ _ canRuns_launch firstRun secondRun (by decide) canFleet _ _
    [.canFrame secondRun firstRun canData 0 0] []
    canFleet_start rfl ⟨by simp, by simp [FleetAction.dst, FleetAction.sender]⟩ rfl
  have hreceived := congrArg (List.map StreamMetrics.received) heq
  exact absurd hreceived (by decide)

end SensorForge.Scenarios
