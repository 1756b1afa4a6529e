import SensorForge.FaultBalance
import SensorForge.ScenarioRunner

/-! The engines of a running scenario: which streams have one, what went into it, and
that the latencies in a stream's metrics are what its callback has read. -/

namespace SensorForge.Scenarios

open Faults Transition
open DoubleBytes (toBytes ofBytes)

variable {ω D : Type} [DoubleBytes D] {W : World ω D} {sc : Scenario D}

/-- The latency that the callback reads from what an engine writes. -/
def latencyOf (w : Written) : Option D := (sampleOf w.frame.data).map Prod.fst

structure StreamFault.Fits (g : StreamFault ω D) (sc : Scenario D) (startTime : Int)
    (metrics : List (StreamMetrics D)) (stream : String) : Prop where
  rules : g.engine.rules = rulesFor sc stream
  captured : (metrics.map StreamMetrics.name)[g.metrics]? = some stream
  calls : g.engine.calls = g.arrivals.map (Arrival.call startTime stream)
  fromCalls : g.engine.FromCalls
  recorded : stream ≠ "can" → ∃ m, metrics[g.metrics]? = some m ∧
    m.latenciesMs = g.engine.written.filterMap latencyOf

/-- What holds of a runner when the streams `pre` of the scenario are set up. -/
structure ScenarioRunner.Fits (r : ScenarioRunner ω D) (sc : Scenario D)
    (pre : List (StreamConfig D)) : Prop where
  scenario : r.scenario = sc
  subs : ∀ stream ∈ r.subs, stream ∈ rosStreams
  engines : ∀ s ∈ pre, (∃ f ∈ sc.faults, f.stream = s.name) → ∃ g, r.streamFaults s.name = some g
  fits : ∀ stream g, r.streamFaults stream = some g → g.Fits sc r.startTime r.metrics stream
  canReader : ∀ c, r.canReader = some c →
    (r.metrics.map StreamMetrics.name)[c.metrics]? = some "can"

theorem names_modify {ms : List (StreamMetrics D)} {h : StreamMetrics D → StreamMetrics D} (i : Nat)
    (hname : ∀ m, (h m).name = m.name) :
    (ms.modify i h).map StreamMetrics.name = ms.map StreamMetrics.name := by
  apply List.ext_getElem?
  intro j
  simp only [List.getElem?_map, List.getElem?_modify]
  cases ms[j]? with
  | none => rfl
  | some m => by_cases hij : i = j <;> simp [hij, hname]

theorem callback_name (m : StreamMetrics D) (buf : Bytes) : (m.callback buf).name = m.name := by
  unfold StreamMetrics.callback
  split <;> rfl

theorem callback_latenciesMs (m : StreamMetrics D) (buf : Bytes) :
    (m.callback buf).latenciesMs = m.latenciesMs ++ ((sampleOf buf).map Prod.fst).toList := by
  unfold StreamMetrics.callback
  split
  · next h => simp [h]
  · next h => simp [h]

theorem callbacks_name (m : StreamMetrics D) (ws : List Written) :
    (ws.foldl (fun m w => m.callback w.frame.data) m).name = m.name := by
  induction ws generalizing m with
  | nil => rfl
  | cons w ws ih => rw [List.foldl_cons, ih, callback_name]

theorem callbacks_latenciesMs (m : StreamMetrics D) (ws : List Written) :
    (ws.foldl (fun m w => m.callback w.frame.data) m).latenciesMs =
      m.latenciesMs ++ ws.filterMap latencyOf := by
  induction ws generalizing m with
  | nil => simp
  | cons w ws ih =>
    rw [List.foldl_cons, ih, callback_latenciesMs, List.append_assoc, List.filterMap_cons]
    congr 1
    unfold latencyOf
    cases (sampleOf w.frame.data : Option (D × D)) <;> rfl

theorem metricsFor_name {r : ScenarioRunner ω D} {stream : String} {i : Nat}
    (h : r.metricsFor stream = some i) :
    (r.metrics.map StreamMetrics.name)[i]? = some stream := by
  obtain ⟨hi, hname, _⟩ := List.findIdx?_eq_some_iff_getElem.mp h
  simpa [List.getElem?_map, hi] using hname

/-- Metrics of another stream may change. -/
theorem StreamFault.Fits.modify {g : StreamFault ω D} {startTime : Int}
    {metrics : List (StreamMetrics D)} {stream other : String}
    (hg : g.Fits sc startTime metrics stream) {i : Nat}
    (hi : (metrics.map StreamMetrics.name)[i]? = some other) (hne : stream ≠ other)
    {h : StreamMetrics D → StreamMetrics D} (hname : ∀ m, (h m).name = m.name) :
    g.Fits sc startTime (metrics.modify i h) stream where
  rules := hg.rules
  captured := by rw [names_modify i hname, hg.captured]
  calls := hg.calls
  fromCalls := hg.fromCalls
  recorded := fun hcan => by
    have hij : i ≠ g.metrics := fun hij => by
      rw [hij, hg.captured, Option.some.injEq] at hi
      exact hne hi
    rw [List.getElem?_modify_ne _ _ hij]
    exact hg.recorded hcan

/-- Metrics that no callback has captured may change, and so may those of the CAN bus. -/
theorem ScenarioRunner.Fits.modify {r : ScenarioRunner ω D} {pre : List (StreamConfig D)}
    (hr : r.Fits sc pre) {stream : String} {i : Nat}
    (hi : (r.metrics.map StreamMetrics.name)[i]? = some stream)
    (hfree : r.streamFaults stream = none ∨ stream = "can")
    {h : StreamMetrics D → StreamMetrics D} (hname : ∀ m, (h m).name = m.name) :
    ({ r with metrics := r.metrics.modify i h } : ScenarioRunner ω D).Fits sc pre where
  scenario := hr.scenario
  subs := hr.subs
  engines := hr.engines
  fits := fun n g hg => by
    have hfits := hr.fits n g hg
    by_cases hn : n = stream
    · subst hn
      rcases hfree with hfree | hcan
      · rw [hfree] at hg
        cases hg
      · refine ⟨hfits.rules, ?_, hfits.calls, hfits.fromCalls, fun hne => absurd hcan hne⟩
        rw [names_modify i hname]
        exact hfits.captured
    · exact hfits.modify hi hn hname
  canReader := fun c hc => by
    rw [names_modify i hname]
    exact hr.canReader c hc

theorem ScenarioRunner.Fits.deliver {r : ScenarioRunner ω D} {pre : List (StreamConfig D)}
    (hr : r.Fits sc pre) {stream : String} {g g' : StreamFault ω D}
    (hg : r.streamFaults stream = some g) (hmetrics : g'.metrics = g.metrics)
    (hrules : g'.engine.rules = g.engine.rules)
    (hcalls : g'.engine.calls = g'.arrivals.map (Arrival.call r.startTime stream))
    (hfrom : g'.engine.FromCalls) (hwritten : ∃ ws, g'.engine.written = g.engine.written ++ ws) :
    (r.deliver stream g g').Fits sc pre := by
  have hfits := hr.fits stream g hg
  have hname : ∀ m : StreamMetrics D,
      ((g'.engine.written.drop g.engine.written.length).foldl
        (fun m w => m.callback w.frame.data) m).name = m.name := fun m => callbacks_name m _
  refine ⟨hr.scenario, hr.subs, ?_, ?_, ?_⟩
  · intro s hs hf
    by_cases hn : s.name = stream
    · exact ⟨g', by simp [ScenarioRunner.deliver, hn]⟩
    · simpa [ScenarioRunner.deliver, hn] using hr.engines s hs hf
  · intro n u hu
    by_cases hn : n = stream
    · subst hn
      simp only [ScenarioRunner.deliver, Function.update_self, Option.some.injEq] at hu
      subst hu
      refine ⟨hrules.trans hfits.rules, ?_, hcalls, hfrom, ?_⟩
      · rw [hmetrics]
        exact (congrArg (·[g.metrics]?) (names_modify g.metrics hname)).trans hfits.captured
      · intro hcan
        obtain ⟨m, hm, hl⟩ := hfits.recorded hcan
        obtain ⟨ws, hws⟩ := hwritten
        refine ⟨(g'.engine.written.drop g.engine.written.length).foldl
          (fun m w => m.callback w.frame.data) m, ?_, ?_⟩
        · simp [ScenarioRunner.deliver, hmetrics, hm]
        · rw [callbacks_latenciesMs, hl, hws, List.drop_left, List.filterMap_append]
    · simp only [ScenarioRunner.deliver, Function.update_of_ne hn] at hu
      exact (hr.fits n u hu).modify hfits.captured hn hname
  · intro c hc
    exact (congrArg (·[c.metrics]?) (names_modify g.metrics hname)).trans (hr.canReader c hc)

theorem engineAction_next {r r' : ScenarioRunner ω D} {stream : String} {b : EngineAction D}
    (h : r.next W (.engine stream b) = some r') :
    ∃ g e, r.streamFaults stream = some g ∧ g.engine.next W b = some e ∧
      (∀ c, b ≠ .process c) ∧ r' = r.deliver stream g { g with engine := e } := by
  have hb : ∀ c, b ≠ .process c := by
    rintro c rfl
    cases h
  have hgo : ((r.streamFaults stream).bind fun g =>
      (g.engine.next W b).map fun e => r.deliver stream g { g with engine := e }) = some r' := by
    cases b with
    | process c => exact absurd rfl (hb c)
    | _ => exact h
  obtain ⟨g, hg, hgo⟩ := Option.bind_eq_some_iff.mp hgo
  obtain ⟨e, he, rfl⟩ := Option.map_eq_some_iff.mp hgo
  exact ⟨g, e, hg, he, hb, rfl⟩

theorem ScenarioRunner.Fits.record {r : ScenarioRunner ω D} {pre : List (StreamConfig D)}
    (hr : r.Fits sc pre) (stream : String) (a : Arrival) : (r.record W stream a).Fits sc pre := by
  unfold ScenarioRunner.record
  split
  · next g hg =>
    have hfits := hr.fits stream g hg
    refine hr.deliver hg ?_ ?_ ?_ ?_ ?_
    · rfl
    · exact process_rules _ _
    · rw [process_calls, hfits.calls, List.map_append]
      rfl
    · exact hfits.fromCalls.process _
    · exact process_written _ _
  · next hnone =>
    split
    · next i hi => exact hr.modify (metricsFor_name hi) (.inl hnone) fun m => rfl
    · exact hr

theorem ScenarioRunner.Fits.readCan {r : ScenarioRunner ω D} {pre : List (StreamConfig D)}
    (hr : r.Fits sc pre) {c : CanReader} (hc : r.canReader = some c) (f : CanFrame) (nowUs : UInt32)
    (now : Int) : (r.readCan c f nowUs now).Fits sc pre := by
  have hcan := hr.canReader c hc
  have hrecorded := hr.modify hcan (.inr rfl)
    (h := fun m => m.record (Double.ofInt (nowUs - f.sentUs).toNat / Double.ofInt 1000)
      (seconds (now - r.startTime)) (c.havePrevSeq && f.seq != c.prevSeq + 1)) fun m => rfl
  refine { hrecorded with canReader := fun c' hc' => ?_ }
  cases hc'
  exact hrecorded.canReader c hc

theorem ScenarioRunner.Fits.next {r r' : ScenarioRunner ω D} {pre : List (StreamConfig D)}
    (hr : r.Fits sc pre) {a : RunnerAction D} (h : r.next W a = some r') : r'.Fits sc pre := by
  cases a with
  | message stream a =>
    simp only [ScenarioRunner.next] at h
    split at h <;> cases h
    exact hr.record stream a
  | canFrame f nowUs now =>
    obtain ⟨c, hc, rfl⟩ := Option.map_eq_some_iff.mp h
    exact hr.readCan hc f nowUs now
  | engine stream b =>
    obtain ⟨g, e, hg, he, hb, rfl⟩ := engineAction_next h
    have hfits := hr.fits stream g hg
    have hcarries := next_carries he hb
    refine hr.deliver hg ?_ ?_ ?_ ?_ ?_
    · rfl
    · exact hcarries.rules
    · rw [hcarries.calls, hfits.calls]
    · exact hcarries.fromCalls hfits.fromCalls
    · obtain ⟨ws, hws, _⟩ := hcarries.written
      exact ⟨ws, hws⟩
  | stopCanReader =>
    cases h
    exact { hr with canReader := fun c hc => nomatch hc }

/-- What every step of an engine keeps, the runner keeps of the engine of a stream. -/
theorem next_engine {P : FaultEngine ω D → Prop} (hprocess : ∀ e c, P e → P (e.process W c))
    (hnext : ∀ e e' b, P e → (∀ c, b ≠ .process c) → e.next W b = some e' → P e')
    {r r' : ScenarioRunner ω D} {a : RunnerAction D} (h : r.next W a = some r') {stream : String}
    (hr : ∀ g, r.streamFaults stream = some g → P g.engine) :
    ∀ g, r'.streamFaults stream = some g → P g.engine := by
  have hdeliver : ∀ other g g', r.streamFaults other = some g → (P g.engine → P g'.engine) →
      ∀ u, (r.deliver other g g').streamFaults stream = some u → P u.engine := by
    intro other g g' hg hP u hu
    by_cases ho : stream = other
    · subst ho
      simp only [ScenarioRunner.deliver, Function.update_self, Option.some.injEq] at hu
      exact hu ▸ hP (hr g hg)
    · simp only [ScenarioRunner.deliver, Function.update_of_ne ho] at hu
      exact hr u hu
  cases a with
  | message other a =>
    simp only [ScenarioRunner.next] at h
    split at h <;> cases h
    unfold ScenarioRunner.record
    split
    · next g hg => exact hdeliver other g _ hg (hprocess _ _)
    · split <;> exact hr
  | canFrame f nowUs now =>
    obtain ⟨c, _, rfl⟩ := Option.map_eq_some_iff.mp h
    exact hr
  | engine other b =>
    obtain ⟨g, e, hg, he, hb, rfl⟩ := engineAction_next h
    exact hdeliver other g _ hg fun hP => hnext _ _ b hP hb he
  | stopCanReader =>
    cases h
    exact hr

theorem StreamFault.Fits.append {g : StreamFault ω D} {startTime : Int}
    {metrics : List (StreamMetrics D)} {stream : String} (hg : g.Fits sc startTime metrics stream)
    (m : StreamMetrics D) : g.Fits sc startTime (metrics ++ [m]) stream where
  rules := hg.rules
  captured := by
    obtain ⟨hlt, _⟩ := List.getElem?_eq_some_iff.mp hg.captured
    rw [List.map_append, List.getElem?_append_left hlt, hg.captured]
  calls := hg.calls
  fromCalls := hg.fromCalls
  recorded := fun hcan => by
    obtain ⟨m', hm', hl⟩ := hg.recorded hcan
    obtain ⟨hlt, _⟩ := List.getElem?_eq_some_iff.mp hm'
    exact ⟨m', by rw [List.getElem?_append_left hlt, hm'], hl⟩

theorem ScenarioRunner.Fits.addMetrics {r : ScenarioRunner ω D} {pre : List (StreamConfig D)}
    (hr : r.Fits sc pre) (s : StreamConfig D) : (r.addMetrics s).Fits sc pre where
  scenario := hr.scenario
  subs := hr.subs
  engines := hr.engines
  fits := fun stream g hg => (hr.fits stream g hg).append _
  canReader := fun c hc => by
    have hcan := hr.canReader c hc
    obtain ⟨hlt, _⟩ := List.getElem?_eq_some_iff.mp hcan
    rw [ScenarioRunner.addMetrics, List.map_append, List.getElem?_append_left hlt, hcan]

/-- The engine of the stream that was added last captures its metrics, still empty. -/
theorem ScenarioRunner.Fits.buildEngine {worlds : String → ω} {r : ScenarioRunner ω D}
    {pre : List (StreamConfig D)} (hr : r.Fits sc pre) {s : StreamConfig D}
    {ms : List (StreamMetrics D)} {m : StreamMetrics D} (hms : r.metrics = ms ++ [m])
    (hname : m.name = s.name) (hfresh : m.latenciesMs = []) :
    (r.buildEngine worlds s.name).Fits sc (pre ++ [s]) := by
  have hold : ∀ s' ∈ pre ++ [s], s' ≠ s → s' ∈ pre := fun s' hs' hne => by
    simpa [hne] using hs'
  unfold ScenarioRunner.buildEngine
  split
  · unfold ScenarioRunner.emplace
    split
    · next hsome =>
      refine { hr with engines := fun s' hs' hf => ?_ }
      by_cases heq : s' = s
      · exact heq ▸ Option.isSome_iff_exists.mp hsome
      · exact hr.engines s' (hold s' hs' heq) hf
    · next hnone =>
      refine { hr with engines := fun s' hs' hf => ?_, fits := fun stream g hg => ?_ }
      · by_cases heq : s'.name = s.name
        · simp only [heq, Function.update_self, Option.some.injEq, exists_eq']
        · simp only [Function.update_of_ne heq]
          exact hr.engines s' (hold s' hs' fun h => heq (congrArg _ h)) hf
      · by_cases heq : stream = s.name
        · subst heq
          simp only [Function.update_self, Option.some.injEq] at hg
          subst hg
          have hlast : r.metrics[r.metrics.length - 1]? = some m := by simp [hms]
          refine ⟨by rw [hr.scenario], ?_, rfl, fun f hf => by simp [FaultEngine.frames,
            FaultEngine.waiting] at hf, fun _ => ⟨m, hlast, hfresh⟩⟩
          rw [List.getElem?_map, hlast, Option.map_some, hname]
        · simp only [Function.update_of_ne heq] at hg
          exact hr.fits stream g hg
  · next hany =>
    refine { hr with engines := fun s' hs' hf => ?_ }
    by_cases heq : s' = s
    · obtain ⟨f, hmem, hf⟩ := hf
      refine absurd (List.any_eq_true.mpr ⟨f, hr.scenario ▸ hmem, ?_⟩) hany
      simpa [heq] using hf
    · exact hr.engines s' (hold s' hs' heq) hf

theorem ScenarioRunner.Fits.subscribeStream {r r' : ScenarioRunner ω D}
    {pre : List (StreamConfig D)} (hr : r.Fits sc pre) {stream : String}
    (h : r.subscribeStream stream = some r') : r'.Fits sc pre := by
  unfold ScenarioRunner.subscribeStream at h
  split at h
  · next hros =>
    cases h
    refine { hr with subs := fun n hn => ?_ }
    rcases List.mem_append.mp hn with hn | hn
    · exact hr.subs n hn
    · rwa [List.mem_singleton.mp hn]
  · split at h
    · next hcan =>
      unfold ScenarioRunner.startCanReader at h
      split at h
      · cases h
        exact hr
      · next i hi =>
        split at h <;> cases h
        refine { hr with canReader := fun c hc => ?_ }
        cases hc
        exact hcan ▸ metricsFor_name hi
    · cases h
      exact hr

theorem start_fits {startTime : Int} {worlds : String → ω} {r : ScenarioRunner ω D}
    (h : ScenarioRunner.start sc startTime worlds = some r) : r.Fits sc sc.streams := by
  have hfold : ∀ (todo pre : List (StreamConfig D)) (r₀ : ScenarioRunner ω D), r₀.Fits sc pre →
      todo.foldlM (ScenarioRunner.addStream worlds) r₀ = some r → r.Fits sc (pre ++ todo) := by
    intro todo
    induction todo with
    | nil =>
      intro pre r₀ hr h
      cases h
      rwa [List.append_nil]
    | cons s todo ih =>
      intro pre r₀ hr h
      rw [List.foldlM_cons] at h
      obtain ⟨r₁, hr₁, h⟩ := Option.bind_eq_some_iff.mp h
      rw [← List.singleton_append, ← List.append_assoc]
      exact ih _ _ (((hr.addMetrics s).buildEngine rfl rfl rfl).subscribeStream hr₁) h
  apply hfold sc.streams [] _ _ h
  exact ⟨rfl, by simp, by simp, by simp, by simp⟩

theorem reachable_fits {r : ScenarioRunner ω D} (h : (system W sc).Reachable anyStep r) :
    r.Fits sc sc.streams := by
  apply h.invariant
  · rintro s ⟨startTime, worlds, hs⟩
    exact start_fits hs
  · intro s a t hs _ hn
    exact hs.next hn

end SensorForge.Scenarios
