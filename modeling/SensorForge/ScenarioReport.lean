import SensorForge.DropRate

/-! The report of a scenario. It is read from one flat map of metrics, in which the keys of
the streams and those of the transport are concatenated texts. -/

namespace SensorForge.Scenarios

open Faults

structure ScenarioResult where
  scenarioName : String
  passed : Bool := false
  assertions : List AssertionResult := []

def CompareOp.toString : CompareOp → String
  | .kLessThan => "less_than"
  | .kGreaterThan => "greater_than"
  | .kEquals => "equals"
  | .kNotEquals => "not_equals"
  | .kUnknown => "unknown"

structure AssertionReport where
  metric : String
  op : String
  threshold : ℚ := 0
  actual : ℚ := 0
  found : Bool := false
  passed : Bool := false

structure SensorMetrics where
  msgsSec : ℚ := 0
  dropRatePct : ℚ := 0
  latencyP50Ms : ℚ := 0
  latencyP99Ms : ℚ := 0
  latencyP999Ms : ℚ := 0
  sequenceGaps : Nat := 0
  received : Nat := 0

structure TransportMetrics where
  bytesSec : ℚ := 0
  crcFailures : Nat := 0
  sequenceGaps : Nat := 0
  retransmits : Nat := 0

structure ScenarioReport where
  scenario : String
  timestamp : String
  durationSeconds : ℚ := 0
  passed : Bool := false
  assertions : List AssertionReport := []
  perSensor : String → Option SensorMetrics := fun _ => none
  transport : TransportMetrics := {}
  replayRecoveryMs : ℚ := 0

def metricOr (m : MetricMap) (key : String) (fallback : ℚ := 0) : ℚ := (m key).getD fallback

def AssertionResult.report (a : AssertionResult) : AssertionReport where
  metric := a.metric
  op := a.op.toString
  threshold := a.threshold
  actual := a.actual
  found := a.found
  passed := a.passed

/-- `static_cast<uint64_t>` truncates. -/
def sensorMetrics (metrics : MetricMap) (s : String) : SensorMetrics where
  msgsSec := metricOr metrics (s ++ "_msgs_per_sec")
  dropRatePct := metricOr metrics (s ++ "_drop_rate_pct")
  latencyP50Ms := metricOr metrics (s ++ "_latency_p50_ms")
  latencyP99Ms := metricOr metrics (s ++ "_latency_p99_ms")
  latencyP999Ms := metricOr metrics (s ++ "_latency_p999_ms")
  sequenceGaps := ⌊metricOr metrics (s ++ "_sequence_gaps")⌋₊
  received := ⌊metricOr metrics (s ++ "_received")⌋₊

/-- `now` is `iso8601_now()`. -/
def buildReport (now : String) (result : ScenarioResult) (metrics : MetricMap)
    (streams : List String) (durationSeconds : ℚ) : ScenarioReport where
  scenario := result.scenarioName
  timestamp := now
  durationSeconds := durationSeconds
  passed := result.passed
  assertions := result.assertions.map AssertionResult.report
  perSensor := streams.foldl (fun perSensor s =>
    Function.update perSensor s (some (sensorMetrics metrics s))) fun _ => none
  transport :=
    { bytesSec := metricOr metrics "transport_bytes_sec"
      crcFailures := ⌊metricOr metrics "transport_crc_failures"⌋₊
      sequenceGaps := ⌊metricOr metrics "transport_sequence_gaps"⌋₊
      retransmits := ⌊metricOr metrics "transport_retransmits"⌋₊ }
  replayRecoveryMs := metricOr metrics "replay_recovery_ms"

/-- Every stream's metrics, emitted into one map as `finish` does. -/
def emitAll (ms : List (StreamMetrics ℚ)) : MetricMap :=
  ms.foldl (fun out m => m.emit out) fun _ => none

/-- The report on the streams, in the order of the scenario. -/
def reportOf (now : String) (result : ScenarioResult) (durationSeconds : ℚ)
    (ms : List (StreamMetrics ℚ)) : ScenarioReport :=
  buildReport now result (emitAll ms) (ms.map StreamMetrics.name) durationSeconds

/-- What a stream has derived itself. -/
def StreamMetrics.sensor (m : StreamMetrics ℚ) : SensorMetrics where
  msgsSec := m.msgsPerSec
  dropRatePct := m.dropRatePct
  latencyP50Ms := m.pct (50 / 100)
  latencyP99Ms := m.pct (99 / 100)
  latencyP999Ms := m.pct (999 / 1000)
  sequenceGaps := m.sequenceGaps
  received := m.received

/-- Every entry is the stream's own, and what is not about a stream depends on none. -/
structure Attributes (now : String) (result : ScenarioResult) (durationSeconds : ℚ)
    (ms : List (StreamMetrics ℚ)) : Prop where
  perSensor : ∀ m ∈ ms,
    (reportOf now result durationSeconds ms).perSensor m.name = some m.sensor
  transport : ∀ ms' result', ms'.map StreamMetrics.name = ms.map StreamMetrics.name →
    (reportOf now result' durationSeconds ms').transport =
      (reportOf now result durationSeconds ms).transport
  replayRecoveryMs : ∀ ms' result', ms'.map StreamMetrics.name = ms.map StreamMetrics.name →
    (reportOf now result' durationSeconds ms').replayRecoveryMs =
      (reportOf now result durationSeconds ms).replayRecoveryMs

/-- The texts that `emit` puts behind the name of a stream, with the values. -/
def StreamMetrics.emitted (m : StreamMetrics ℚ) : List (String × ℚ) :=
  [("_msgs_per_sec", m.msgsPerSec), ("_drop_rate_pct", m.dropRatePct),
    ("_latency_p50_ms", m.pct (50 / 100)), ("_latency_p99_ms", m.pct (99 / 100)),
    ("_latency_p999_ms", m.pct (999 / 1000)), ("_sequence_gaps", m.sequenceGaps),
    ("_received", m.received)]

def StreamMetrics.entries (m : StreamMetrics ℚ) : List (String × Option ℚ) :=
  m.emitted.map fun e => (m.name ++ e.1, some e.2)

def metricSuffixes : List String :=
  ["_msgs_per_sec", "_drop_rate_pct", "_latency_p50_ms", "_latency_p99_ms", "_latency_p999_ms",
    "_sequence_gaps", "_received"]

/-- What is read from the map under a fixed key that no stream can emit. -/
def freeKeys : List String :=
  ["transport_bytes_sec", "transport_crc_failures", "transport_retransmits", "replay_recovery_ms"]

section Update

variable {κ ν : Type} [DecidableEq κ]

theorem foldl_update_of_notMem {es : List (κ × ν)} {k : κ} (h : ∀ e ∈ es, e.1 ≠ k) (out : κ → ν) :
    es.foldl (fun out e => Function.update out e.1 e.2) out k = out k := by
  induction es generalizing out with
  | nil => rfl
  | cons e es ih =>
    rw [List.foldl_cons, ih fun e' he' => h e' (by simp [he'])]
    exact Function.update_of_ne (h e (by simp)).symm _ _

theorem foldl_update_of_mem {es : List (κ × ν)} {k : κ} {v : ν} (hmem : (k, v) ∈ es)
    (honly : ∀ e ∈ es, e.1 = k → e.2 = v) (out : κ → ν) :
    es.foldl (fun out e => Function.update out e.1 e.2) out k = v := by
  induction es generalizing out with
  | nil => simp at hmem
  | cons e es ih =>
    rw [List.foldl_cons]
    by_cases hlater : (k, v) ∈ es
    · exact ih hlater (fun e' he' => honly e' (by simp [he'])) _
    · have hrest : ∀ e' ∈ es, e'.1 ≠ k := by
        intro e' he' hk
        have hv : e'.2 = v := honly e' (by simp [he']) hk
        have heq : e' = (k, v) := Prod.ext hk hv
        exact hlater (heq ▸ he')
      have he : (k, v) = e := (List.mem_cons.mp hmem).resolve_right hlater
      rw [foldl_update_of_notMem hrest, ← he]
      exact Function.update_self _ _ _

end Update

theorem emitAll_eq (ms : List (StreamMetrics ℚ)) :
    emitAll ms = (ms.flatMap StreamMetrics.entries).foldl
      (fun out e => Function.update out e.1 e.2) fun _ => none := by
  rw [List.foldl_flatMap]
  rfl

/-- No suffix ends another, so that a key can be read in one way only. -/
theorem metricSuffixes_suffixFree :
    ∀ s ∈ metricSuffixes, ∀ t ∈ metricSuffixes, s.toList <:+ t.toList → s = t := by
  decide

theorem key_inj {a b s t : String} (hs : s ∈ metricSuffixes) (ht : t ∈ metricSuffixes)
    (h : a ++ s = b ++ t) : a = b ∧ s = t := by
  have hlist : a.toList ++ s.toList = b.toList ++ t.toList := by
    rw [← String.toList_append, ← String.toList_append, h]
  have hst : s = t := by
    have hs' : s.toList <:+ a.toList ++ s.toList := List.suffix_append _ _
    have ht' : t.toList <:+ a.toList ++ s.toList := hlist ▸ List.suffix_append _ _
    rcases List.suffix_or_suffix_of_suffix hs' ht' with hsuffix | hsuffix
    · exact metricSuffixes_suffixFree s hs t ht hsuffix
    · exact (metricSuffixes_suffixFree t ht s hs hsuffix).symm
  subst hst
  exact ⟨(String.append_left_inj s).mp h, rfl⟩

theorem freeKeys_not_emitted : ∀ k ∈ freeKeys, ∀ s ∈ metricSuffixes, ¬s.toList <:+ k.toList := by
  decide

theorem emitted_suffix {m : StreamMetrics ℚ} {e : String × ℚ} (he : e ∈ m.emitted) :
    e.1 ∈ metricSuffixes :=
  List.mem_map_of_mem (f := Prod.fst) he

theorem emitted_unique {m : StreamMetrics ℚ} {e e' : String × ℚ} (he : e ∈ m.emitted)
    (he' : e' ∈ m.emitted) (h : e.1 = e'.1) : e = e' := by
  have hnodup : (m.emitted.map Prod.fst).Nodup := by
    show metricSuffixes.Nodup
    decide
  exact List.inj_on_of_nodup_map hnodup he he' h

section Keys

variable {ms : List (StreamMetrics ℚ)}

theorem emitAll_none {key : String}
    (h : ∀ m ∈ ms, ∀ s ∈ metricSuffixes, m.name ++ s ≠ key) : emitAll ms key = none := by
  rw [emitAll_eq]
  apply foldl_update_of_notMem
  intro x hx
  obtain ⟨m, hm, hx⟩ := List.mem_flatMap.mp hx
  obtain ⟨e, he, rfl⟩ := List.mem_map.mp hx
  exact h m hm e.1 (emitted_suffix he)

theorem emitAll_free {key : String} (hkey : key ∈ freeKeys) : emitAll ms key = none := by
  apply emitAll_none
  intro m _ s hs h
  apply freeKeys_not_emitted key hkey s hs
  rw [← h, String.toList_append]
  exact List.suffix_append _ _

/-- With distinct names, a key that a stream emits holds that stream's value. -/
theorem emitAll_own (hnames : (ms.map StreamMetrics.name).Nodup) {m : StreamMetrics ℚ}
    (hm : m ∈ ms) {e : String × ℚ} (he : e ∈ m.emitted) :
    emitAll ms (m.name ++ e.1) = some e.2 := by
  rw [emitAll_eq]
  apply foldl_update_of_mem
  · exact List.mem_flatMap.mpr ⟨m, hm, List.mem_map.mpr ⟨e, he, rfl⟩⟩
  · intro x hx hkey
    obtain ⟨m', hm', hx⟩ := List.mem_flatMap.mp hx
    obtain ⟨e', he', rfl⟩ := List.mem_map.mp hx
    obtain ⟨hname, hsuffix⟩ := key_inj (emitted_suffix he') (emitted_suffix he) hkey
    have hmm : m' = m := List.inj_on_of_nodup_map hnames hm' hm hname
    subst hmm
    rw [emitted_unique he' he hsuffix]

theorem metricOr_own (hnames : (ms.map StreamMetrics.name).Nodup) {m : StreamMetrics ℚ}
    (hm : m ∈ ms) {suffix : String} {value : ℚ} (he : (suffix, value) ∈ m.emitted) :
    metricOr (emitAll ms) (m.name ++ suffix) = value := by
  rw [metricOr, emitAll_own hnames hm he, Option.getD_some]

theorem metricOr_free (ms : List (StreamMetrics ℚ)) (key : String) (hkey : key ∈ freeKeys) :
    metricOr (emitAll ms) key = 0 := by
  rw [metricOr, emitAll_free hkey, Option.getD_none]

theorem sensorMetrics_own (hnames : (ms.map StreamMetrics.name).Nodup) {m : StreamMetrics ℚ}
    (hm : m ∈ ms) : sensorMetrics (emitAll ms) m.name = m.sensor := by
  have hgaps : metricOr (emitAll ms) (m.name ++ "_sequence_gaps") = (m.sequenceGaps : ℚ) :=
    metricOr_own hnames hm (by simp [StreamMetrics.emitted])
  have hreceived : metricOr (emitAll ms) (m.name ++ "_received") = (m.received : ℚ) :=
    metricOr_own hnames hm (by simp [StreamMetrics.emitted])
  rw [sensorMetrics, hgaps, hreceived, Nat.floor_natCast, Nat.floor_natCast,
    StreamMetrics.sensor]
  congr 1 <;> exact metricOr_own hnames hm (by simp [StreamMetrics.emitted])

variable (now : String) (result : ScenarioResult) (durationSeconds : ℚ)

theorem reportOf_perSensor (hnames : (ms.map StreamMetrics.name).Nodup) {m : StreamMetrics ℚ}
    (hm : m ∈ ms) : (reportOf now result durationSeconds ms).perSensor m.name = some m.sensor := by
  have hfold : (reportOf now result durationSeconds ms).perSensor =
      ((ms.map StreamMetrics.name).map fun s => (s, some (sensorMetrics (emitAll ms) s))).foldl
        (fun out e => Function.update out e.1 e.2) fun _ => none := by
    rw [List.foldl_map]
    rfl
  rw [hfold, ← sensorMetrics_own hnames hm]
  apply foldl_update_of_mem
  · exact List.mem_map.mpr ⟨m.name, List.mem_map_of_mem hm, rfl⟩
  · intro e he hkey
    obtain ⟨s, _, rfl⟩ := List.mem_map.mp he
    exact congrArg (fun s => some (sensorMetrics (emitAll ms) s)) hkey

/-- The only field of the transport that a stream can reach. -/
theorem reportOf_transport : (reportOf now result durationSeconds ms).transport =
    { sequenceGaps := ⌊metricOr (emitAll ms) "transport_sequence_gaps"⌋₊ } := by
  rw [reportOf, buildReport]
  dsimp only
  rw [metricOr_free ms "transport_bytes_sec" (by decide),
    metricOr_free ms "transport_crc_failures" (by decide),
    metricOr_free ms "transport_retransmits" (by decide), Nat.floor_zero]

theorem reportOf_replayRecoveryMs :
    (reportOf now result durationSeconds ms).replayRecoveryMs = 0 :=
  metricOr_free ms "replay_recovery_ms" (by decide)

theorem transport_of_notMem (h : "transport" ∉ ms.map StreamMetrics.name) :
    (reportOf now result durationSeconds ms).transport = {} := by
  have hnone : emitAll ms "transport_sequence_gaps" = none := by
    apply emitAll_none
    intro m hm s hs hkey
    have hname : m.name = "transport" :=
      (key_inj hs (t := "_sequence_gaps") (by decide) hkey).1
    exact h (hname ▸ List.mem_map_of_mem hm)
  rw [reportOf_transport, metricOr, hnone, Option.getD_none, Nat.floor_zero]

theorem transport_sequenceGaps (hnames : (ms.map StreamMetrics.name).Nodup)
    {m : StreamMetrics ℚ} (hm : m ∈ ms) (hname : m.name = "transport") :
    (reportOf now result durationSeconds ms).transport.sequenceGaps = m.sequenceGaps := by
  have hgaps : metricOr (emitAll ms) (m.name ++ "_sequence_gaps") = (m.sequenceGaps : ℚ) :=
    metricOr_own hnames hm (by simp [StreamMetrics.emitted])
  rw [hname] at hgaps
  rw [reportOf_transport]
  exact (congrArg _ hgaps).trans (Nat.floor_natCast _)

/-- One more message, after a gap, on the stream that is called like the transport. -/
def recordGap (m : StreamMetrics ℚ) : StreamMetrics ℚ :=
  if m.name = "transport" then m.recordLatency 0 true else m

theorem map_recordGap_name (ms : List (StreamMetrics ℚ)) :
    (ms.map recordGap).map StreamMetrics.name = ms.map StreamMetrics.name := by
  rw [List.map_map]
  apply List.map_congr_left
  intro m _
  by_cases h : m.name = "transport" <;> simp [recordGap, h, StreamMetrics.recordLatency]

theorem report_attributes_iff (hnames : (ms.map StreamMetrics.name).Nodup) :
    Attributes now result durationSeconds ms ↔ "transport" ∉ ms.map StreamMetrics.name := by
  constructor
  · intro hattributes hmem
    obtain ⟨m, hm, hname⟩ := List.mem_map.mp hmem
    have hsame := map_recordGap_name ms
    have hgaps := transport_sequenceGaps now result durationSeconds hnames hm hname
    have hgaps' : (reportOf now result durationSeconds (ms.map recordGap)).transport.sequenceGaps =
        m.sequenceGaps + 1 := by
      have hm' : m.recordLatency 0 true ∈ ms.map recordGap :=
        List.mem_map.mpr ⟨m, hm, if_pos hname⟩
      exact transport_sequenceGaps now result durationSeconds (hsame ▸ hnames) hm' hname
    rw [hattributes.transport _ result hsame, hgaps] at hgaps'
    omega
  · intro hno
    refine ⟨?_, ?_, ?_⟩
    · intro m hm
      exact reportOf_perSensor now result durationSeconds hnames hm
    · intro ms' result' hsame
      rw [transport_of_notMem now result durationSeconds hno,
        transport_of_notMem now result' durationSeconds (hsame ▸ hno)]
    · intro ms' result' _
      rw [reportOf_replayRecoveryMs, reportOf_replayRecoveryMs]

theorem report_attributes_camera : Attributes "" { scenarioName := "urban" } 10
    [recorded "camera" 30 10 [⟨12, 0, false⟩], recorded "lidar" 10 10 []] :=
  (report_attributes_iff "" { scenarioName := "urban" } 10 (by decide)).mpr (by decide)

end Keys

/-- A message that follows a gap, on a stream called "transport", is counted as a gap of the
transport. -/
theorem report_misattributes : ¬∀ (now : String) (result : ScenarioResult) (durationSeconds : ℚ)
    (ms : List (StreamMetrics ℚ)), (ms.map StreamMetrics.name).Nodup →
      Attributes now result durationSeconds ms := by
  intro h
  have hattributes := h "" { scenarioName := "urban" } 10 [recorded "transport" 10 10 []]
    (by decide)
  have hsame := hattributes.transport [recorded "transport" 10 10 [⟨5, 1, true⟩]]
    { scenarioName := "urban" } rfl
  have hgaps : (reportOf "" { scenarioName := "urban" } 10
      [recorded "transport" 10 10 []]).transport.sequenceGaps = 0 :=
    transport_sequenceGaps _ _ _ (by decide) (List.mem_singleton_self _) rfl
  have hgaps' : (reportOf "" { scenarioName := "urban" } 10
      [recorded "transport" 10 10 [⟨5, 1, true⟩]]).transport.sequenceGaps = 1 :=
    transport_sequenceGaps _ _ _ (by decide) (List.mem_singleton_self _) rfl
  rw [hsame, hgaps] at hgaps'
  cases hgaps'

end SensorForge.Scenarios
