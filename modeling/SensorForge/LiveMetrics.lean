import SensorForge.DashboardSeries
import SensorForge.ScenarioReport

/-! The metrics of a running scenario from its streams to the dashboard: the timer that sets
the gauges, the exporter that renders them at any time between two of its calls, and the polls
of the dashboard. -/

namespace SensorForge.Dashboard

open GeneralFormat Http LatestByKey Metrics PythonText Scenarios Transition

/-- What `update_registry` sets for a stream. -/
inductive Gauge
  | msgsPerSec
  | dropRatePct
  | latencyP50Ms
  | latencyP99Ms
  | queueOccupancy
  | sequenceGaps
  deriving DecidableEq

def Gauge.metric : Gauge → Text
  | .msgsPerSec => "sensorforge_msgs_per_sec".toList
  | .dropRatePct => "sensorforge_drop_rate_pct".toList
  | .latencyP50Ms => "sensorforge_latency_p50_ms".toList
  | .latencyP99Ms => "sensorforge_latency_p99_ms".toList
  | .queueOccupancy => "sensorforge_queue_occupancy".toList
  | .sequenceGaps => "sensorforge_sequence_gaps".toList

/-- The key of the emitted metrics, behind the name of the stream. -/
def Gauge.suffix : Gauge → String
  | .msgsPerSec => "_msgs_per_sec"
  | .dropRatePct => "_drop_rate_pct"
  | .latencyP50Ms => "_latency_p50_ms"
  | .latencyP99Ms => "_latency_p99_ms"
  | .queueOccupancy => "_received"
  | .sequenceGaps => "_sequence_gaps"

def Gauge.value (m : StreamMetrics ℚ) : Gauge → ℚ
  | .msgsPerSec => m.msgsPerSec
  | .dropRatePct => m.dropRatePct
  | .latencyP50Ms => m.pct (50 / 100)
  | .latencyP99Ms => m.pct (99 / 100)
  | .queueOccupancy => m.received
  | .sequenceGaps => m.sequenceGaps

def gauges : List Gauge :=
  [.msgsPerSec, .dropRatePct, .latencyP50Ms, .latencyP99Ms, .queueOccupancy, .sequenceGaps]

/-- A gauge of a stream, with what the stream had recorded when its metrics were emitted. -/
abbrev Setting := StreamMetrics ℚ × Gauge

def Setting.call (q : Setting) : Call ℚ :=
  .setSensorGauge q.2.metric q.1.name.toList
    (metricOr (q.1.emit fun _ => none) (q.1.name ++ q.2.suffix))

/-- A poll, with the settings that had been made and the metrics that had been emitted by then. -/
structure Poll where
  time : ℚ
  written : List Setting
  emitted : List (StreamMetrics ℚ)
  perSensor : Option PerSensor

structure LiveMetrics where
  streams : List (StreamMetrics ℚ)
  next : Option Nat := none
  todo : List Setting := []
  registry : Registry ℚ
  board : Board := {}
  written : List Setting := []
  emitted : List (StreamMetrics ℚ) := []
  polls : List Poll := []

inductive LiveAction
  | record (i : Nat) (latencyMs arrivalS : ℚ) (gapBefore : Bool)
  | tick
  | emit
  | set
  | finished (passed : Bool)
  | poll (t : ℚ) (n : Nat)

/-- `raise_for_status` raises for the codes of errors. -/
def scrape (U : Unicode) (get : Octets → Option (Nat × Text)) (bytes : Octets) :
    Option (List Sample) :=
  (get bytes).bind fun (code, text) =>
    if 400 ≤ code ∧ code < 600 then none else some (parseExposition U text)

/-- The counter of `finish`. -/
def resultCounter (passed : Bool) : Text :=
  if passed then "sensorforge_scenarios_passed_total".toList
  else "sensorforge_scenarios_failed_total".toList

/-- The timer, and at the end `finish`, starts an update when the last has ended. An update
emits the metrics of each stream in turn and sets its gauges one by one. Of the request of a
poll `n` bytes arrive at once. -/
def LiveMetrics.step (U : Unicode) (get : Octets → Option (Nat × Text)) (request : Octets)
    (l : LiveMetrics) : LiveAction → Option LiveMetrics
  | .record i latencyMs arrivalS gapBefore =>
    some { l with streams := l.streams.modify i (·.record latencyMs arrivalS gapBefore) }
  | .tick => if l.next = none then some { l with next := some 0 } else none
  | .emit =>
    match l.next, l.todo with
    | some i, [] =>
      match l.streams[i]? with
      | none => some { l with next := none }
      | some m => some
        { l with
          next := some (i + 1)
          todo := gauges.map fun g => (m, g)
          emitted := l.emitted ++ [m] }
    | _, _ => none
  | .set =>
    match l.todo with
    | [] => none
    | q :: todo => some
      { l with
        todo
        registry := l.registry.call q.call
        written := l.written ++ [q] }
  | .finished passed =>
    if l.next = none then
      some { l with registry := l.registry.call (.addCounter (resultCounter passed) 1 ∅) }
    else none
  | .poll t n =>
    let result := (scrape U get (answer l.registry (request.take n)).write).map (l.board.pollOnce t)
    some
      { l with
        board := (result.map Prod.fst).getD l.board
        polls := l.polls ++ [⟨t, l.written, l.emitted, result.map Prod.snd⟩] }

/-- The registry when `start` has the exporter listen. -/
def startRegistry : Registry ℚ :=
  (({} : Registry ℚ).setHelp "sensorforge_msgs_per_sec".toList
    "Messages per second per sensor".toList).setHelp "sensorforge_latency_p99_ms".toList
    "p99 end-to-end latency (ms) per sensor".toList

/-- Nothing in the name ends a line or a label group. -/
def ReadableName (name : String) : Prop := ∀ c ∈ name.toList, c ≠ '}' ∧ isLineBreak c = false

def LiveMetrics.system (U : Unicode) (get : Octets → Option (Nat × Text)) (request : Octets) :
    System LiveMetrics LiveAction where
  start l := l = { streams := l.streams, registry := startRegistry } ∧
    ∀ m ∈ l.streams, ReadableName m.name
  next := LiveMetrics.step U get request

/-- `GET /metrics` with whatever follows it. -/
def metricsRequest (rest : Octets) : Octets :=
  utf8 "GET".toList ++ 0x20 :: (utf8 "/metrics".toList ++ 0x20 :: rest)

/-- A response that is written in UTF-8 and says so is read with its code and its text. -/
def ReadsUtf8 (get : Octets → Option (Nat × Text)) : Prop :=
  ∀ (r : Response) (text ctype : Text), r.Proper →
    r.headers.filter (·.1 = contentTypeName) =
      [(contentTypeName, utf8 (ctype ++ "; charset=utf-8".toList))] →
    r.body = utf8 text → get r.write = some (ofDecimal (r.status.takeWhile (· ≠ 0x20)), text)

/-- The gauge of a sensor as a poll shows it: what was last set, to six digits. -/
def Poll.shown (p : Poll) (g : Gauge) (k : Text) : Option Number :=
  (lastWith (fun q : Setting => (q.2, escape q.1.name.toList)) (g, k) p.written).map fun q =>
    nearest (roundedRat (g.value q.1))

def Poll.points (polls : List Poll) (g : Gauge) (k : Text) : List (ℚ × Number) :=
  polls.filterMap fun p => (p.shown g k).map fun v => (p.time, v)

def snapshots (written : List Setting) (g : Gauge) : List (StreamMetrics ℚ) :=
  (written.filter (·.2 = g)).map Prod.fst

/-- Every gauge shows the metrics as last emitted, or as emitted before that. -/
def Poll.Fresh (p : Poll) : Prop :=
  ∀ g, snapshots p.written g = p.emitted ∨ snapshots p.written g = p.emitted.dropLast

section Gauges

theorem metric_name (g : Gauge) : MetricName g.metric := by
  have hchars : g.metric.all isNameChar = true := by cases g <;> decide +kernel
  have hhead : ∃ rest, g.metric = 's' :: rest := by cases g <;> exact ⟨_, rfl⟩
  obtain ⟨rest, hrest⟩ := hhead
  rw [hrest, List.all_cons, Bool.and_eq_true] at hchars
  exact ⟨'s', rest, hrest, by decide, List.all_eq_true.mp hchars.2⟩

theorem metric_injective : Function.Injective Gauge.metric := by
  intro g h heq
  cases g <;> cases h <;> first | rfl | exact absurd heq (by decide)

theorem call_value (q : Setting) :
    metricOr (q.1.emit fun _ => none) (q.1.name ++ q.2.suffix) = q.2.value q.1 := by
  obtain ⟨m, g⟩ := q
  have hmem : (g.suffix, g.value m) ∈ m.emitted := by
    cases g <;> simp [Gauge.suffix, Gauge.value, StreamMetrics.emitted]
  exact @metricOr_own [m] (by simp) m (by simp) _ _ hmem

end Gauges

section Registry

variable {written : List Setting} {r : Registry ℚ}

def settingKey (q : Setting) : Text × Text := (q.2.metric, key (sensorLabels q.1.name.toList))

def Setting.series (q : Setting) : Series ℚ := ⟨sensorLabels q.1.name.toList, q.2.value q.1⟩

theorem counter_name (passed : Bool) : MetricName (resultCounter passed) := by
  have hchars : (resultCounter passed).all isNameChar = true := by cases passed <;> decide +kernel
  have hhead : ∃ rest, resultCounter passed = 's' :: rest := by cases passed <;> exact ⟨_, rfl⟩
  obtain ⟨rest, hrest⟩ := hhead
  rw [hrest, List.all_cons, Bool.and_eq_true] at hchars
  exact ⟨'s', rest, hrest, by decide, List.all_eq_true.mp hchars.2⟩

theorem metric_ne_counter (g : Gauge) (passed : Bool) : g.metric ≠ resultCounter passed := by
  cases g <;> cases passed <;> decide

/-- The registry has for every gauge and name what was last set, else only the counters without
labels, and no help text of several lines. -/
structure Holds (written : List Setting) (r : Registry ℚ) : Prop where
  filed : ∀ (g : Gauge) (k : Text), r.filed g.metric k =
    (lastWith settingKey (g.metric, k) written).map Setting.series
  others : ∀ (name k : Text) (s : Series ℚ), r.filed name k = some s →
    (∃ g : Gauge, name = g.metric) ∨ (∃ passed, name = resultCounter passed) ∧ s.labels.toList = []
  families : ∀ (name : Text) (fam : Family ℚ), r.families[name]? = some fam →
    MetricName name ∧ ∀ c ∈ fam.help, isLineBreak c = false

theorem families_withFamily {name : Text} {f : Family ℚ → Family ℚ}
    {P : Text → Family ℚ → Prop} (h : ∀ n fam, r.families[n]? = some fam → P n fam)
    (hf : P name (f (r.families[name]?.getD {}))) :
    ∀ n fam, (r.withFamily name f).families[n]? = some fam → P n fam := by
  intro n fam hfam
  rw [Registry.withFamily, Std.TreeMap.getElem?_alter] at hfam
  split at hfam
  · next heq =>
    obtain rfl : name = n := Std.LawfulEqCmp.eq_of_compare heq
    rwa [← Option.some.inj hfam]
  · exact h n fam hfam

theorem Holds.start : Holds [] startRegistry := by
  have hhelp : ∀ {r : Registry ℚ} {name help : Text}, Holds [] r → MetricName name →
      (∀ c ∈ help, isLineBreak c = false) → Holds [] (r.setHelp name help) := by
    intro r name help h hname hline
    have hfiled : ∀ n k, (r.setHelp name help).filed n k = r.filed n k :=
      fun n k => filed_call r (.setHelp name help) n k
    refine ⟨fun g k => ?_, fun n k s hs => ?_, families_withFamily h.families ⟨hname, hline⟩⟩
    · rw [hfiled, h.filed]
    · exact h.others n k s (hfiled n k ▸ hs)
  refine hhelp (hhelp ⟨fun g k => filed_empty g.metric k, fun name k s hs => ?_, ?_⟩
    (metric_name .msgsPerSec) ?_) (metric_name .latencyP99Ms) ?_
  · rw [filed_empty] at hs
    cases hs
  · intro name fam hfam
    simp at hfam
  · simp [isLineBreak]
  · simp [isLineBreak]

theorem Holds.help (h : Holds written r) (name : Text) :
    ∀ c ∈ (r.families[name]?.getD {}).help, isLineBreak c = false := by
  cases hfam : r.families[name]? with
  | none => exact fun c hc => absurd hc List.not_mem_nil
  | some fam => exact (h.families _ fam hfam).2

theorem Holds.call (h : Holds written r) (q : Setting) :
    Holds (written ++ [q]) (r.call q.call) := by
  have hcall : ∀ name k, (r.call q.call).filed name k =
      if q.2.metric = name ∧ key (sensorLabels q.1.name.toList) = k then some q.series
      else r.filed name k := by
    intro name k
    rw [filed_call, Setting.call, Call.write, call_value]
    rfl
  refine ⟨fun g k => ?_, fun name k s hs => ?_,
    families_withFamily h.families ⟨metric_name q.2, h.help _⟩⟩
  · rw [hcall, lastWith_concat]
    by_cases hkey : settingKey q = (g.metric, k)
    · obtain ⟨hname, hk⟩ := Prod.mk.inj hkey
      rw [if_pos hkey, if_pos ⟨hname, hk⟩]
      rfl
    · rw [if_neg hkey, if_neg fun h => hkey (Prod.ext h.1 h.2)]
      exact h.filed g k
  · rw [hcall] at hs
    split at hs
    · next hkey => exact .inl ⟨q.2, hkey.1.symm⟩
    · exact h.others name k s hs

theorem Holds.finished (h : Holds written r) (passed : Bool) :
    Holds written (r.call (.addCounter (resultCounter passed) 1 ∅)) := by
  have hcall : ∀ name k, resultCounter passed ≠ name →
      (r.call (.addCounter (resultCounter passed) 1 ∅)).filed name k = r.filed name k := by
    intro name k hname
    rw [filed_call, Call.write]
    exact if_neg fun h => hname h.1
  refine ⟨fun g k => ?_, fun name k s hs => ?_,
    families_withFamily h.families ⟨counter_name passed, h.help _⟩⟩
  · rw [hcall _ _ (metric_ne_counter g passed).symm, h.filed]
  · by_cases hname : resultCounter passed = name
    · rw [filed_call, Call.write] at hs
      dsimp only at hs
      split at hs
      · rw [← Option.some.inj hs]
        exact .inr ⟨⟨passed, hname.symm⟩, rfl⟩
      · exact h.others name k s hs
    · rw [hcall _ _ hname] at hs
      exact h.others name k s hs

theorem key_sensorLabels (sensor : Text) :
    key (sensorLabels sensor) = "sensor=".toList ++ (sensor ++ [';']) := by
  have hlist : (sensorLabels sensor).toList = [(['s', 'e', 'n', 's', 'o', 'r'], sensor)] := rfl
  rw [key, hlist]
  simp

theorem sensor_shownSeries (name : Text) (q : Setting) :
    (shownSeries (name, q.series)).sensor = some (escape q.1.name.toList) := rfl

theorem mem_of_lastWith {α κ : Type*} [DecidableEq κ] {key : α → κ} {k : κ} {xs : List α} {x : α}
    (h : lastWith key k xs = some x) : x ∈ xs ∧ key x = k :=
  ⟨List.mem_reverse.mp (List.mem_of_find?_eq_some h), by simpa using List.find?_some h⟩

theorem ne_of_lastWith {α κ : Type*} [DecidableEq κ] {key : α → κ} {k : κ} {xs : List α}
    (h : lastWith key k xs = none) : ∀ x ∈ xs, key x ≠ k := by
  intro x hx
  simpa using List.find?_eq_none.mp h x (List.mem_reverse.mpr hx)

theorem lastWith_congr {α κ κ' : Type*} [DecidableEq κ] [DecidableEq κ'] {key : α → κ}
    {key' : α → κ'} {k : κ} {k' : κ'} {xs : List α} (h : ∀ x ∈ xs, key x = k ↔ key' x = k') :
    lastWith key k xs = lastWith key' k' xs := by
  rw [lastWith, lastWith]
  refine List.find?_congr fun x hx => ?_
  simp [h x (List.mem_reverse.mp hx)]

theorem Holds.mem_series (h : Holds written r) {name : Text} {s : Series ℚ}
    (hs : (name, s) ∈ r.series) :
    (∃ q ∈ written, name = q.2.metric ∧ s = q.series ∧
      lastWith settingKey (settingKey q) written = some q) ∨
    (∃ passed, name = resultCounter passed) ∧ s.labels.toList = [] := by
  obtain ⟨k, hk⟩ := mem_series_iff.mp hs
  rcases h.others name k s hk with ⟨g, rfl⟩ | hcounter
  · rw [h.filed] at hk
    obtain ⟨q, hq, rfl⟩ := Option.map_eq_some_iff.mp hk
    obtain ⟨hmem, hkey⟩ := mem_of_lastWith hq
    exact .inl ⟨q, hmem, (congrArg Prod.fst hkey).symm, rfl, hkey ▸ hq⟩
  · exact .inr hcounter

theorem Holds.mem_gauge (h : Holds written r) {g : Gauge} {s : Text × Series ℚ}
    (hs : s ∈ r.series) (hname : s.1 = g.metric) :
    ∃ q ∈ written, q.2 = g ∧ s = (s.1, q.series) ∧
      lastWith settingKey (settingKey q) written = some q := by
  rcases h.mem_series hs with ⟨q, hq, hmetric, hseries, hlast⟩ | ⟨⟨passed, hcounter⟩, -⟩
  · exact ⟨q, hq, metric_injective (hmetric.symm.trans hname), Prod.ext rfl hseries, hlast⟩
  · exact absurd (hname.symm.trans hcounter) (metric_ne_counter g passed)

theorem sensor_labelName : LabelName "sensor".toList :=
  ⟨⟨'s', ['e', 'n', 's', 'o', 'r'], rfl, by decide,
    by simp [isNameChar, isNameStart, isAsciiLetter]⟩, by decide⟩

theorem Holds.plain (h : Holds written r) (hnames : ∀ q ∈ written, ReadableName q.1.name) :
    Plain r := by
  refine ⟨fun fam hfam => ?_, fun fam hfam => ?_, fun s hs => ?_⟩
  · exact (h.families _ _ (Std.TreeMap.mem_toList_iff_getElem?_eq_some.mp hfam)).1
  · exact (h.families _ _ (Std.TreeMap.mem_toList_iff_getElem?_eq_some.mp hfam)).2
  · rcases h.mem_series hs with ⟨q, hq, -, hseries, -⟩ | ⟨-, hnil⟩
    · have hlabel : ∀ label ∈ s.2.labels.toList, label = ("sensor".toList, q.1.name.toList) := by
        intro label hlabel
        rw [hseries] at hlabel
        exact List.mem_singleton.mp hlabel
      refine ⟨fun label hmem => ?_, fun label hmem => ?_⟩
      · rw [hlabel label hmem]
        exact sensor_labelName
      · rw [hlabel label hmem]
        exact hnames q hq
    · have hnone : ∀ label, label ∉ s.2.labels.toList := by simp [hnil]
      exact ⟨fun label hmem => absurd hmem (hnone label), fun label hmem =>
        absurd hmem (hnone label)⟩

/-- A poll reads for every gauge and sensor what was last set. -/
theorem Holds.lookup (h : Holds written r) (g : Gauge) (k : Text) :
    lookup (sensorValues (r.series.map shownSeries) g.metric) k =
      (lastWith (fun q : Setting => (q.2, escape q.1.name.toList)) (g, k) written).map fun q =>
        nearest (roundedRat (g.value q.1)) := by
  -- The key of a sensor and its escaped name tell the same settings apart.
  have hsame : ∀ q q' : Setting, settingKey q' = settingKey q ↔
      (q'.2, escape q'.1.name.toList) = (q.2, escape q.1.name.toList) := by
    intro q q'
    rw [settingKey, settingKey, Prod.mk.injEq, Prod.mk.injEq, metric_injective.eq_iff,
      escape_injective.eq_iff, key_sensorLabels, key_sensorLabels, List.append_cancel_left_eq,
      List.append_cancel_right_eq]
  cases hlast : lastWith (fun q : Setting => (q.2, escape q.1.name.toList)) (g, k) written with
  | none =>
    refine lookup_sensorValues_none fun sample hsample hname hsensor => ?_
    obtain ⟨s, hs, rfl⟩ := List.mem_map.mp hsample
    obtain ⟨q, hq, hg, hseries, -⟩ := h.mem_gauge hs hname
    rw [hseries, sensor_shownSeries] at hsensor
    exact ne_of_lastWith hlast q hq (Prod.ext hg (Option.some.inj hsensor))
  | some q =>
    obtain ⟨hq, hkey⟩ := mem_of_lastWith hlast
    obtain ⟨rfl, rfl⟩ := Prod.mk.inj hkey
    have hfiled : lastWith settingKey (settingKey q) written = some q := by
      rw [← hlast]
      exact lastWith_congr fun q' _ => hsame q q'
    have hmem : (q.2.metric, q.series) ∈ r.series :=
      mem_series_iff.mpr ⟨(settingKey q).2, by rw [h.filed]; exact congrArg _ hfiled⟩
    refine lookup_sensorValues_of_mem (s := shownSeries (q.2.metric, q.series))
      (List.mem_map_of_mem hmem) rfl (sensor_shownSeries _ q) ?_
    intro sample hsample hname hsensor
    obtain ⟨s, hs, rfl⟩ := List.mem_map.mp hsample
    obtain ⟨q', hq', hg, hseries, hlast'⟩ := h.mem_gauge hs hname
    rw [hseries, sensor_shownSeries] at hsensor
    rw [(hsame q q').mpr (Prod.ext hg (Option.some.inj hsensor)), hfiled] at hlast'
    rw [hseries, ← Option.some.inj hlast']
    rfl

end Registry

section Polls

variable {U : Unicode} {get : Octets → Option (Nat × Text)} {rest : Octets} {r : Registry ℚ}
  {written : List Setting}

/-- However little of the request has arrived, the answer is the registry. -/
theorem answer_metricsRequest (r : Registry ℚ) (rest : Octets) (n : Nat) :
    answer r ((metricsRequest rest).take n) =
      response (utf8 "200 OK".toList) (utf8 "text/plain; version=0.0.4; charset=utf-8".toList)
        (utf8 r.renderRat) := by
  have hget : Word (utf8 "GET".toList) := by simp [Word, utf8, String.utf8EncodeChar]
  have hmetrics : Word (utf8 "/metrics".toList) := by simp [Word, utf8, String.utf8EncodeChar]
  have hpath := requestPath_take hget hmetrics rest n
  rw [answer, metricsRequest, hpath]
  refine if_pos ?_
  split
  · exact .inl rfl
  · exact .inr rfl

theorem scrape_answer (hget : ReadsUtf8 get) (hr : Plain r) (n : Nat) :
    scrape U get (answer r ((metricsRequest rest).take n)).write =
      some (r.series.map shownSeries) := by
  have hproper : (response (utf8 "200 OK".toList)
      (utf8 "text/plain; version=0.0.4; charset=utf-8".toList) (utf8 r.renderRat)).Proper :=
    response_proper (by decide) ⟨by decide, by decide⟩ (utf8 r.renderRat)
  have hcode : ofDecimal ((utf8 "200 OK".toList).takeWhile (· ≠ 0x20)) = 200 := by decide
  have hread := hget _ r.renderRat "text/plain; version=0.0.4".toList hproper
    (response_contentType _ _ _) rfl
  rw [answer_metricsRequest, scrape, hread, Option.bind_some]
  dsimp only [response]
  rw [hcode, if_neg (by decide), parse_renderRat hr]

theorem no_samples (h : Holds written r) {name : Text} (hgauge : ∀ g : Gauge, g.metric ≠ name)
    (hcounter : ∀ passed, resultCounter passed ≠ name) :
    byName (r.series.map shownSeries) name = [] := by
  refine List.filter_eq_nil_iff.mpr fun sample hsample => ?_
  obtain ⟨s, hs, rfl⟩ := List.mem_map.mp hsample
  rcases h.mem_series hs with ⟨q, -, hmetric, -⟩ | ⟨⟨passed, hresult⟩, -⟩
  · simpa [shownSeries, hmetric] using hgauge q.2
  · simpa [shownSeries, hresult] using hcounter passed

end Polls

theorem points_concat (polls : List Poll) (p : Poll) (g : Gauge) (k : Text) :
    Poll.points (polls ++ [p]) g k =
      Poll.points polls g k ++ ((p.shown g k).map fun v => (p.time, v)).toList := by
  rw [Poll.points, List.filterMap_append, ← Poll.points]
  cases hshown : p.shown g k <;> simp [hshown]

theorem snapshots_append (xs ys : List Setting) (g : Gauge) :
    snapshots (xs ++ ys) g = snapshots xs g ++ snapshots ys g := by
  simp [snapshots]

/-- Every gauge is set once for each metrics that are emitted. -/
theorem snapshots_blocks (emitted : List (StreamMetrics ℚ)) (g : Gauge) :
    snapshots (emitted.flatMap fun m => gauges.map fun g => (m, g)) g = emitted := by
  induction emitted with
  | nil => rfl
  | cons m emitted ih =>
    rw [List.flatMap_cons, snapshots_append, ih]
    cases g <;> rfl

/-- The percentiles that a poll returns. -/
structure Percentiles (p : Poll) (perSensor : PerSensor) : Prop where
  p50 : ∀ k, perSensor k "p50".toList = p.shown .latencyP50Ms k
  p99 : ∀ k, perSensor k "p99".toList = p.shown .latencyP99Ms k
  p999 : ∀ k, perSensor k "p999".toList = none

/-- The board follows the polls. -/
structure Follows (b : Board) (polls : List Poll) : Prop where
  throughput : ∀ k, b.throughput k = Poll.points polls .msgsPerSec k
  dropRate : ∀ k, b.dropRate k = Poll.points polls .dropRatePct k
  crc : b.crc = polls.map fun p => (p.time, .num 0)

theorem Follows.pollOnce {b : Board} {polls : List Poll} {p : Poll} {r : Registry ℚ}
    (h : Follows b polls) (hr : Holds p.written r) :
    Follows (b.pollOnce p.time (r.series.map shownSeries)).1 (polls ++ [p]) ∧
      Percentiles p (b.pollOnce p.time (r.series.map shownSeries)).2 := by
  have hcrc : byName (r.series.map shownSeries) "sensorforge_crc_failures_total".toList = [] :=
    no_samples hr (by rintro (_ | _ | _ | _ | _ | _) <;> decide) (by rintro (_ | _) <;> decide)
  have hp999 : sensorValues (r.series.map shownSeries) "sensorforge_latency_p999_ms".toList = [] := by
    rw [sensorValues, no_samples hr (by rintro (_ | _ | _ | _ | _ | _) <;> decide)
      (by rintro (_ | _) <;> decide), List.foldl_nil]
  refine ⟨⟨fun k => ?_, fun k => ?_, ?_⟩, ⟨fun k => ?_, fun k => ?_, fun k => ?_⟩⟩
  · rw [points_concat, ← h.throughput, Poll.shown, ← hr.lookup]
    exact extend_apply sensorValues_nodup _ _ _
  · rw [points_concat, ← h.dropRate, Poll.shown, ← hr.lookup]
    exact extend_apply sensorValues_nodup _ _ _
  · rw [List.map_append, ← h.crc, Board.pollOnce, scalar, hcrc]
    rfl
  · rw [pollOnce_perSensor, if_neg (by decide), if_neg (by decide), if_pos rfl, Poll.shown,
      ← hr.lookup]
    rfl
  · rw [pollOnce_perSensor, if_neg (by decide), if_pos rfl, Poll.shown, ← hr.lookup]
    rfl
  · rw [pollOnce_perSensor, if_pos rfl, hp999]
    rfl

structure LiveMetrics.Inv (l : LiveMetrics) : Prop where
  streams : ∀ m ∈ l.streams, ReadableName m.name
  names : ∀ m ∈ l.emitted, ReadableName m.name
  program : l.written ++ l.todo = l.emitted.flatMap fun m => gauges.map fun g => (m, g)
  block : l.todo = [] ∨ ∃ m, l.emitted.getLast? = some m ∧ l.todo <:+ gauges.map fun g => (m, g)
  registry : Holds l.written l.registry
  board : Follows l.board l.polls
  polls : ∀ p ∈ l.polls, p.Fresh ∧ ∃ perSensor, p.perSensor = some perSensor ∧
    Percentiles p perSensor

section Invariant

variable {U : Unicode} {get : Octets → Option (Nat × Text)} {rest : Octets} {l t : LiveMetrics}

theorem LiveMetrics.Inv.written_names (h : l.Inv) : ∀ q ∈ l.written, ReadableName q.1.name := by
  intro q hq
  have hmem : q ∈ l.emitted.flatMap fun m => gauges.map fun g => (m, g) := by
    rw [← h.program]
    exact List.mem_append_left _ hq
  obtain ⟨m, hm, hmem⟩ := List.mem_flatMap.mp hmem
  obtain ⟨g, -, rfl⟩ := List.mem_map.mp hmem
  exact h.names m hm

/-- What is left to set is part of the last block. -/
theorem LiveMetrics.Inv.fresh (h : l.Inv) (g : Gauge) :
    snapshots l.written g = l.emitted ∨ snapshots l.written g = l.emitted.dropLast := by
  have hall : snapshots l.written g ++ snapshots l.todo g = l.emitted := by
    rw [← snapshots_append, h.program, snapshots_blocks]
  rcases h.block with hnil | ⟨m, hlast, hsuffix⟩
  · left
    rw [hnil] at hall
    simpa [snapshots] using hall
  · have hone : snapshots l.todo g <:+ [m] := by
      have hblock : snapshots (gauges.map fun g => (m, g)) g = [m] := by cases g <;> rfl
      rw [← hblock]
      exact (hsuffix.filter _).map _
    rcases List.suffix_cons_iff.mp hone with hone | hone
    · right
      rw [← hall, hone, List.dropLast_concat]
    · left
      rw [List.suffix_nil.mp hone, List.append_nil] at hall
      exact hall

theorem LiveMetrics.Inv.emit (h : l.Inv) {m : StreamMetrics ℚ} (hm : m ∈ l.streams)
    (htodo : l.todo = []) (next : Option Nat) :
    LiveMetrics.Inv { l with
      next
      todo := gauges.map fun g => (m, g)
      emitted := l.emitted ++ [m] } where
  streams := h.streams
  names := List.forall_mem_append.mpr ⟨h.names, List.forall_mem_singleton.mpr (h.streams m hm)⟩
  program := by
    have hprogram := h.program
    rw [htodo, List.append_nil] at hprogram
    rw [List.flatMap_append, ← hprogram]
    simp
  block := .inr ⟨m, by simp, List.suffix_rfl⟩
  registry := h.registry
  board := h.board
  polls := h.polls

theorem LiveMetrics.Inv.set (h : l.Inv) {q : Setting} {todo : List Setting}
    (htodo : l.todo = q :: todo) :
    LiveMetrics.Inv { l with
      todo
      registry := l.registry.call q.call
      written := l.written ++ [q] } where
  streams := h.streams
  names := h.names
  program := by
    have hprogram := h.program
    rw [htodo] at hprogram
    rw [← hprogram]
    simp
  block := by
    rcases h.block with hnil | ⟨m, hlast, hsuffix⟩
    · rw [htodo] at hnil
      cases hnil
    · refine .inr ⟨m, hlast, ?_⟩
      rw [htodo] at hsuffix
      exact (List.suffix_cons q todo).trans hsuffix
  registry := h.registry.call q
  board := h.board
  polls := h.polls

theorem LiveMetrics.Inv.poll (hget : ReadsUtf8 get) (h : l.Inv) {time : ℚ} {n : Nat}
    (hn : l.step U get (metricsRequest rest) (.poll time n) = some t) : t.Inv := by
  have hscrape := @scrape_answer U get rest l.registry hget (h.registry.plain h.written_names) n
  cases hn
  have hpoll := Follows.pollOnce
    (p := ⟨time, l.written, l.emitted, some (l.board.pollOnce time (l.registry.series.map shownSeries)).2⟩)
    h.board h.registry
  rw [hscrape]
  refine ⟨h.streams, h.names, h.program, h.block, h.registry, hpoll.1, ?_⟩
  refine List.forall_mem_append.mpr ⟨h.polls, List.forall_mem_singleton.mpr ⟨h.fresh, _, rfl, ?_⟩⟩
  exact hpoll.2

theorem LiveMetrics.Inv.next (hget : ReadsUtf8 get) (h : l.Inv) {a : LiveAction}
    (hn : l.step U get (metricsRequest rest) a = some t) : t.Inv := by
  cases a with
  | record i latencyMs arrivalS gapBefore =>
    cases hn
    refine ⟨fun m hm => ?_, h.names, h.program, h.block, h.registry, h.board, h.polls⟩
    obtain ⟨j, hj⟩ := List.mem_iff_getElem?.mp hm
    rw [List.getElem?_modify] at hj
    obtain ⟨m', hm', rfl⟩ := Option.map_eq_some_iff.mp hj
    have hname := h.streams m' (List.mem_of_getElem? hm')
    split
    · exact hname
    · exact hname
  | tick =>
    obtain ⟨-, hn⟩ := Option.ite_none_right_eq_some.mp hn
    cases hn
    exact ⟨h.streams, h.names, h.program, h.block, h.registry, h.board, h.polls⟩
  | emit =>
    simp only [LiveMetrics.step] at hn
    split at hn
    · next i hnext htodo =>
      split at hn
      · cases hn
        exact ⟨h.streams, h.names, h.program, h.block, h.registry, h.board, h.polls⟩
      · next m hm =>
        cases hn
        exact h.emit (List.mem_of_getElem? hm) htodo (some (i + 1))
    · cases hn
  | set =>
    simp only [LiveMetrics.step] at hn
    split at hn
    · cases hn
    · next q todo htodo =>
      cases hn
      exact h.set htodo
  | finished passed =>
    obtain ⟨-, hn⟩ := Option.ite_none_right_eq_some.mp hn
    cases hn
    exact ⟨h.streams, h.names, h.program, h.block, h.registry.finished passed, h.board, h.polls⟩
  | poll time n => exact h.poll hget hn

theorem LiveMetrics.inv (hget : ReadsUtf8 get)
    (h : (LiveMetrics.system U get (metricsRequest rest)).Reachable anyStep l) : l.Inv := by
  refine h.invariant ?_ fun s a t hs _ hn => hs.next hget hn
  rintro l ⟨hl, hnames⟩
  rw [hl]
  refine ⟨hnames, ?_, rfl, .inl rfl, Holds.start, ⟨fun k => rfl, fun k => rfl, rfl⟩, ?_⟩
  · exact fun m hm => absurd hm List.not_mem_nil
  · exact fun p hp => absurd hp List.not_mem_nil

end Invariant

/-- Whenever the gauges are set and the dashboard polls, its charts have a point for every poll
that follows the first setting of the sensor, with the value as last set, to six digits, and
that value is the one last emitted or the one before. Failures of checksums are not exported, and
neither is the third percentile. -/
theorem live_metrics_shown (U : Unicode) {get : Octets → Option (Nat × Text)} (hget : ReadsUtf8 get)
    (rest : Octets) {l : LiveMetrics}
    (h : (LiveMetrics.system U get (metricsRequest rest)).Reachable anyStep l) :
    Follows l.board l.polls ∧ ∀ p ∈ l.polls, p.Fresh ∧ ∃ perSensor,
      p.perSensor = some perSensor ∧ Percentiles p perSensor :=
  ⟨(LiveMetrics.inv hget h).board, (LiveMetrics.inv hget h).polls⟩

section Run

def readText (bytes : Octets) : Option Text := bytes.toByteArray.utf8Decode?.map Array.toList

/-- A client that reads a response by its stated length and the body as UTF-8. -/
def httpGet (bytes : Octets) : Option (Nat × Text) :=
  (Http.read bytes).bind fun r =>
    (readText r.body).map fun text => (ofDecimal (r.status.takeWhile (· ≠ 0x20)), text)

theorem readText_utf8 (t : Text) : readText (utf8 t) = some t := by
  have hencode : (utf8 t).toByteArray = t.utf8Encode := rfl
  rw [readText, hencode, List.utf8Decode?_utf8Encode]
  simp

theorem httpGet_readsUtf8 : ReadsUtf8 httpGet := by
  intro r text ctype hr _ hbody
  have hread := read_write hr []
  rw [List.append_nil] at hread
  rw [httpGet, hread, Option.bind_some, hbody, readText_utf8]
  rfl

def imuMetrics : StreamMetrics ℚ := { name := "imu", expectedRateHz := 100, durationSeconds := 10 }

def liveStart : LiveMetrics := { streams := [imuMetrics], registry := startRegistry }

/-- A poll before an update, one in the midst of it, and one after the scenario. -/
def liveActions : List LiveAction :=
  [.record 0 2 1 false, .poll 0 5, .tick, .emit, .set, .set, .poll 1 40, .record 0 3 2 false,
    .set, .set, .set, .set, .emit, .finished true, .poll 2 40]

theorem live_metrics_shown_imu : ∃ l,
    (LiveMetrics.system ⟨fun _ => false, fun _ => none⟩ httpGet (metricsRequest [])).run anyStep
      liveStart liveActions = some l ∧ l.polls.length = 3 ∧ Follows l.board l.polls ∧
    ∀ p ∈ l.polls, p.Fresh ∧ ∃ perSensor, p.perSensor = some perSensor ∧
      Percentiles p perSensor := by
  have hrun : ((LiveMetrics.system ⟨fun _ => false, fun _ => none⟩ httpGet
      (metricsRequest [])).run anyStep liveStart liveActions).map (fun l => l.polls.length) =
      some 3 := by decide
  obtain ⟨l, hl, hlength⟩ := Option.map_eq_some_iff.mp hrun
  have hstart : (LiveMetrics.system ⟨fun _ => false, fun _ => none⟩ httpGet
      (metricsRequest [])).start liveStart := by
    refine ⟨rfl, List.forall_mem_singleton.mpr ?_⟩
    simp [ReadableName, imuMetrics, isLineBreak]
  exact ⟨l, hl, hlength, live_metrics_shown _ httpGet_readsUtf8 [] ((System.Reachable.start
    hstart).run hl)⟩

end Run

end SensorForge.Dashboard
