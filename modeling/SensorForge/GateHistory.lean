import SensorForge.BenchOutput
import SensorForge.LatestByKey

/-! The gate over a history of runs: the results that each run is compared with, and when it
reports a failure. -/

namespace SensorForge.Bench

open Ci Faults GeneralFormat LatestByKey OrderStatistic PythonText
open Double (ofInt)

/-- The benchmarks print, and the gate reads it. -/
structure GateRun where
  lines : List Line
  updateBaseline : Bool

def Line.name : Line → Option Text
  | .report name _ => some name
  | .reportThroughput name _ => some name
  | .other _ => none

/-- The result of that name that counts. -/
def lastResult (name : Text) (lines : List Line) : Option Line :=
  lastWith Line.name (some name) lines

def GateRun.hasResults (r : GateRun) : Bool := r.lines.any fun l => l.name.isSome

/-- The run whose results are the baseline. -/
def baselineRun (runs : List GateRun) : Option GateRun :=
  runs.reverse.find? fun r => r.updateBaseline && r.hasResults

section Runs

variable {D : Type} [Double D] (U : Unicode) (ofNumber : Number → D) (t : Thresholds D)

/-- The exit status, and the files that are left. -/
def GateRun.run (r : GateRun) (files : Files D) : Nat × Files D :=
  Ci.main U (readFloat U ofNumber) t r.updateBaseline
    { files with current := some (output r.lines) }

/-- The files after the runs, before which there was no baseline. -/
def history (runs : List GateRun) : Files D :=
  runs.foldl (fun files r => (r.run U ofNumber t files).2) { current := none }

def LatencyStats.shownP99 (s : LatencyStats) : D := ofNumber (nearest (roundedTo 0 s.p99Ns))

/-- A benchmark of both runs has become slower than the gate allows. -/
def Regressed (current baseline : GateRun) : Prop :=
  ∃ name s s', lastResult name current.lines = some (.report name s) ∧
    lastResult name baseline.lines = some (.report name s') ∧
    s'.shownP99 ofNumber > ofInt 0 ∧
    s.shownP99 ofNumber >
      s'.shownP99 ofNumber * (ofInt 1 + t.p99FailPct / ofInt 100)

end Runs

section Lookup

variable {D : Type} {ofNumber : Number → D} {lines : List Line} {name : Text}

def Line.metrics (ofNumber : Number → D) : Line → Ci.Metrics D
  | .report _ s => metricsOf ofNumber s.fields
  | .reportThroughput _ gbps => metricsOf ofNumber (throughputFields gbps)
  | .other _ => ∅

/-- The key of the dictionary. -/
def Field.metric (f : Field) : Text := f.key.map fun c => if c = '/' then '_' else c

theorem getElem?_metricsOf (fields : List Field) (key : Text) :
    (metricsOf ofNumber fields)[key]? =
      (lastWith Field.metric key fields).map (Field.shown ofNumber) := by
  induction fields using List.reverseRecOn with
  | nil => simp [metricsOf, lastWith]
  | append_singleton fields f ih =>
    rw [metricsOf, List.foldl_append, List.foldl_cons, List.foldl_nil,
      Std.ExtTreeMap.getElem?_insert, lastWith_concat, ← metricsOf, ih, ← Field.metric]
    simp only [Std.compare_eq_iff_eq]
    split <;> rfl

theorem getElem?_stats (s : LatencyStats) :
    (metricsOf ofNumber s.fields)[p99]? = some (s.shownP99 ofNumber) ∧
      (metricsOf ofNumber s.fields)[dropRatePct]? = none := by
  rw [getElem?_metricsOf, getElem?_metricsOf]
  exact ⟨rfl, rfl⟩

theorem getElem?_throughput (gbps : ℚ) :
    (metricsOf ofNumber (throughputFields gbps))[p99]? = none ∧
      (metricsOf ofNumber (throughputFields gbps))[dropRatePct]? = none := by
  rw [getElem?_metricsOf, getElem?_metricsOf]
  exact ⟨rfl, rfl⟩

theorem getElem?_file (out : Results D) (l : Line) (name : Text) :
    (l.file ofNumber out)[name]? =
      if l.name = some name then some (l.metrics ofNumber) else out[name]? := by
  cases l with
  | report n s => simp [Line.file, Line.name, Line.metrics, Std.ExtTreeMap.getElem?_insert]
  | reportThroughput n gbps =>
    simp [Line.file, Line.name, Line.metrics, Std.ExtTreeMap.getElem?_insert]
  | other text => simp [Line.file, Line.name]

/-- What is filed under a name is the last result of that name. -/
theorem getElem?_results (lines : List Line) (name : Text) :
    (results ofNumber lines)[name]? = (lastResult name lines).map (Line.metrics ofNumber) := by
  induction lines using List.reverseRecOn with
  | nil => simp [results, lastResult, lastWith]
  | append_singleton lines l ih =>
    rw [results, List.foldl_append, List.foldl_cons, List.foldl_nil, getElem?_file, lastResult,
      lastWith_concat]
    split
    · rfl
    · exact ih

theorem results_isEmpty (r : GateRun) : (results ofNumber r.lines).isEmpty = !r.hasResults := by
  rw [GateRun.hasResults]
  induction r.lines using List.reverseRecOn with
  | nil => rfl
  | append_singleton lines l ih =>
    rw [results, List.foldl_append, List.foldl_cons, List.foldl_nil, List.any_append]
    cases l with
    | report name s => simp [Line.file, Line.name]
    | reportThroughput name gbps => simp [Line.file, Line.name]
    | other text => simpa [results, Line.file, Line.name] using ih

/-- Only a latency has a p99, and nothing that is printed is a drop rate. -/
theorem metrics_p99 {l : Line} {v : D} (h : (l.metrics ofNumber)[p99]? = some v) :
    ∃ name s, l = .report name s ∧ v = s.shownP99 ofNumber := by
  cases l with
  | report name s => exact ⟨name, s, rfl, Option.some.inj (h.symm.trans (getElem?_stats s).1)⟩
  | reportThroughput name gbps => exact absurd (h.symm.trans (getElem?_throughput gbps).1) (by simp)
  | other text => exact absurd h (by simp [Line.metrics])

theorem metrics_dropRate (l : Line) : (l.metrics ofNumber)[dropRatePct]? = none := by
  cases l with
  | report name s => exact (getElem?_stats s).2
  | reportThroughput name gbps => exact (getElem?_throughput gbps).2
  | other text => simp [Line.metrics]

theorem lastResult_name {l : Line} (h : lastResult name lines = some l) : l.name = some name := by
  simpa using List.find?_some h

theorem hasResults_of_lastResult {r : GateRun} {l : Line} (h : lastResult name r.lines = some l) :
    r.hasResults = true := by
  have hl : l ∈ r.lines := List.mem_reverse.mp (List.mem_of_find?_eq_some h)
  exact List.any_eq_true.mpr ⟨l, hl, by rw [lastResult_name h]; rfl⟩

theorem lastResult_report {n : Text} {s : LatencyStats}
    (h : lastResult name lines = some (.report n s)) : n = name :=
  Option.some.inj (lastResult_name h)

end Lookup

section History

variable {D : Type} [Double D] {U : Unicode} {ofNumber : Number → D} {t : Thresholds D}

theorem compare_results (current baseline : GateRun) :
    (compare t (results ofNumber current.lines) (results ofNumber baseline.lines)).2 = true ↔
      Regressed ofNumber t current baseline := by
  simp only [compare_fails, compareOne_fails, getElem?_results, Option.map_eq_some_iff]
  constructor
  · rintro ⟨name, _, ⟨l, hl, rfl⟩, _, ⟨l', hl', rfl⟩, hbad | hbad⟩
    · obtain ⟨c, b, hc, hb, hpos, hslow⟩ := p99Gate_fails.mp hbad
      obtain ⟨n, s, rfl, rfl⟩ := metrics_p99 hc
      obtain ⟨n', s', rfl, rfl⟩ := metrics_p99 hb
      obtain rfl := lastResult_report hl
      obtain rfl := lastResult_report hl'
      exact ⟨n', s, s', hl, hl', hpos, hslow⟩
    · obtain ⟨c, b, hc, _⟩ := dropGate_fails.mp hbad
      rw [metrics_dropRate] at hc
      cases hc
  · rintro ⟨name, s, s', hl, hl', hpos, hslow⟩
    exact ⟨name, _, ⟨_, hl, rfl⟩, _, ⟨_, hl', rfl⟩, .inl (p99Gate_fails.mpr
      ⟨_, _, (getElem?_stats s).1, (getElem?_stats s').1, hpos, hslow⟩)⟩

variable {r : GateRun} {files : Files D} {prior : Option GateRun}

theorem run_unread (h : ∀ l ∈ r.lines, l.Proper) (hnone : r.hasResults = false) :
    (r.run U ofNumber t files).1 = 2 ∧
      (r.run U ofNumber t files).2.baseline = files.baseline := by
  have hparse : (some (output r.lines)).bind (parseBench U (readFloat U ofNumber)) =
      some (results ofNumber r.lines) := parse_output h
  have hempty : (results ofNumber r.lines).isEmpty = true := by rw [results_isEmpty, hnone]; rfl
  rw [GateRun.run, Ci.main, Files.verdict, hparse]
  dsimp only
  rw [if_pos hempty]
  exact ⟨rfl, rfl⟩

/-- A run with results is compared with the baseline, if there is one. -/
theorem run_compared (h : ∀ l ∈ r.lines, l.Proper) (hsome : r.hasResults = true)
    (hbase : files.baseline = prior.map fun b => .results (results ofNumber b.lines)) :
    (r.run U ofNumber t files).1 = (if (compare t (results ofNumber r.lines)
      (prior.elim ∅ fun b => results ofNumber b.lines)).2 then 1 else 0) ∧
    (r.run U ofNumber t files).2.baseline =
      if r.updateBaseline then some (.results (results ofNumber r.lines)) else files.baseline := by
  have hparse : (some (output r.lines)).bind (parseBench U (readFloat U ofNumber)) =
      some (results ofNumber r.lines) := parse_output h
  have hempty : (results ofNumber r.lines).isEmpty = false := by rw [results_isEmpty, hsome]; rfl
  have hverdict : Files.verdict U (readFloat U ofNumber) t
      { files with current := some (output r.lines) } = .ok (results ofNumber r.lines,
        compare t (results ofNumber r.lines) (prior.elim ∅ fun b => results ofNumber b.lines)) := by
    rw [Files.verdict, hparse]
    dsimp only
    rw [hempty, hbase]
    cases prior <;> rfl
  rw [GateRun.run, Ci.main, hverdict]
  cases r.updateBaseline <;> exact ⟨rfl, rfl⟩

theorem compare_nothing (current : Results D) : (compare t current ∅).2 = false := by
  rw [← Bool.not_eq_true, compare_fails]
  rintro ⟨name, cur, -, hbad⟩
  obtain ⟨base, hbase, -⟩ := compareOne_fails.mp hbad
  rw [Std.ExtTreeMap.getElem?_empty] at hbase
  cases hbase

theorem baselineRun_concat (runs : List GateRun) (r : GateRun) : baselineRun (runs ++ [r]) =
    if r.updateBaseline && r.hasResults then some r else baselineRun runs := by
  rw [baselineRun, List.reverse_append, List.reverse_singleton, List.singleton_append,
    List.find?_cons]
  cases r.updateBaseline && r.hasResults <;> rfl

/-- The baseline is what the last run has printed that updates it and has results. -/
theorem history_baseline {runs : List GateRun} (h : ∀ r ∈ runs, ∀ l ∈ r.lines, l.Proper) :
    (history U ofNumber t runs).baseline =
      (baselineRun runs).map fun b => .results (results ofNumber b.lines) := by
  induction runs using List.reverseRecOn with
  | nil => rfl
  | append_singleton runs r ih =>
    obtain ⟨hruns, hr⟩ := List.forall_mem_append.mp h
    have hlines := hr r (List.mem_singleton_self r)
    have hbase := ih hruns
    have hstep : history U ofNumber t (runs ++ [r]) =
        (r.run U ofNumber t (history U ofNumber t runs)).2 := by
      rw [history, List.foldl_append]
      rfl
    rw [hstep, baselineRun_concat]
    cases hresults : r.hasResults with
    | false => rw [(run_unread hlines hresults).2, hbase, Bool.and_false]; rfl
    | true =>
      rw [(run_compared hlines hresults hbase).2, hbase, Bool.and_true]
      cases r.updateBaseline <;> rfl

/-- The gate over any history of runs: the baseline is what the last run has printed that has
results and updates it. A run without results ends with 2; another fails exactly if a benchmark
is slower than in that run, by more than the threshold. -/
theorem gate_over_runs {runs : List GateRun} {r : GateRun}
    (hruns : ∀ r ∈ runs, ∀ l ∈ r.lines, l.Proper) (hr : ∀ l ∈ r.lines, l.Proper) :
    (history U ofNumber t runs).baseline =
      (baselineRun runs).map (fun b => .results (results ofNumber b.lines)) ∧
    ((r.run U ofNumber t (history U ofNumber t runs)).1 = 2 ↔ r.hasResults = false) ∧
    ((r.run U ofNumber t (history U ofNumber t runs)).1 = 1 ↔ ∃ b, baselineRun runs = some b ∧
      Regressed ofNumber t r b) ∧
    (r.run U ofNumber t (history U ofNumber t runs)).1 ≤ 2 := by
  have hbase := @history_baseline D _ U ofNumber t runs hruns
  refine ⟨hbase, ?_⟩
  cases hresults : r.hasResults with
  | false =>
    rw [(run_unread hr hresults).1]
    refine ⟨by simp, ⟨fun h => absurd h (by decide), ?_⟩, le_rfl⟩
    rintro ⟨b, -, name, s, s', hl, -⟩
    rw [hasResults_of_lastResult hl] at hresults
    cases hresults
  | true =>
    rw [(run_compared hr hresults hbase).1]
    cases hprior : baselineRun runs with
    | none =>
      simp [compare_nothing]
    | some b =>
      have hfail := @compare_results D _ ofNumber t r b
      by_cases hregressed : Regressed ofNumber t r b
      · simp [hfail.mpr hregressed, hregressed]
      · simp [(mt hfail.mp hregressed), hregressed]

/-- `float` for numbers that are finite. -/
def finite : Number → ℚ
  | .num q => q
  | _ => 0

/-- One benchmark whose operations all take that long. -/
def decodeRun (ns : Nat) : GateRun where
  lines := [.other "=== SensorForge [BENCH] latency/throughput probes ===".toList,
    .report "frame_decode_64b".toList (measure (List.replicate 3 (ns : ℚ)) 1)]
  updateBaseline := true

theorem decodeRun_proper (ns : Nat) : ∀ l ∈ (decodeRun ns).lines, l.Proper := by
  have hother : ∀ l ∈ splitlines "=== SensorForge [BENCH] latency/throughput probes ===".toList,
      ¬ "[BENCH]".toList <+: strip l := by decide +kernel
  refine List.forall_mem_cons.mpr ⟨hother, List.forall_mem_singleton.mpr
    ⟨⟨List.cons_ne_nil _ _, by simp⟩, measure_nonneg fun x hx => ?_⟩⟩
  rw [List.eq_of_mem_replicate hx]
  positivity

theorem decodeRun_p99 (ns : Nat) : (measure (List.replicate 3 (ns : ℚ)) 1).p99Ns = ns := by
  have hsorted : sorted (List.replicate 3 (ns : ℚ)) = List.replicate 3 (ns : ℚ) :=
    List.perm_replicate.mp (sorted_perm _)
  have hindex : ⌊(99 / 100 : ℚ) * (3 - 1 : Nat)⌋₊ < 3 := by
    rw [Nat.floor_lt (by norm_num)]
    norm_num
  dsimp only [measure]
  rw [hsorted, List.length_replicate, List.getD_eq_getElem _ _ (by rwa [List.length_replicate]),
    List.getElem_replicate]
  rfl

/-- A whole number is shown as it is. -/
theorem shownP99_whole {s : LatencyStats} {n : Nat} (h : s.p99Ns = n) (hn : n < 2 ^ 53) :
    s.shownP99 finite = n := by
  have hround : roundedTo 0 (n : ℚ) = (n : Int) := by
    rw [roundedTo, pow_zero, mul_one, div_one]
    exact congrArg Int.cast (roundEven_intCast n)
  have hexact := @nearest_exact n 0 (by rw [abs_of_nonneg] <;> omega) (by decide)
  rw [pow_zero, mul_one] at hexact
  rw [LatencyStats.shownP99, h, hround, hexact]
  exact Int.cast_natCast n

theorem gate_over_runs_slower :
    ((decodeRun 67).run Dashboard.asciiOnly finite defaultThresholds
      (history Dashboard.asciiOnly finite defaultThresholds [decodeRun 60])).1 = 1 := by
  have hruns : ∀ r ∈ [decodeRun 60], ∀ l ∈ r.lines, l.Proper :=
    List.forall_mem_singleton.mpr (decodeRun_proper 60)
  refine (gate_over_runs hruns (decodeRun_proper 67)).2.2.1.mpr
    ⟨decodeRun 60, rfl, "frame_decode_64b".toList, _, _, rfl, rfl, ?_, ?_⟩
  · rw [shownP99_whole (decodeRun_p99 60) (by norm_num)]
    norm_num [Double.ofInt]
  · rw [shownP99_whole (decodeRun_p99 60) (by norm_num),
      shownP99_whole (decodeRun_p99 67) (by norm_num)]
    norm_num [Double.ofInt, defaultThresholds]

end History

end SensorForge.Bench
