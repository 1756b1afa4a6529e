import SensorForge.OrderStatistic
import SensorForge.StreamMetrics

/-! The metrics that are derived from what was recorded of a stream, in exact arithmetic,
and the assertions on them. -/

namespace SensorForge.Scenarios

open Faults OrderStatistic

instance : Double ℚ where
  ofInt := fun n => (n : ℚ)
  decLT := inferInstance
  decLE := inferInstance

abbrev MetricMap := String → Option ℚ

def MetricMap.set (map : MetricMap) (key : String) (value : ℚ) : MetricMap :=
  Function.update map key (some value)

/-- The rank is truncated towards zero. -/
def StreamMetrics.pct (m : StreamMetrics ℚ) (p : ℚ) : ℚ :=
  if m.latenciesMs.isEmpty then 0 else
  let s := sorted m.latenciesMs
  let idx := ⌊p * (s.length - 1 : Nat)⌋₊
  s.getD idx 0

def StreamMetrics.msgsPerSec (m : StreamMetrics ℚ) : ℚ :=
  if m.durationSeconds > 0 then m.received / m.durationSeconds else 0

def StreamMetrics.dropRatePct (m : StreamMetrics ℚ) : ℚ :=
  let window := m.lastArrivalS - m.firstArrivalS
  if m.hasArrival ∧ m.received ≥ 2 ∧ window > 0 then
    let expectedIntervals := m.expectedRateHz * window
    if expectedIntervals ≤ 0 then 0 else
    let observedIntervals : ℚ := m.received - 1
    let dropped := expectedIntervals - observedIntervals
    100 * (if dropped > 0 then dropped else 0) / expectedIntervals
  else
    let expected := m.expectedRateHz * m.durationSeconds
    if expected ≤ 0 then 0 else
    let dropped := expected - m.received
    100 * (if dropped > 0 then dropped else 0) / expected

def StreamMetrics.emit (m : StreamMetrics ℚ) (out : MetricMap) : MetricMap :=
  let out := out.set (m.name ++ "_msgs_per_sec") m.msgsPerSec
  let out := out.set (m.name ++ "_drop_rate_pct") m.dropRatePct
  let out := out.set (m.name ++ "_latency_p50_ms") (m.pct (50 / 100))
  let out := out.set (m.name ++ "_latency_p99_ms") (m.pct (99 / 100))
  let out := out.set (m.name ++ "_latency_p999_ms") (m.pct (999 / 1000))
  let out := out.set (m.name ++ "_sequence_gaps") m.sequenceGaps
  out.set (m.name ++ "_received") m.received

structure AssertionResult where
  metric : String
  op : CompareOp := .kUnknown
  threshold : ℚ := 0
  actual : ℚ := 0
  found : Bool := false
  passed : Bool := false
  deriving DecidableEq

def kEpsilon : ℚ := 1 / 10 ^ 9

def evaluate (a : Assertion ℚ) (metrics : MetricMap) : AssertionResult :=
  let r : AssertionResult := { metric := a.metric, op := a.op, threshold := a.value }
  match metrics a.metric with
  | none => { r with found := false, passed := false }
  | some actual =>
    { r with
      found := true
      actual
      passed := match a.op with
        | .kLessThan => actual < a.value
        | .kGreaterThan => actual > a.value
        | .kEquals => |actual - a.value| ≤ kEpsilon
        | .kNotEquals => |actual - a.value| > kEpsilon
        | .kUnknown => false }

theorem append_ne_append {name s t : String} (h : s ≠ t) : name ++ s ≠ name ++ t :=
  fun heq => h (String.append_right_inj name |>.mp heq)

theorem MetricMap.set_same (map : MetricMap) (key : String) (value : ℚ) :
    map.set key value key = some value := Function.update_self _ _ _

theorem MetricMap.set_other {key key' : String} (h : key ≠ key') (map : MetricMap) (value : ℚ) :
    map.set key' value key = map key := Function.update_of_ne h _ _

theorem emit_p99 (m : StreamMetrics ℚ) (out : MetricMap) :
    m.emit out (m.name ++ "_latency_p99_ms") = some (m.pct (99 / 100)) := by
  rw [StreamMetrics.emit, MetricMap.set_other (append_ne_append (by decide)),
    MetricMap.set_other (append_ne_append (by decide)),
    MetricMap.set_other (append_ne_append (by decide)), MetricMap.set_same]

theorem emit_dropRate (m : StreamMetrics ℚ) (out : MetricMap) :
    m.emit out (m.name ++ "_drop_rate_pct") = some m.dropRatePct := by
  rw [StreamMetrics.emit, MetricMap.set_other (append_ne_append (by decide)),
    MetricMap.set_other (append_ne_append (by decide)),
    MetricMap.set_other (append_ne_append (by decide)),
    MetricMap.set_other (append_ne_append (by decide)),
    MetricMap.set_other (append_ne_append (by decide)), MetricMap.set_same]

theorem emit_sequenceGaps (m : StreamMetrics ℚ) (out : MetricMap) :
    m.emit out (m.name ++ "_sequence_gaps") = some (m.sequenceGaps : ℚ) := by
  rw [StreamMetrics.emit, MetricMap.set_other (append_ne_append (by decide)), MetricMap.set_same]

theorem evaluate_lessThan {metrics : MetricMap} {metric : String} {actual : ℚ}
    (h : metrics metric = some actual) (value : ℚ) (window : Option ℚ) :
    (evaluate ⟨metric, .kLessThan, value, window⟩ metrics).passed = true ↔ actual < value := by
  simp only [evaluate, h, decide_eq_true_eq]

theorem evaluate_equals {metrics : MetricMap} {metric : String} {actual : ℚ}
    (h : metrics metric = some actual) (value : ℚ) (window : Option ℚ) :
    (evaluate ⟨metric, .kEquals, value, window⟩ metrics).passed = true ↔
      |actual - value| ≤ kEpsilon := by
  simp only [evaluate, h, decide_eq_true_eq]

end SensorForge.Scenarios
