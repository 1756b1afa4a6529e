import SensorForge.Scenario

/-! What is recorded of one stream. -/

namespace SensorForge.Scenarios

open Faults
open Double (ofInt)

variable {D : Type} [Double D]

structure StreamMetrics (D : Type) [Double D] where
  name : String
  expectedRateHz : D
  durationSeconds : D
  latenciesMs : List D := []
  received : Nat := 0
  sequenceGaps : Nat := 0
  hasArrival : Bool := false
  firstArrivalS : D := ofInt 0
  lastArrivalS : D := ofInt 0

/-- `record` without an arrival time. -/
def StreamMetrics.recordLatency (m : StreamMetrics D) (latencyMs : D) (gapBefore : Bool) :
    StreamMetrics D :=
  { m with
    latenciesMs := m.latenciesMs ++ [latencyMs]
    received := m.received + 1
    sequenceGaps := if gapBefore then m.sequenceGaps + 1 else m.sequenceGaps }

def StreamMetrics.record (m : StreamMetrics D) (latencyMs arrivalS : D) (gapBefore : Bool) :
    StreamMetrics D :=
  { m with
    firstArrivalS := if m.hasArrival then m.firstArrivalS else arrivalS
    hasArrival := true
    lastArrivalS := arrivalS }.recordLatency latencyMs gapBefore

@[simp] theorem record_latenciesMs (m : StreamMetrics D) (latencyMs arrivalS : D)
    (gapBefore : Bool) :
    (m.record latencyMs arrivalS gapBefore).latenciesMs = m.latenciesMs ++ [latencyMs] := rfl

end SensorForge.Scenarios
