import SensorForge.FaultEngine

/-! Scenarios as the parser returns them, the checks that it makes on the way, and the
rules of the fault engine that stand for their faults. -/

namespace SensorForge.Scenarios

open Faults
open Double (ofInt)

structure StreamConfig (D : Type) where
  name : String
  rateHz : D

inductive FaultType
  | kDelay | kDrop | kCorrupt | kReorder | kDuplicate | kBurstLoss | kBandwidthLimit
  | kEcuDisconnect | kProcessRestart | kUnknown
  deriving DecidableEq, Repr

structure FaultSpec (D : Type) where
  stream : String
  startSeconds : D
  durationSeconds : D
  type : FaultType
  params : List (String × D)

inductive CompareOp
  | kLessThan | kGreaterThan | kEquals | kNotEquals | kUnknown
  deriving DecidableEq, Repr

structure Assertion (D : Type) where
  metric : String
  op : CompareOp
  value : D
  windowSeconds : Option D

structure Scenario (D : Type) where
  name : String
  durationSeconds : D
  streams : List (StreamConfig D)
  faults : List (FaultSpec D)
  assertions : List (Assertion D)

variable {D : Type} [Double D]

def faultTypeFromString (s : String) : FaultType :=
  if s = "delay" then .kDelay
  else if s = "drop" then .kDrop
  else if s = "corrupt" then .kCorrupt
  else if s = "reorder" then .kReorder
  else if s = "duplicate" then .kDuplicate
  else if s = "burst" ∨ s = "burst_loss" then .kBurstLoss
  else if s = "bandwidth_limit" then .kBandwidthLimit
  else if s = "ecu_disconnect" then .kEcuDisconnect
  else if s = "process_restart" then .kProcessRestart
  else .kUnknown

def FaultType.toString : FaultType → String
  | .kDelay => "delay"
  | .kDrop => "drop"
  | .kCorrupt => "corrupt"
  | .kReorder => "reorder"
  | .kDuplicate => "duplicate"
  | .kBurstLoss => "burst_loss"
  | .kBandwidthLimit => "bandwidth_limit"
  | .kEcuDisconnect => "ecu_disconnect"
  | .kProcessRestart => "process_restart"
  | .kUnknown => "unknown"

def compareOpFromString (s : String) : CompareOp :=
  if s = "less_than" then .kLessThan
  else if s = "greater_than" then .kGreaterThan
  else if s = "equals" then .kEquals
  else if s = "not_equals" then .kNotEquals
  else .kUnknown

def FaultSpec.param (f : FaultSpec D) (key : String) : D := (f.params.lookup key).getD (ofInt 0)

def toFaultRule (f : FaultSpec D) : FaultRule D where
  kind := faultKindFromString f.type.toString
  stream := f.stream
  startS := f.startSeconds
  durationS := f.durationSeconds
  delayMs := f.param "delay_ms"
  dropRate := f.param "drop_rate"
  bandwidthKbps := f.param "bandwidth_kbps"

/-- None of the checks that `parse_node` makes on what it has read throws. -/
structure Scenario.Checked (sc : Scenario D) : Prop where
  duration : ¬ sc.durationSeconds ≤ ofInt 0
  rates : ∀ s ∈ sc.streams, ¬ s.rateHz ≤ ofInt 0
  types : ∀ f ∈ sc.faults, f.type ≠ .kUnknown
  assertions : ∀ a ∈ sc.assertions, a.metric ≠ "" ∧ a.op ≠ .kUnknown

theorem faultKind_eq_iff (t : FaultType) :
    (faultKindFromString t.toString = .kEcuDisconnect ∨
      faultKindFromString t.toString = .kBurstLoss) ↔ t = .kEcuDisconnect ∨ t = .kBurstLoss := by
  cases t <;> decide

end SensorForge.Scenarios
