import SensorForge.StreamMetrics

/-! The scenario runner from `start` to `finish`: one fault engine for a stream that a
fault names, the subscriptions that go through it, and the reader of the CAN bus. -/

namespace SensorForge.Scenarios

open Faults Transition
open Double (ofInt)

/-- `memcpy` between a double and its eight bytes. -/
class DoubleBytes (D : Type) extends Double D where
  toBytes : D → Bytes
  ofBytes : Bytes → D
  toBytes_length : ∀ d, (toBytes d).length = 8
  ofBytes_toBytes : ∀ d, ofBytes (toBytes d) = d
  toBytes_ofBytes : ∀ bs, bs.length = 8 → toBytes (ofBytes bs) = bs

open DoubleBytes (toBytes ofBytes)

instance : DoubleBytes Int64 where
  toBytes d := putU64 d.toUInt64
  ofBytes bs := (getU64 bs).toInt64
  toBytes_length _ := putU64_length _
  ofBytes_toBytes d := by
    have h := getU64_putU64 d.toUInt64 []
    rw [List.append_nil] at h
    rw [h, Int64.toInt64_toUInt64]
  toBytes_ofBytes bs h := by
    have hput := putU64_getU64 bs (Nat.zero_add 8) (Nat.le_of_eq h.symm)
    rw [List.drop_eq_nil_of_le (Nat.le_of_eq h), List.append_nil, List.drop_zero] at hput
    rwa [UInt64.toUInt64_toInt64]

/-- What `record` reads: the send stamp, and the clock of the node for the arrival time
and then for the latency. -/
structure Arrival where
  stamp : Int
  arrivalNow : Int
  latencyNow : Int
  deriving DecidableEq

/-- An engine with the metrics that its callback captures, and what went into it. -/
structure StreamFault (ω D : Type) [Double D] where
  engine : FaultEngine ω D
  metrics : Nat
  arrivals : List Arrival := []

structure CanReader where
  metrics : Nat
  havePrevSeq : Bool := false
  prevSeq : UInt16 := 0

structure CanFrame where
  data : Vector UInt8 8

structure ScenarioRunner (ω D : Type) [Double D] where
  scenario : Scenario D
  startTime : Int
  metrics : List (StreamMetrics D) := []
  subs : List String := []
  streamFaults : String → Option (StreamFault ω D) := fun _ => none
  canReader : Option CanReader := none

variable {ω D : Type} [DoubleBytes D] (W : World ω D)

/-- `rclcpp::Duration::seconds` of a difference of two times. -/
def seconds (ns : Int) : D := ofInt ns / ofInt 1000000000

def latencyMs (now stamp : Int) : D := seconds (now - stamp) * ofInt 1000

def sampleBuffer (latency arrivalS : D) : Bytes := toBytes latency ++ toBytes arrivalS

/-- What the callback of an engine reads from a buffer: latency and arrival time. -/
def sampleOf (buf : Bytes) : Option (D × D) :=
  if buf.length ≥ 16 then some (ofBytes (buf.take 8), ofBytes ((buf.drop 8).take 8)) else none

def StreamMetrics.callback (m : StreamMetrics D) (buf : Bytes) : StreamMetrics D :=
  match sampleOf buf with
  | some (latency, arrivalS) => m.record latency arrivalS false
  | none => m

def CanFrame.seq (f : CanFrame) : UInt16 := f.data[2].toUInt16 ||| (f.data[3].toUInt16 <<< 8)

def CanFrame.sentUs (f : CanFrame) : UInt32 :=
  f.data[4].toUInt32 ||| (f.data[5].toUInt32 <<< 8) ||| (f.data[6].toUInt32 <<< 16) |||
    (f.data[7].toUInt32 <<< 24)

def ScenarioRunner.metricsFor (r : ScenarioRunner ω D) (stream : String) : Option Nat :=
  r.metrics.findIdx? (·.name = stream)

/-- `std::thread` ends the program when a running thread is assigned to. -/
def ScenarioRunner.startCanReader (r : ScenarioRunner ω D) (stream : String) :
    Option (ScenarioRunner ω D) :=
  match r.metricsFor stream with
  | none => some r
  | some i =>
    if r.canReader.isSome then none else some { r with canReader := some { metrics := i } }

def rosStreams : List String := ["lidar", "camera", "imu", "gps"]

def ScenarioRunner.subscribeStream (r : ScenarioRunner ω D) (name : String) :
    Option (ScenarioRunner ω D) :=
  if name ∈ rosStreams then some { r with subs := r.subs ++ [name] }
  else if name = "can" then r.startCanReader name
  else some r

def rulesFor (sc : Scenario D) (stream : String) : List (FaultRule D) :=
  (sc.faults.filter (·.stream = stream)).map toFaultRule

/-- `std::map::emplace` keeps what is there. -/
def ScenarioRunner.emplace (r : ScenarioRunner ω D) (stream : String) (g : StreamFault ω D) :
    ScenarioRunner ω D :=
  if (r.streamFaults stream).isSome then r
  else { r with streamFaults := Function.update r.streamFaults stream (some g) }

def ScenarioRunner.addMetrics (r : ScenarioRunner ω D) (s : StreamConfig D) : ScenarioRunner ω D :=
  { r with
    metrics := r.metrics ++
      [{ name := s.name, expectedRateHz := s.rateHz
         durationSeconds := r.scenario.durationSeconds }] }

/-- The callback captures the metrics that were added last. -/
def ScenarioRunner.buildEngine (worlds : String → ω) (r : ScenarioRunner ω D) (stream : String) :
    ScenarioRunner ω D :=
  if r.scenario.faults.any (·.stream = stream) then
    r.emplace stream
      { engine := { rules := rulesFor r.scenario stream, world := worlds stream }
        metrics := r.metrics.length - 1 }
  else r

def ScenarioRunner.addStream (worlds : String → ω) (r : ScenarioRunner ω D) (s : StreamConfig D) :
    Option (ScenarioRunner ω D) :=
  ((r.addMetrics s).buildEngine worlds s.name).subscribeStream s.name

/-- `none` where the program is ended. -/
def ScenarioRunner.start (sc : Scenario D) (startTime : Int) (worlds : String → ω) :
    Option (ScenarioRunner ω D) :=
  sc.streams.foldlM (ScenarioRunner.addStream worlds) { scenario := sc, startTime := startTime }

/-- An engine has moved on; its callback has run for what it wrote meanwhile. -/
def ScenarioRunner.deliver (r : ScenarioRunner ω D) (stream : String) (g g' : StreamFault ω D) :
    ScenarioRunner ω D :=
  { r with
    streamFaults := Function.update r.streamFaults stream (some g')
    metrics := r.metrics.modify g.metrics fun m =>
      (g'.engine.written.drop g.engine.written.length).foldl
        (fun m w => m.callback w.frame.data) m }

def Arrival.call (startTime : Int) (stream : String) (a : Arrival) : ProcessCall D :=
  let nowS : D := seconds (a.arrivalNow - startTime)
  { data := sampleBuffer (latencyMs a.latencyNow a.stamp) nowS, tS := nowS, stream := stream }

def ScenarioRunner.record (r : ScenarioRunner ω D) (stream : String) (a : Arrival) :
    ScenarioRunner ω D :=
  match r.streamFaults stream with
  | some g =>
    r.deliver stream g { g with
      engine := g.engine.process W (a.call r.startTime stream)
      arrivals := g.arrivals ++ [a] }
  | none =>
    match r.metricsFor stream with
    | some i =>
      { r with metrics := r.metrics.modify i fun m =>
          m.record (latencyMs a.latencyNow a.stamp) (seconds (a.arrivalNow - r.startTime)) false }
    | none => r

/-- One frame in `can_reader_loop`; `nowUs` is the low half of the steady clock. -/
def ScenarioRunner.readCan (r : ScenarioRunner ω D) (c : CanReader) (f : CanFrame) (nowUs : UInt32)
    (now : Int) : ScenarioRunner ω D :=
  let latency : D := ofInt (nowUs - f.sentUs).toNat / ofInt 1000
  let gap := c.havePrevSeq && f.seq != c.prevSeq + 1
  { r with
    canReader := some { c with havePrevSeq := true, prevSeq := f.seq }
    metrics := r.metrics.modify c.metrics fun m =>
      m.record latency (seconds (now - r.startTime)) gap }

inductive RunnerAction (D : Type)
  | message (stream : String) (a : Arrival)
  | canFrame (f : CanFrame) (nowUs : UInt32) (now : Int)
  | engine (stream : String) (a : EngineAction D)
  | stopCanReader

/-- Messages are handled by the executor, CAN frames by the reader, and the engines have
their workers; `finish` stops the reader and flushes the engines. -/
def ScenarioRunner.next (r : ScenarioRunner ω D) : RunnerAction D → Option (ScenarioRunner ω D)
  | .message stream a => if stream ∈ r.subs then some (r.record W stream a) else none
  | .canFrame f nowUs now => r.canReader.map fun c => r.readCan c f nowUs now
  | .engine _ (.process _) => none
  | .engine stream a =>
    (r.streamFaults stream).bind fun g =>
      (g.engine.next W a).map fun e => r.deliver stream g { g with engine := e }
  | .stopCanReader => some { r with canReader := none }

def system (sc : Scenario D) : System (ScenarioRunner ω D) (RunnerAction D) where
  start r := ∃ startTime worlds, ScenarioRunner.start sc startTime worlds = some r
  next := ScenarioRunner.next W

end SensorForge.Scenarios
