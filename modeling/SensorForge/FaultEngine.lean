import SensorForge.BitFlips
import SensorForge.LittleEndian
import SensorForge.TransitionSystem

/-! The fault engine: `process` for one outgoing frame, the delay queue with its worker,
and `flush`. The random draws and the clocks are parameters. -/

namespace SensorForge.Faults

open BitFlips

/-- The operations on `double` that the sources use. -/
class Double (D : Type) extends Add D, Sub D, Mul D, Div D, LT D, LE D, BEq D where
  ofInt : Int → D
  decLT : DecidableLT D
  decLE : DecidableLE D

attribute [reducible, instance] Double.decLT Double.decLE

open Double (ofInt)

/-- Whole numbers of at most 64 bits, on which the operations are exact. -/
instance : Double Int64 where
  ofInt := Int64.ofInt
  decLT := inferInstance
  decLE := inferInstance

inductive FaultKind
  | kNone | kDelay | kDrop | kDuplicate | kCorrupt | kReorder | kBurstLoss | kBandwidthLimit
  | kEcuDisconnect | kProcessRestart
  deriving DecidableEq, Repr

def faultKindFromString (s : String) : FaultKind :=
  if s = "delay" then .kDelay
  else if s = "drop" then .kDrop
  else if s = "duplicate" then .kDuplicate
  else if s = "corrupt" then .kCorrupt
  else if s = "reorder" then .kReorder
  else if s = "burst" ∨ s = "burst_loss" then .kBurstLoss
  else if s = "bandwidth_limit" then .kBandwidthLimit
  else if s = "ecu_disconnect" then .kEcuDisconnect
  else if s = "process_restart" then .kProcessRestart
  else .kNone

structure FaultRule (D : Type) [Double D] where
  kind : FaultKind := .kNone
  stream : String := ""
  startS : D := ofInt 0
  durationS : D := ofInt 0
  delayMs : D := ofInt 0
  dropRate : D := ofInt 0
  bandwidthKbps : D := ofInt 0
  corruptBits : Nat := 4

/-- What the engine does not compute itself: the draws of its generator, the readings of
`steady_clock`, and what the caller's clock shows when the write callback runs. -/
structure World (ω D : Type) where
  uniformReal : ω → D × ω
  uniformInt : (hi : Nat) → ω → Fin (hi + 1) × ω
  nowNs : ω → D × ω
  callbackTime : ω → Int × ω

/-- A world in which every draw is zero, and both clocks show the times listed for them,
then zero. -/
def scriptedWorld : World (List Int64 × List Int) Int64 where
  uniformReal w := (0, w)
  uniformInt _ w := (0, w)
  nowNs w := (w.1.headD 0, (w.1.tail, w.2))
  callbackTime w := (w.2.headD 0, (w.1, w.2.tail))

structure FaultStats where
  forwarded : UInt64 := 0
  dropped : UInt64 := 0
  duplicated : UInt64 := 0
  corrupted : UInt64 := 0
  reordered : UInt64 := 0
  delayed : UInt64 := 0
  deriving DecidableEq, Repr

/-- A payload on its way, with the call it comes from and the bits flipped in it. -/
structure Frame where
  data : Bytes
  call : Nat
  flips : List Flip := []
  deriving DecidableEq

structure Delayed (D : Type) where
  dueNs : D
  frame : Frame

structure Written where
  frame : Frame
  firedAt : Int
  deriving DecidableEq

structure ProcessCall (D : Type) where
  data : Bytes
  tS : D
  stream : String

/-- `calls`, `restarts` and `written` are the history: what came in, the calls of the
restart hook, and the calls of the write callback. -/
structure FaultEngine (ω D : Type) [Double D] where
  rules : List (FaultRule D) := []
  world : ω
  held : Option Frame := none
  tokensBytes : D := ofInt 0
  lastRefillNs : D := ofInt 0
  restartedThisWindow : List String := []
  delayed : List (Delayed D) := []
  workerHand : Option Frame := none
  flushing : Bool := false
  flushHand : Option Frame := none
  stats : FaultStats := {}
  calls : List (ProcessCall D) := []
  restarts : List String := []
  written : List Written := []

variable {ω D : Type} [Double D] (W : World ω D)

def FaultRule.activeAt (r : FaultRule D) (tS : D) : Bool :=
  decide (r.startS ≤ tS) && decide (tS < r.startS + r.durationS)

def FaultRule.matchesStream (r : FaultRule D) (s : String) : Bool :=
  r.stream.isEmpty || r.stream == s

def FaultEngine.active (e : FaultEngine ω D) (tS : D) (stream : String) : List (FaultRule D) :=
  e.rules.filter fun r => r.matchesStream stream && r.activeAt tS

def FaultEngine.drop (e : FaultEngine ω D) : FaultEngine ω D :=
  { e with stats := { e.stats with dropped := e.stats.dropped + 1 } }

def FaultEngine.emit (e : FaultEngine ω D) (f : Frame) : FaultEngine ω D :=
  let (time, world) := W.callbackTime e.world
  { e with
    world := world
    written := e.written ++ [{ frame := f, firedAt := time }]
    stats := { e.stats with forwarded := e.stats.forwarded + 1 } }

def FaultEngine.restart (stream : String) (e : FaultEngine ω D) (r : FaultRule D) :
    FaultEngine ω D :=
  if r.kind = .kProcessRestart ∧ stream ∉ e.restartedThisWindow then
    { e with
      restartedThisWindow := e.restartedThisWindow ++ [stream]
      restarts := e.restarts ++ [stream] }
  else e

def FaultEngine.trackRestarts (e : FaultEngine ω D) (active : List (FaultRule D))
    (stream : String) : FaultEngine ω D :=
  let e := active.foldl (FaultEngine.restart stream) e
  if active.isEmpty then
    { e with restartedThisWindow := e.restartedThisWindow.filter (· ≠ stream) }
  else e

def suppressed (active : List (FaultRule D)) : Bool :=
  active.any fun r => r.kind = .kEcuDisconnect || r.kind = .kBurstLoss

/-- The probabilistic drop; the flag says that the frame is dropped. -/
def FaultEngine.dropLoop (e : FaultEngine ω D) : List (FaultRule D) → FaultEngine ω D × Bool
  | [] => (e, false)
  | r :: rs =>
    if r.kind = .kDrop ∧ ofInt 0 < r.dropRate then
      let (x, world) := W.uniformReal e.world
      let e := { e with world := world }
      if x < r.dropRate then (e.drop, true) else FaultEngine.dropLoop e rs
    else FaultEngine.dropLoop e rs

/-- `std::min`. -/
def minD (a b : D) : D := if b < a then b else a

/-- `std::max`. -/
def maxD (a b : D) : D := if a < b then b else a

def FaultEngine.refill (e : FaultEngine ω D) (r : FaultRule D) : FaultEngine ω D :=
  let (now, world) := W.nowNs e.world
  let capBytes := r.bandwidthKbps * ofInt 1000 / ofInt 8
  let first := e.lastRefillNs == ofInt 0
  let lastRefillNs := if first then now else e.lastRefillNs
  let tokensBytes := if first then capBytes else e.tokensBytes
  let elapsedS := (now - lastRefillNs) / ofInt 1000000000
  { e with
    world := world
    tokensBytes := minD capBytes (tokensBytes + elapsedS * capBytes)
    lastRefillNs := now }

/-- The token bucket; the flag says that the frame is dropped. -/
def FaultEngine.bandwidthLoop (size : D) (e : FaultEngine ω D) :
    List (FaultRule D) → FaultEngine ω D × Bool
  | [] => (e, false)
  | r :: rs =>
    if r.kind = .kBandwidthLimit ∧ ofInt 0 < r.bandwidthKbps then
      let e := e.refill W r
      if e.tokensBytes < size then (e.drop, true)
      else FaultEngine.bandwidthLoop size { e with tokensBytes := e.tokensBytes - size } rs
    else FaultEngine.bandwidthLoop size e rs

/-- `payload[pos(rng_)] ^= 1u << bit(rng_)`: the right operand is evaluated first. -/
def flipOnce (s : ω × Frame) : ω × Frame :=
  let (bit, world) := W.uniformInt 7 s.1
  let (pos, world) := W.uniformInt (s.2.data.length - 1) world
  (world, { s.2 with data := flip s.2.data (pos, bit), flips := s.2.flips ++ [(pos.val, bit)] })

def FaultEngine.corruptLoop (e : FaultEngine ω D) (f : Frame) :
    List (FaultRule D) → FaultEngine ω D × Frame
  | [] => (e, f)
  | r :: rs =>
    if r.kind = .kCorrupt ∧ f.data ≠ [] then
      let s := (flipOnce W)^[r.corruptBits] (e.world, f)
      FaultEngine.corruptLoop
        { e with world := s.1, stats := { e.stats with corrupted := e.stats.corrupted + 1 } } s.2 rs
    else FaultEngine.corruptLoop e f rs

def delayOf (active : List (FaultRule D)) : D :=
  active.foldl (fun ms r => if r.kind = .kDelay then maxD ms r.delayMs else ms) (ofInt 0)

def FaultEngine.dispatchOrDelay (e : FaultEngine ω D) (active : List (FaultRule D)) (f : Frame) :
    FaultEngine ω D :=
  if delayOf active ≤ ofInt 0 then e.emit W f
  else
    let (now, world) := W.nowNs e.world
    { e with
      world := world
      delayed := e.delayed ++ [{ dueNs := now + delayOf active * ofInt 1000000, frame := f }]
      stats := { e.stats with delayed := e.stats.delayed + 1 } }

def FaultEngine.duplicate (active : List (FaultRule D)) (f : Frame) (e : FaultEngine ω D)
    (r : FaultRule D) : FaultEngine ω D :=
  if r.kind = .kDuplicate then
    let e := e.dispatchOrDelay W active f
    { e with stats := { e.stats with duplicated := e.stats.duplicated + 1 } }
  else e

/-- What `process` does with a payload that no rule drops. -/
def FaultEngine.forward (e : FaultEngine ω D) (active : List (FaultRule D)) (f : Frame) :
    FaultEngine ω D :=
  if active.any fun r => r.kind = .kReorder then
    match e.held with
    | none => { e with held := some f }
    | some prev =>
      let e := { e with held := none }
      let e := (e.dispatchOrDelay W active f).dispatchOrDelay W active prev
      { e with stats := { e.stats with reordered := e.stats.reordered + 1 } }
  else active.foldl (FaultEngine.duplicate W active f) (e.dispatchOrDelay W active f)

def FaultEngine.process (e : FaultEngine ω D) (c : ProcessCall D) : FaultEngine ω D :=
  let active := e.active c.tS c.stream
  let f : Frame := { data := c.data, call := e.calls.length }
  let e := { e with calls := e.calls ++ [c] }.trackRestarts active c.stream
  if suppressed active then e.drop
  else
    match e.dropLoop W active with
    | (e, true) => e
    | (e, false) =>
      match e.bandwidthLoop W (ofInt c.data.length) active with
      | (e, true) => e
      | (e, false) =>
        let (e, f) := e.corruptLoop W f active
        e.forward W active f

/-- The frame at `i` may be the top of the heap: none is due before it. -/
def FaultEngine.top (e : FaultEngine ω D) (i : Nat) : Option (Delayed D) :=
  (e.delayed[i]?).filter fun d => e.delayed.all fun d' => !decide (d'.dueNs < d.dueNs)

inductive EngineAction (D : Type)
  | process (c : ProcessCall D)
  | workerPop (i : Nat)
  | workerEmit
  | flush
  | flushPop (i : Nat)
  | flushEmit
  | flushReturn

/-- The worker gives up the lock between taking a frame out and emitting it, and so does
`flush`; a frame in between is in the hand of its thread. -/
def FaultEngine.next (e : FaultEngine ω D) : EngineAction D → Option (FaultEngine ω D)
  | .process c => if e.flushing then none else some (e.process W c)
  | .workerPop i =>
    if e.workerHand.isSome then none
    else
      (e.top i).map fun d =>
        let (now, world) := W.nowNs e.world
        if now < d.dueNs then { e with world := world }
        else
          { e with
            world := world, delayed := e.delayed.eraseIdx i, workerHand := some d.frame }
  | .workerEmit => e.workerHand.map fun f => { e with workerHand := none }.emit W f
  | .flush => if e.flushing then none else some { e with flushing := true }
  | .flushPop i =>
    if e.flushing ∧ e.flushHand = none then
      (e.top i).map fun d =>
        { e with delayed := e.delayed.eraseIdx i, flushHand := some d.frame }
    else none
  | .flushEmit => e.flushHand.map fun f => { e with flushHand := none }.emit W f
  | .flushReturn =>
    if e.flushing ∧ e.flushHand = none ∧ e.delayed.isEmpty then some { e with flushing := false }
    else none

def system (rules : List (FaultRule D)) :
    Transition.System (FaultEngine ω D) (EngineAction D) where
  start e := ∃ world, e = { rules := rules, world := world }
  next := FaultEngine.next W

/-- A call of `flush`, taking the frames at `is` out one after the other. -/
def flushActions (is : List Nat) : List (EngineAction D) :=
  .flush :: is.flatMap (fun i => [.flushPop i, .flushEmit]) ++ [.flushReturn]

end SensorForge.Faults
