import SensorForge.EntryRing
import SensorForge.LittleEndian
import SensorForge.TransitionSystem

/-! An io_uring with the threads that use it and the kernel. The send slots are handed out in
rotation, and no lock keeps a thread from submitting the entry that another is preparing. -/

namespace SensorForge.IoUring

open Transition

abbrev numRecvBuffers : Nat := 64
abbrev numSendBuffers : Nat := 64
abbrev bufferSize : Nat := 65536

/-- A slot; it also stands for the pointers to it and to its parts. -/
inductive SlotId where
  | recv (i : Fin numRecvBuffers)
  | send (i : Fin numSendBuffers)
  deriving DecidableEq

/-- What `msg_name` points to. -/
inductive Name where
  | remote
  | addr (slot : SlotId)
  deriving DecidableEq

/-- `base` is the slot whose buffer it points to. -/
structure IoVec where
  base : SlotId
  len : Nat
  deriving DecidableEq

structure MsgHdr where
  name : Option Name := none
  iov : Option SlotId := none
  iovlen : Nat := 0
  deriving DecidableEq

structure Slot where
  buf : Fin bufferSize → UInt8 := fun _ => 0
  iov : Option IoVec := none
  msg : MsgHdr := {}

def Slot.memcpy (slot : Slot) (data : Bytes) : Slot :=
  { slot with buf := fun k => if h : k < data.length then data[k] else slot.buf k }

/-- The first `n` bytes of the buffer, of those that it has. -/
def Slot.span (slot : Slot) (n : Nat) : Bytes :=
  List.ofFn fun k : Fin (min n bufferSize) => slot.buf (k.castLE (Nat.min_le_right n bufferSize))

theorem Slot.span_congr {slot slot' : Slot} (h : slot'.buf = slot.buf) :
    slot'.span = slot.span := by
  funext n
  rw [Slot.span, Slot.span, h]

theorem Slot.span_memcpy (slot : Slot) {data : Bytes} (h : data.length ≤ bufferSize) :
    (slot.memcpy data).span data.length = data := by
  unfold Slot.span
  refine List.ext_getElem ?_ fun n h₁ h₂ => ?_
  · rw [List.length_ofFn, Nat.min_eq_left h]
  · rw [List.getElem_ofFn]
    exact dif_pos h₂

/-- The header of a slot points to its own buffer. -/
def Slot.header (slot : Slot) (self : SlotId) (len : Nat) (name : Name) : Slot :=
  { slot with iov := some ⟨self, len⟩, msg := { name, iov := some self, iovlen := 1 } }

/-- The operation of an entry and the slot whose header it points to. A send also has the number
of its call. -/
inductive Request where
  | nop
  | recvmsg (slot : Fin numRecvBuffers)
  | sendmsg (slot : Fin numSendBuffers) (call : Nat)
  deriving DecidableEq

structure Sqe where
  request : Request := .nop
  data : Option SlotId := none
  deriving DecidableEq

structure Cqe where
  data : Option SlotId
  res : Int

/-- A submitted `sendmsg`, and what the kernel has read for it. -/
structure Sending where
  slot : Fin numSendBuffers
  call : Nat
  data : Option SlotId
  header : Option (IoVec × Option Name) := none
  read : Bytes := []
  sent : Bool := false

/-- A submitted `recvmsg`. -/
structure Receiving where
  slot : Fin numRecvBuffers
  data : Option SlotId

structure Datagram where
  name : Option Name
  bytes : Bytes
  call : Nat
  deriving DecidableEq

/-- The call that a thread is in, with the slot it has acquired. -/
structure Holding where
  slot : Fin numSendBuffers
  data : Bytes
  call : Nat

/-- Where a call of `write` is; `k` is the entry that `io_uring_get_sqe` has returned. -/
inductive WritePc where
  | idle
  | acquired (own : Holding)
  | copied (own : Holding)
  | filled (own : Holding)
  | reserved (own : Holding) (k : Nat)
  | prepared (own : Holding) (k : Nat)
  | queued

def WritePc.holding : WritePc → Option Holding
  | .acquired own | .copied own | .filled own | .reserved own _ | .prepared own _ => some own
  | .idle | .queued => none

/-- Where `completion_loop` is; from `reserved` to `prepared` it is in `arm_recv`. -/
inductive LoopPc where
  | wait
  | arm (slot : Fin numRecvBuffers)
  | reserved (slot : Fin numRecvBuffers) (k : Nat)
  | filled (slot : Fin numRecvBuffers) (k : Nat)
  | prepared (slot : Fin numRecvBuffers) (k : Nat)
  | submit

/-- The interface after `open`, with its ring, its threads and the kernel. `calls` are the
arguments of the calls of `write` that have acquired a slot, and every send has the number of
its call. -/
structure Ring (ι : Type*) where
  ready : Bool := true
  failed : Bool := false
  slots : SlotId → Slot
  nextSendSlot : UInt32 := 0
  writers : ι → WritePc := fun _ => .idle
  loop : LoopPc := .wait
  sq : EntryRing Sqe
  sending : List Sending := []
  receiving : List Receiving := (List.finRange numRecvBuffers).map fun i => ⟨i, some (.recv i)⟩
  cq : List Cqe := []
  received : List Bytes := []
  calls : List Bytes := []
  wire : List Datagram := []

variable {ι : Type*}

def Ring.setSlot (s : Ring ι) (id : SlotId) (slot : Slot) : Ring ι :=
  { s with slots := Function.update s.slots id slot }

def Ring.setWriter [DecidableEq ι] (s : Ring ι) (i : ι) (pc : WritePc) : Ring ι :=
  { s with writers := Function.update s.writers i pc }

def Sqe.sending (sqe : Sqe) : Option Sending :=
  match sqe.request with
  | .sendmsg slot call => some { slot, call, data := sqe.data }
  | .nop | .recvmsg _ => none

def Sqe.receiving (sqe : Sqe) : Option Receiving :=
  match sqe.request with
  | .recvmsg slot => some { slot, data := sqe.data }
  | .nop | .sendmsg _ _ => none

/-- An entry that was never prepared asks for nothing, and completes at once. -/
def Sqe.done (sqe : Sqe) : Option Cqe :=
  match sqe.request with
  | .nop => some { data := sqe.data, res := 0 }
  | .recvmsg _ | .sendmsg _ _ => none

/-- `io_uring_submit` where the kernel takes `n` entries of the queue. -/
def Ring.submit (s : Ring ι) (n : Nat) : Ring ι :=
  { s with
    sq := s.sq.take n
    sending := s.sending ++ (s.sq.taken n).filterMap Sqe.sending
    receiving := s.receiving ++ (s.sq.taken n).filterMap Sqe.receiving
    cq := s.cq ++ (s.sq.taken n).filterMap Sqe.done }

def armed (slot : Slot) (i : Fin numRecvBuffers) : Slot :=
  slot.header (.recv i) bufferSize (.addr (.recv i))

/-- The entries that `open` has used for its receives still hold them. -/
def openedQueue (entries : Nat) : EntryRing Sqe where
  entries
  cells k := if h : k < numRecvBuffers then ⟨.recvmsg ⟨k, h⟩, some (.recv ⟨k, h⟩)⟩ else {}
  head := numRecvBuffers
  tail := numRecvBuffers

def Ring.opened (entries : Nat) (nextSendSlot : UInt32) : Ring ι where
  nextSendSlot
  slots
    | .recv i => armed {} i
    | .send _ => {}
  sq := openedQueue entries

/-- The slot that `acquire_send_slot` returns. -/
def Ring.sendSlot (s : Ring ι) : Fin numSendBuffers :=
  ⟨s.nextSendSlot.toNat % numSendBuffers, Nat.mod_lt _ (by decide)⟩

/-- The checks of `write`. -/
def Ring.Accepts (s : Ring ι) (data : Bytes) : Prop :=
  s.ready = true ∧ s.failed = false ∧ data.length ≤ bufferSize

instance (s : Ring ι) (data : Bytes) : Decidable (s.Accepts data) :=
  inferInstanceAs (Decidable (_ ∧ _ ∧ _))

/-- The steps of `write`, those of the kernel, which takes up its sends in any order, and those
of `completion_loop`, where `arm` to `armSetData` are `arm_recv`. -/
inductive Action (ι : Type*) where
  | acquire (i : ι) (data : Bytes)
  | memcpy (i : ι)
  | header (i : ι)
  | getSqe (i : ι)
  | prepSendmsg (i : ι)
  | setData (i : ι)
  | submit (i : ι) (n : Nat)
  | readHeader (k : Nat)
  | readByte (k : Nat)
  | send (k : Nat)
  | complete (k : Nat) (res : Int)
  | receive (k : Nat) (data : Bytes)
  | failReceive (k : Nat) (res : Int)
  | seen
  | arm
  | armHeader
  | prepRecvmsg
  | armSetData
  | loopSubmit (n : Nat)

def Sending.readHeader (slots : SlotId → Slot) (op : Sending) : Option Sending :=
  if op.header.isSome then none
  else
    let msg := (slots (.send op.slot)).msg
    msg.iov.bind fun id => (slots id).iov.map fun iov => { op with header := some (iov, msg.name) }

def Sending.readByte (slots : SlotId → Slot) (op : Sending) : Option Sending :=
  op.header.bind fun header =>
    if h : op.read.length < header.1.len ∧ op.read.length < bufferSize then
      some { op with read := op.read ++ [(slots header.1.base).buf ⟨op.read.length, h.2⟩] }
    else none

/-- The kernel sends once, when it has read all. -/
def Sending.datagram (op : Sending) : Option Datagram :=
  op.header.bind fun header =>
    if op.read.length = header.1.len ∧ op.sent = false then
      some { name := header.2, bytes := op.read, call := op.call }
    else none

def Ring.receive (s : Ring ι) (k : Nat) (r : Receiving) (data : Bytes) : Ring ι :=
  let data := data.take bufferSize
  { s.setSlot (.recv r.slot) ((s.slots (.recv r.slot)).memcpy data) with
    receiving := s.receiving.eraseIdx k
    cq := s.cq ++ [⟨r.data, data.length⟩] }

/-- What `completion_loop` does with a completion; one of a send needs no action. -/
def Ring.completed (s : Ring ι) (cqe : Cqe) : Ring ι :=
  match cqe.data with
  | some (.recv i) =>
    let data := (s.slots (.recv i)).span cqe.res.toNat
    { s with
      received := if cqe.res > 0 then s.received ++ [data] else s.received
      loop := .arm i }
  | some (.send _) | none => s

/-- `arm_recv` returns when there is no free entry. -/
def Ring.arm (s : Ring ι) (i : Fin numRecvBuffers) : Ring ι :=
  match s.sq.reserve with
  | some (k, sq) => { s with sq, loop := .reserved i k }
  | none => { s with loop := .submit }

section Steps

variable [DecidableEq ι]

/-- A call that the checks refuse returns at once. -/
def Ring.acquire (s : Ring ι) (i : ι) (data : Bytes) : Ring ι :=
  if s.Accepts data then
    { s.setWriter i (.acquired ⟨s.sendSlot, data, s.calls.length⟩) with
      nextSendSlot := s.nextSendSlot + 1
      calls := s.calls ++ [data] }
  else s

/-- Without a free entry the datagram is dropped. -/
def Ring.getSqe (s : Ring ι) (i : ι) (own : Holding) : Ring ι :=
  match s.sq.reserve with
  | some (k, sq) => { s with sq }.setWriter i (.reserved own k)
  | none => s.setWriter i .idle

def Ring.next (s : Ring ι) : Action ι → Option (Ring ι)
  | .acquire i data =>
    match s.writers i with
    | .idle => some (s.acquire i data)
    | _ => none
  | .memcpy i =>
    match s.writers i with
    | .acquired own =>
      let slot := (s.slots (.send own.slot)).memcpy own.data
      some ((s.setSlot (.send own.slot) slot).setWriter i (.copied own))
    | _ => none
  | .header i =>
    match s.writers i with
    | .copied own =>
      let slot := (s.slots (.send own.slot)).header (.send own.slot) own.data.length .remote
      some ((s.setSlot (.send own.slot) slot).setWriter i (.filled own))
    | _ => none
  | .getSqe i =>
    match s.writers i with
    | .filled own => some (s.getSqe i own)
    | _ => none
  | .prepSendmsg i =>
    match s.writers i with
    | .reserved own k =>
      let sqe := { s.sq.get k with request := .sendmsg own.slot own.call }
      some ({ s with sq := s.sq.set k sqe }.setWriter i (.prepared own k))
    | _ => none
  | .setData i =>
    match s.writers i with
    | .prepared own k =>
      let sqe := { s.sq.get k with data := some (.send own.slot) }
      some ({ s with sq := s.sq.set k sqe }.setWriter i .queued)
    | _ => none
  | .submit i n =>
    match s.writers i with
    | .queued => some ((s.submit n).setWriter i .idle)
    | _ => none
  | .readHeader k => s.sending[k]?.bind fun op => (op.readHeader s.slots).map fun op =>
    { s with sending := s.sending.set k op }
  | .readByte k => s.sending[k]?.bind fun op => (op.readByte s.slots).map fun op =>
    { s with sending := s.sending.set k op }
  | .send k => s.sending[k]?.bind fun op => op.datagram.map fun datagram =>
    { s with sending := s.sending.set k { op with sent := true }, wire := s.wire ++ [datagram] }
  | .complete k res => s.sending[k]?.map fun op =>
    { s with sending := s.sending.eraseIdx k, cq := s.cq ++ [⟨op.data, res⟩] }
  | .receive k data => s.receiving[k]?.map fun r => s.receive k r data
  | .failReceive k res => s.receiving[k]?.map fun r =>
    { s with receiving := s.receiving.eraseIdx k, cq := s.cq ++ [⟨r.data, min res 0⟩] }
  | .seen =>
    match s.loop, s.cq with
    | .wait, cqe :: cq => some ({ s with cq }.completed cqe)
    | _, _ => none
  | .arm =>
    match s.loop with
    | .arm i => some (s.arm i)
    | _ => none
  | .armHeader =>
    match s.loop with
    | .reserved i k =>
      some { s.setSlot (.recv i) (armed (s.slots (.recv i)) i) with loop := .filled i k }
    | _ => none
  | .prepRecvmsg =>
    match s.loop with
    | .filled i k =>
      let sqe := { s.sq.get k with request := .recvmsg i }
      some { s with sq := s.sq.set k sqe, loop := .prepared i k }
    | _ => none
  | .armSetData =>
    match s.loop with
    | .prepared i k =>
      let sqe := { s.sq.get k with data := some (.recv i) }
      some { s with sq := s.sq.set k sqe, loop := .submit }
    | _ => none
  | .loopSubmit n =>
    match s.loop with
    | .submit => some { s.submit n with loop := .wait }
    | _ => none

/-- `open` asks for an entry for every slot and eight more, and gets at least these. -/
def Ring.system (ι : Type*) [DecidableEq ι] : System (Ring ι) (Action ι) where
  start s := ∃ entries next ready failed, numRecvBuffers + numSendBuffers + 8 ≤ entries ∧
    s = { Ring.opened entries next with ready, failed }
  next := Ring.next

end Steps

theorem Ring.setSlot_self {s : Ring ι} {id : SlotId} {slot : Slot} :
    (s.setSlot id slot).slots id = slot :=
  Function.update_self _ _ _

theorem Ring.setSlot_of_ne {s : Ring ι} {id id' : SlotId} {slot : Slot} (h : id' ≠ id) :
    (s.setSlot id slot).slots id' = s.slots id' :=
  Function.update_of_ne h _ _

theorem Ring.setSlot_recv (s : Ring ι) (i : Fin numRecvBuffers) (slot : Slot)
    (p : Fin numSendBuffers) :
    (s.setSlot (.recv i) slot).slots (.send p) = s.slots (.send p) :=
  Ring.setSlot_of_ne (by simp)

theorem Ring.receive_slots (s : Ring ι) (k : Nat) (r : Receiving) (data : Bytes)
    (p : Fin numSendBuffers) :
    (s.receive k r data).slots (.send p) = s.slots (.send p) :=
  s.setSlot_recv r.slot ((s.slots (.recv r.slot)).memcpy (data.take bufferSize)) p

section Writers

variable [DecidableEq ι]

theorem Ring.setWriter_self {s : Ring ι} {i : ι} {pc : WritePc} :
    (s.setWriter i pc).writers i = pc :=
  Function.update_self _ _ _

theorem Ring.setWriter_of_ne {s : Ring ι} {i j : ι} {pc : WritePc} (h : j ≠ i) :
    (s.setWriter i pc).writers j = s.writers j :=
  Function.update_of_ne h _ _

/-- What a step does, with the place of the thread before it. -/
inductive Ring.Step (s : Ring ι) : Action ι → Ring ι → Prop
  | acquire {i : ι} {data : Bytes} (hi : s.writers i = .idle) (haccepts : s.Accepts data) :
      Ring.Step s (.acquire i data)
        { s.setWriter i (.acquired ⟨s.sendSlot, data, s.calls.length⟩) with
          nextSendSlot := s.nextSendSlot + 1
          calls := s.calls ++ [data] }
  | refuse {i : ι} {data : Bytes} : Ring.Step s (.acquire i data) s
  | memcpy {i : ι} {own : Holding} (hi : s.writers i = .acquired own) :
      Ring.Step s (.memcpy i) ((s.setSlot (.send own.slot)
        ((s.slots (.send own.slot)).memcpy own.data)).setWriter i (.copied own))
  | header {i : ι} {own : Holding} (hi : s.writers i = .copied own) :
      Ring.Step s (.header i) ((s.setSlot (.send own.slot)
        ((s.slots (.send own.slot)).header (.send own.slot) own.data.length .remote)).setWriter i
          (.filled own))
  | getSqe {i : ι} {own : Holding} {k : Nat} {sq : EntryRing Sqe} (hi : s.writers i = .filled own)
      (hsq : s.sq.reserve = some (k, sq)) :
      Ring.Step s (.getSqe i) ({ s with sq }.setWriter i (.reserved own k))
  | dropSend {i : ι} {own : Holding} (hi : s.writers i = .filled own)
      (hsq : s.sq.reserve = none) : Ring.Step s (.getSqe i) (s.setWriter i .idle)
  | prepSendmsg {i : ι} {own : Holding} {k : Nat} (hi : s.writers i = .reserved own k) :
      Ring.Step s (.prepSendmsg i)
        ({ s with sq := s.sq.set k { s.sq.get k with request := .sendmsg own.slot own.call }
          }.setWriter i (.prepared own k))
  | setData {i : ι} {own : Holding} {k : Nat} (hi : s.writers i = .prepared own k) :
      Ring.Step s (.setData i)
        ({ s with sq := s.sq.set k { s.sq.get k with data := some (.send own.slot) }
          }.setWriter i .queued)
  | submit {i : ι} {n : Nat} (hi : s.writers i = .queued) :
      Ring.Step s (.submit i n) ((s.submit n).setWriter i .idle)
  | readHeader {k : Nat} {op op' : Sending} (hk : s.sending[k]? = some op)
      (hop : op.readHeader s.slots = some op') :
      Ring.Step s (.readHeader k) { s with sending := s.sending.set k op' }
  | readByte {k : Nat} {op op' : Sending} (hk : s.sending[k]? = some op)
      (hop : op.readByte s.slots = some op') :
      Ring.Step s (.readByte k) { s with sending := s.sending.set k op' }
  | send {k : Nat} {op : Sending} {d : Datagram} (hk : s.sending[k]? = some op)
      (hop : op.datagram = some d) :
      Ring.Step s (.send k)
        { s with sending := s.sending.set k { op with sent := true }, wire := s.wire ++ [d] }
  | complete {k : Nat} {res : Int} {op : Sending} (hk : s.sending[k]? = some op) :
      Ring.Step s (.complete k res)
        { s with sending := s.sending.eraseIdx k, cq := s.cq ++ [⟨op.data, res⟩] }
  | receive {k : Nat} {data : Bytes} {r : Receiving} (hk : s.receiving[k]? = some r) :
      Ring.Step s (.receive k data) (s.receive k r data)
  | failReceive {k : Nat} {res : Int} {r : Receiving} (hk : s.receiving[k]? = some r) :
      Ring.Step s (.failReceive k res)
        { s with receiving := s.receiving.eraseIdx k, cq := s.cq ++ [⟨r.data, min res 0⟩] }
  | seen {cqe : Cqe} {cq : List Cqe} (hloop : s.loop = .wait) (hcq : s.cq = cqe :: cq) :
      Ring.Step s .seen ({ s with cq }.completed cqe)
  | arm {i : Fin numRecvBuffers} {k : Nat} {sq : EntryRing Sqe} (hloop : s.loop = .arm i)
      (hsq : s.sq.reserve = some (k, sq)) :
      Ring.Step s .arm { s with sq, loop := .reserved i k }
  | armNothing {i : Fin numRecvBuffers} (hloop : s.loop = .arm i) (hsq : s.sq.reserve = none) :
      Ring.Step s .arm { s with loop := .submit }
  | armHeader {i : Fin numRecvBuffers} {k : Nat} (hloop : s.loop = .reserved i k) :
      Ring.Step s .armHeader
        { s.setSlot (.recv i) (armed (s.slots (.recv i)) i) with loop := .filled i k }
  | prepRecvmsg {i : Fin numRecvBuffers} {k : Nat} (hloop : s.loop = .filled i k) :
      Ring.Step s .prepRecvmsg
        { s with
          sq := s.sq.set k { s.sq.get k with request := .recvmsg i }
          loop := .prepared i k }
  | armSetData {i : Fin numRecvBuffers} {k : Nat} (hloop : s.loop = .prepared i k) :
      Ring.Step s .armSetData
        { s with sq := s.sq.set k { s.sq.get k with data := some (.recv i) }, loop := .submit }
  | loopSubmit {n : Nat} (hloop : s.loop = .submit) :
      Ring.Step s (.loopSubmit n) { s.submit n with loop := .wait }

theorem Ring.next_step {s t : Ring ι} {a : Action ι} (hn : s.next a = some t) : s.Step a t := by
  cases a with
  | acquire i data =>
    simp only [Ring.next] at hn
    split at hn <;> cases hn
    next hi =>
    rw [Ring.acquire]
    split
    · next haccepts => exact .acquire hi haccepts
    · exact .refuse
  | memcpy i =>
    simp only [Ring.next] at hn
    split at hn <;> cases hn
    next hi => exact .memcpy hi
  | header i =>
    simp only [Ring.next] at hn
    split at hn <;> cases hn
    next hi => exact .header hi
  | getSqe i =>
    simp only [Ring.next] at hn
    split at hn <;> cases hn
    next hi =>
    rw [Ring.getSqe]
    split
    · next hsq => exact .getSqe hi hsq
    · next hsq => exact .dropSend hi hsq
  | prepSendmsg i =>
    simp only [Ring.next] at hn
    split at hn <;> cases hn
    next hi => exact .prepSendmsg hi
  | setData i =>
    simp only [Ring.next] at hn
    split at hn <;> cases hn
    next hi => exact .setData hi
  | submit i n =>
    simp only [Ring.next] at hn
    split at hn <;> cases hn
    next hi => exact .submit hi
  | readHeader k =>
    obtain ⟨op, hk, hn⟩ := Option.bind_eq_some_iff.mp hn
    obtain ⟨op', hop, rfl⟩ := Option.map_eq_some_iff.mp hn
    exact .readHeader hk hop
  | readByte k =>
    obtain ⟨op, hk, hn⟩ := Option.bind_eq_some_iff.mp hn
    obtain ⟨op', hop, rfl⟩ := Option.map_eq_some_iff.mp hn
    exact .readByte hk hop
  | send k =>
    obtain ⟨op, hk, hn⟩ := Option.bind_eq_some_iff.mp hn
    obtain ⟨d, hop, rfl⟩ := Option.map_eq_some_iff.mp hn
    exact .send hk hop
  | complete k res =>
    obtain ⟨op, hk, rfl⟩ := Option.map_eq_some_iff.mp hn
    exact .complete hk
  | receive k data =>
    obtain ⟨r, hk, rfl⟩ := Option.map_eq_some_iff.mp hn
    exact .receive hk
  | failReceive k res =>
    obtain ⟨r, hk, rfl⟩ := Option.map_eq_some_iff.mp hn
    exact .failReceive hk
  | seen =>
    simp only [Ring.next] at hn
    split at hn <;> cases hn
    next hloop hcq => exact .seen hloop hcq
  | arm =>
    simp only [Ring.next] at hn
    split at hn <;> cases hn
    next hloop =>
    rw [Ring.arm]
    split
    · next hsq => exact .arm hloop hsq
    · next hsq => exact .armNothing hloop hsq
  | armHeader =>
    simp only [Ring.next] at hn
    split at hn <;> cases hn
    next hloop => exact .armHeader hloop
  | prepRecvmsg =>
    simp only [Ring.next] at hn
    split at hn <;> cases hn
    next hloop => exact .prepRecvmsg hloop
  | armSetData =>
    simp only [Ring.next] at hn
    split at hn <;> cases hn
    next hloop => exact .armSetData hloop
  | loopSubmit n =>
    simp only [Ring.next] at hn
    split at hn <;> cases hn
    next hloop => exact .loopSubmit hloop

end Writers

end SensorForge.IoUring
