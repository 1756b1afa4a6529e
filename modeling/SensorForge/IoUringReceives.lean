import SensorForge.IoUringSends

/-! Receives through an io_uring. A receive slot is with the kernel, in one of the two queues or
with the completion loop, and its buffer is written only while the kernel has it. -/

namespace SensorForge.IoUring

open Transition

variable {ι : Type*}

def Sqe.receives (sqe : Sqe) : Option (Fin numRecvBuffers) :=
  match sqe.request with
  | .recvmsg i => some i
  | .nop | .sendmsg _ _ => none

def Cqe.receives (cqe : Cqe) : Option (Fin numRecvBuffers) :=
  match cqe.data with
  | some (.recv i) => some i
  | some (.send _) | none => none

def LoopPc.arms : LoopPc → Option (Fin numRecvBuffers)
  | .arm i | .reserved i _ | .filled i _ | .prepared i _ => some i
  | .wait | .submit => none

/-- The receive slots that are about to receive, or about to be armed again. -/
def Ring.flight [Fintype ι] (s : Ring ι) : Multiset (Fin numRecvBuffers) :=
  ↑(s.receiving.map Receiving.slot) + s.queued.filterMap Sqe.receives +
    ↑(s.cq.filterMap Cqe.receives) + ↑s.loop.arms.toList

/-- What the callback will be called with for a completion. -/
def Ring.content (s : Ring ι) (cqe : Cqe) : Option Bytes :=
  cqe.receives.bind fun i =>
    if cqe.res > 0 then some ((s.slots (.recv i)).span cqe.res.toNat) else none

/-- A datagram is cut to the length of the buffer. -/
def Action.arrives : Action ι → List Bytes
  | .receive _ data => [data.take bufferSize]
  | _ => []

/-- The interface with the datagrams that have arrived at its socket, in the order in which the
kernel has completed them. -/
structure Listening (ι : Type*) where
  ring : Ring ι
  arrived : List Bytes := []

def Listening.next [DecidableEq ι] (l : Listening ι) (a : Action ι) : Option (Listening ι) :=
  (l.ring.next a).map fun ring => { ring, arrived := l.arrived ++ a.arrives }

def Listening.system (ι : Type*) [DecidableEq ι] : System (Listening ι) (Action ι) where
  start l := (Ring.system ι).start l.ring ∧ l.arrived = []
  next := Listening.next

def Listening.exclusive (l : Listening ι) (a : Action ι) : Prop := l.ring.exclusive a

instance [Fintype ι] (l : Listening ι) (a : Action ι) : Decidable (l.exclusive a) :=
  inferInstanceAs (Decidable (l.ring.exclusive a))

theorem receiving_split {l : List Receiving} {k : Nat} {r : Receiving} (h : l[k]? = some r) :
    (↑(l.map Receiving.slot) : Multiset (Fin numRecvBuffers)) =
      {r.slot} + ↑((l.eraseIdx k).map Receiving.slot) := by
  obtain ⟨hk, rfl⟩ := List.getElem?_eq_some_iff.mp h
  rw [Multiset.singleton_add, Multiset.cons_coe, ← List.map_cons]
  exact Multiset.coe_eq_coe.mpr ((List.getElem_cons_eraseIdx_perm hk).symm.map _)

section Flight

variable [Fintype ι] {s t : Ring ι} {a : Action ι}

/-- What the kernel takes from a tidy queue are receives and sends. -/
theorem Ring.Tidy.submit_cq (h : s.Tidy) {n : Nat}
    (hqueued : s.queued = ↑(s.sq.taken n) + t.queued) : (s.submit n).cq = s.cq := by
  have hdone : (s.sq.taken n).filterMap Sqe.done = [] := by
    refine List.filterMap_eq_nil_iff.mpr fun sqe hmem => ?_
    have hready : sqe.Ready := by
      refine h.prepares.ready sqe ?_
      change sqe ∈ s.queued
      rw [hqueued]
      exact Multiset.mem_add.mpr (.inl hmem)
    obtain ⟨request, data⟩ := sqe
    cases request with
    | nop => exact absurd hready id
    | recvmsg | sendmsg => rfl
  rw [Ring.submit, hdone]
  exact List.append_nil _

theorem Ring.Tidy.submit_flight (h : s.Tidy) {n : Nat}
    (hqueued : s.queued = ↑(s.sq.taken n) + t.queued)
    (hreceiving : t.receiving = (s.submit n).receiving) (hcq : t.cq = (s.submit n).cq)
    (hloop : t.loop.arms = s.loop.arms) : t.flight = s.flight := by
  have hslots : ((s.sq.taken n).filterMap Sqe.receiving).map Receiving.slot =
      (s.sq.taken n).filterMap Sqe.receives := by
    rw [List.map_filterMap]
    refine List.filterMap_congr fun sqe _ => ?_
    obtain ⟨request, data⟩ := sqe
    cases request <;> rfl
  have hsplit : s.queued.filterMap Sqe.receives =
      ↑((s.sq.taken n).filterMap Sqe.receives) + t.queued.filterMap Sqe.receives := by
    rw [hqueued, Multiset.filterMap_add, Multiset.filterMap_coe]
  rw [Ring.flight, Ring.flight, hreceiving, hcq, h.submit_cq hqueued, hloop, hsplit, Ring.submit]
  simp only [List.map_append, hslots, ← Multiset.coe_add]
  abel

variable [DecidableEq ι]

/-- A step moves the receive slots on. Only an arm step that finds no free entry loses one. -/
theorem Ring.Tidy.step_flight (h : s.Tidy) (hg : s.exclusive a) (hs : s.Step a t) :
    t.flight = s.flight ∨ a = .arm ∧ s.sq.reserve = none ∧ t.flight ≤ s.flight := by
  have hqueues := (h.step hg hs).2
  -- most steps leave the receives where they are
  have same : t.receiving = s.receiving → t.queued = s.queued → t.cq = s.cq →
      t.loop.arms = s.loop.arms → t.flight = s.flight := by
    intro hreceiving hqueued hcq hloop
    rw [Ring.flight, Ring.flight, hreceiving, hqueued, hcq, hloop]
  cases hs with
  | acquire | refuse | memcpy | header | getSqe | dropSend | prepSendmsg | readHeader | readByte
  | send => exact .inl (same rfl hqueues rfl rfl)
  | setData hi =>
    obtain ⟨own, k, _, hqueued⟩ := hqueues
    refine .inl ?_
    have hsend : Sqe.receives ⟨.sendmsg own.slot own.call, some (.send own.slot)⟩ = none := rfl
    rw [Ring.flight, Ring.flight, hqueued, Multiset.filterMap_cons_none _ _ hsend]
    rfl
  | submit => exact .inl (h.submit_flight hqueues rfl rfl rfl)
  | @complete k res op hk =>
    have hdata := h.sending op (List.mem_of_getElem? hk)
    have hnone : Cqe.receives ⟨op.data, res⟩ = none := by rw [hdata]; rfl
    refine .inl ?_
    rw [Ring.flight, Ring.flight, hqueues]
    simp only [List.filterMap_append, List.filterMap_cons, hnone, List.filterMap_nil,
      List.append_nil]
  | @receive k data r hk =>
    have hsome : Cqe.receives ⟨r.data, (data.take bufferSize).length⟩ = some r.slot := by
      rw [h.receiving r (List.mem_of_getElem? hk)]
      rfl
    refine .inl ?_
    rw [Ring.flight, Ring.flight, hqueues, receiving_split hk]
    simp only [Ring.receive, Ring.setSlot, List.filterMap_append, ← Multiset.coe_add,
      List.filterMap_cons, hsome, List.filterMap_nil, Multiset.coe_singleton]
    abel
  | @failReceive k res r hk =>
    have hsome : Cqe.receives ⟨r.data, min res 0⟩ = some r.slot := by
      rw [h.receiving r (List.mem_of_getElem? hk)]
      rfl
    refine .inl ?_
    rw [Ring.flight, Ring.flight, hqueues, receiving_split hk]
    simp only [List.filterMap_append, ← Multiset.coe_add, List.filterMap_cons, hsome,
      List.filterMap_nil, Multiset.coe_singleton]
    abel
  | @seen cqe cq hloop hcq =>
    refine .inl ?_
    rw [Ring.flight, Ring.flight, hqueues, hloop, hcq]
    rcases cqe with ⟨_ | ⟨i | p⟩, res⟩
    · simp [Ring.completed, Cqe.receives, List.filterMap_cons]
    · simp only [Ring.completed, Cqe.receives, LoopPc.arms, List.filterMap_cons,
        Option.toList_some, Option.toList_none, ← Multiset.cons_coe, Multiset.coe_nil,
        ← Multiset.singleton_add]
      abel
    · simp [Ring.completed, Cqe.receives, List.filterMap_cons]
  | arm hloop => exact .inl (same rfl hqueues rfl (congrArg LoopPc.arms hloop).symm)
  | armNothing hloop hsq =>
    refine .inr ⟨rfl, hsq, ?_⟩
    rw [Ring.flight, Ring.flight, hqueues, hloop]
    simp only [LoopPc.arms, Option.toList_none, Multiset.coe_nil, add_zero]
    exact Multiset.le_add_right _ _
  | armHeader hloop => exact .inl (same rfl hqueues rfl (congrArg LoopPc.arms hloop).symm)
  | prepRecvmsg hloop => exact .inl (same rfl hqueues rfl (congrArg LoopPc.arms hloop).symm)
  | @armSetData i k hloop =>
    obtain ⟨slot, k', hloop', hqueued⟩ := hqueues
    rw [hloop] at hloop'
    cases hloop'
    have hrecv : Sqe.receives ⟨.recvmsg i, some (.recv i)⟩ = some i := rfl
    refine .inl ?_
    rw [Ring.flight, Ring.flight, hqueued, Multiset.filterMap_cons_some _ _ _ hrecv, hloop]
    simp only [LoopPc.arms, Option.toList_some, Option.toList_none, Multiset.coe_singleton,
      Multiset.coe_nil, ← Multiset.singleton_add]
    abel
  | loopSubmit hloop =>
    exact .inl (h.submit_flight hqueues rfl rfl (congrArg LoopPc.arms hloop).symm)

end Flight

/-- The datagrams that the callback has been called with, and those it will be called with for
what is in the completion queue. -/
def Ring.delivered (s : Ring ι) : List Bytes := s.received ++ s.cq.filterMap s.content

section Delivered

variable {s t : Ring ι}

theorem Ring.content_congr (h : ∀ i, (t.slots (.recv i)).buf = (s.slots (.recv i)).buf) :
    t.content = s.content := by
  funext cqe
  refine Option.bind_congr fun i _ => ?_
  rw [Slot.span_congr (h i)]

theorem Ring.delivered_congr (hreceived : t.received = s.received) (hcq : t.cq = s.cq)
    (hbuf : ∀ i, (t.slots (.recv i)).buf = (s.slots (.recv i)).buf) :
    t.delivered = s.delivered := by
  rw [Ring.delivered, Ring.delivered, hreceived, hcq, Ring.content_congr hbuf]

/-- A completion that brings nothing. -/
theorem Ring.delivered_concat {cqe : Cqe} (hreceived : t.received = s.received)
    (hcq : t.cq = s.cq ++ [cqe]) (hslots : t.slots = s.slots) (hnone : s.content cqe = none) :
    t.delivered = s.delivered := by
  have hcontent : t.content = s.content := Ring.content_congr fun _ => by rw [hslots]
  rw [Ring.delivered, Ring.delivered, hreceived, hcq, hcontent, List.filterMap_append,
    List.filterMap_cons, hnone, List.filterMap_nil, List.append_nil]

variable [Fintype ι]

/-- A slot that the kernel has is not in the completion queue. -/
theorem Ring.not_completed (h : s.flight.Nodup) {k : Nat} {r : Receiving}
    (hk : s.receiving[k]? = some r) : ∀ cqe ∈ s.cq, cqe.receives ≠ some r.slot := by
  intro cqe hmem hrecv
  have hreceiving : r.slot ∈ s.receiving.map Receiving.slot :=
    List.mem_map_of_mem (List.mem_of_getElem? hk)
  have hcq : r.slot ∈ s.cq.filterMap Cqe.receives := List.mem_filterMap.mpr ⟨cqe, hmem, hrecv⟩
  have hboth : {r.slot} + {r.slot} ≤ s.flight := by
    rw [Ring.flight, add_assoc, add_assoc]
    refine add_le_add (Multiset.singleton_le.mpr hreceiving) ?_
    have hle := Multiset.singleton_le.mpr
      (show r.slot ∈ (↑(s.cq.filterMap Cqe.receives) : Multiset _) from hcq)
    exact hle.trans ((Multiset.le_add_right _ _).trans (Multiset.le_add_left _ _))
  have hcount := Multiset.nodup_iff_count_le_one.mp (Multiset.nodup_of_le hboth h) r.slot
  simp at hcount

theorem Ring.receive_delivered (h : s.flight.Nodup) {k : Nat} {r : Receiving}
    (hk : s.receiving[k]? = some r) (hdata : r.data = some (.recv r.slot)) (data : Bytes) :
    (s.receive k r data).delivered =
      s.delivered ++ [data.take bufferSize].filter (· ≠ []) := by
  have hold : s.cq.filterMap (s.receive k r data).content = s.cq.filterMap s.content := by
    refine List.filterMap_congr fun cqe hmem => ?_
    refine Option.bind_congr fun j hj => ?_
    have hne : j ≠ r.slot := fun hji => s.not_completed h hk cqe hmem (hji ▸ hj)
    have hslot : (s.receive k r data).slots (.recv j) = s.slots (.recv j) :=
      Function.update_of_ne (fun heq => hne (SlotId.recv.inj heq)) _ _
    rw [hslot]
  have hnew : [(⟨r.data, (data.take bufferSize).length⟩ : Cqe)].filterMap
      (s.receive k r data).content = [data.take bufferSize].filter (· ≠ []) := by
    have hslot : (s.receive k r data).slots (.recv r.slot) =
        (s.slots (.recv r.slot)).memcpy (data.take bufferSize) := Function.update_self _ _ _
    obtain ⟨bytes, hbytes⟩ : ∃ bytes, data.take bufferSize = bytes := ⟨_, rfl⟩
    have hfits : bytes.length ≤ bufferSize := by
      rw [← hbytes, List.length_take]
      exact Nat.min_le_left _ _
    rw [hbytes] at hslot ⊢
    have hcontent : (s.receive k r data).content ⟨r.data, bytes.length⟩ =
        if (bytes.length : Int) > 0 then
          some (((s.slots (.recv r.slot)).memcpy bytes).span bytes.length)
        else none := by
      rw [Ring.content, hdata]
      simp only [Cqe.receives, Option.bind_some, hslot, Int.toNat_natCast]
    rw [List.filterMap_cons, hcontent]
    by_cases hempty : bytes = []
    · subst hempty
      rfl
    · have hpos := List.length_pos_iff.mpr hempty
      rw [if_pos (by omega)]
      rw [Slot.span_memcpy _ hfits, List.filter_cons_of_pos (by simpa using hempty)]
      rfl
  have hcq : (s.receive k r data).cq = s.cq ++ [⟨r.data, (data.take bufferSize).length⟩] := rfl
  rw [Ring.delivered, hcq, List.filterMap_append, hold, hnew, ← List.append_assoc]
  rfl

variable [DecidableEq ι]

/-- A step hands on what has arrived, and changes none of it. -/
theorem Ring.Tidy.step_delivered {a : Action ι} (h : s.Tidy) (hg : s.exclusive a)
    (hnodup : s.flight.Nodup) (hs : s.Step a t) :
    t.delivered = s.delivered ++ a.arrives.filter (· ≠ []) := by
  have hqueues := (h.step hg hs).2
  -- nothing arrives
  have silent : t.delivered = s.delivered → a.arrives = [] →
      t.delivered = s.delivered ++ a.arrives.filter (· ≠ []) := by
    intro hsame harrives
    rw [hsame, harrives, List.filter_nil, List.append_nil]
  cases hs with
  | acquire | refuse | memcpy | header | getSqe | dropSend | prepSendmsg | setData | readHeader
  | readByte | send => exact silent (Ring.delivered_congr rfl rfl fun _ => rfl) rfl
  | submit => exact silent (Ring.delivered_congr rfl (h.submit_cq hqueues) fun _ => rfl) rfl
  | @complete k res op hk =>
    have hnone : s.content ⟨op.data, res⟩ = none := by
      rw [h.sending op (List.mem_of_getElem? hk)]
      rfl
    exact silent (Ring.delivered_concat rfl rfl rfl hnone) rfl
  | @receive k data r hk =>
    exact s.receive_delivered hnodup hk (h.receiving r (List.mem_of_getElem? hk)) data
  | @failReceive k res r hk =>
    have hnone : s.content ⟨r.data, min res 0⟩ = none := by
      rw [h.receiving r (List.mem_of_getElem? hk)]
      exact if_neg (Int.not_lt.mpr (min_le_right res 0))
    exact silent (Ring.delivered_concat rfl rfl rfl hnone) rfl
  | @seen cqe cq hloop hcq =>
    refine silent ?_ rfl
    rw [Ring.delivered, Ring.delivered, hcq, List.filterMap_cons]
    rcases cqe with ⟨_ | ⟨i | p⟩, res⟩
    · rfl
    · by_cases hres : res > 0
      · have hcontent : s.content ⟨some (.recv i), res⟩ =
            some ((s.slots (.recv i)).span res.toNat) := if_pos hres
        rw [hcontent]
        simp only [Ring.completed, if_pos hres, List.append_assoc]
        rfl
      · have hcontent : s.content ⟨some (.recv i), res⟩ = none := if_neg hres
        rw [hcontent]
        simp only [Ring.completed, if_neg hres]
        rfl
    · rfl
  | arm | armNothing | prepRecvmsg | armSetData =>
    exact silent (Ring.delivered_congr rfl rfl fun _ => rfl) rfl
  | @armHeader i =>
    refine silent (Ring.delivered_congr rfl rfl fun j => ?_) rfl
    by_cases hj : j = i
    · subst hj
      have hslot : (s.setSlot (.recv j) (armed (s.slots (.recv j)) j)).slots (.recv j) =
          armed (s.slots (.recv j)) j := Ring.setSlot_self
      exact (congrArg Slot.buf hslot).trans rfl
    · have hslot : (s.setSlot (.recv i) (armed (s.slots (.recv i)) i)).slots (.recv j) =
          s.slots (.recv j) := Ring.setSlot_of_ne fun heq => hj (SlotId.recv.inj heq)
      exact congrArg Slot.buf hslot
  | loopSubmit =>
    exact silent (Ring.delivered_congr rfl (h.submit_cq hqueues) fun _ => rfl) rfl

end Delivered

theorem Ring.opened_flight [Fintype ι] (entries : Nat) (next : UInt32) (ready failed : Bool) :
    Ring.flight { Ring.opened entries next with ready, failed : Ring ι } =
      ↑(List.finRange numRecvBuffers) := by
  rw [Ring.flight, (Ring.opened_tidy entries next ready failed).2]
  simp [Ring.opened, LoopPc.arms, Function.comp_def]

/-- Where no thread submits while another is between `io_uring_get_sqe` and
`io_uring_sqe_set_data`, every datagram that arrives and is not empty is handed to the callback
once, in the order in which the kernel has completed them and as it has arrived, but for what
exceeds the buffer. No slot is in two places at a time. -/
theorem received_once [Fintype ι] [DecidableEq ι] {l : Listening ι}
    (h : (Listening.system ι).Reachable Listening.exclusive l) :
    l.ring.received ++ l.ring.cq.filterMap l.ring.content = l.arrived.filter (· ≠ []) ∧
      l.ring.flight.Nodup := by
  obtain ⟨_, hdelivered, hnodup⟩ : l.ring.Tidy ∧
      l.ring.delivered = l.arrived.filter (· ≠ []) ∧ l.ring.flight.Nodup := by
    refine h.invariant
      (P := fun l => l.ring.Tidy ∧ l.ring.delivered = l.arrived.filter (· ≠ []) ∧
        l.ring.flight.Nodup) ?_ ?_
    · rintro ⟨ring, arrived⟩ ⟨⟨entries, next, ready, failed, _, rfl⟩, rfl⟩
      refine ⟨(Ring.opened_tidy entries next ready failed).1, rfl, ?_⟩
      rw [Ring.opened_flight]
      exact List.nodup_finRange _
    · rintro l a t ⟨htidy, hdelivered, hnodup⟩ hg hn
      obtain ⟨ring, hring, rfl⟩ := Option.map_eq_some_iff.mp hn
      have hstep := Ring.next_step hring
      refine ⟨(htidy.step hg hstep).1, ?_, ?_⟩
      · rw [htidy.step_delivered hg hnodup hstep, hdelivered, List.filter_append]
      · rcases htidy.step_flight hg hstep with hflight | ⟨_, _, hflight⟩
        · rwa [hflight]
        · exact Multiset.nodup_of_le hflight hnodup
  exact ⟨hdelivered, hnodup⟩

/-- A thread writes while the loop is at work, between `arm_recv` and `io_uring_submit`. A second
turn of the loop follows. -/
def helloRun : List (Action Unit) :=
  [.receive 3 [0x68, 0x69], .failReceive 0 (-4), .acquire () [0x3F], .memcpy (), .header (),
    .receive 1 [0x21], .receive 0 [], .seen, .arm, .armHeader, .prepRecvmsg, .armSetData,
    .getSqe (), .prepSendmsg (), .setData (), .loopSubmit 2, .submit () 2, .seen, .arm, .armHeader,
    .prepRecvmsg, .armSetData, .loopSubmit 2]

theorem received_once_two : ∃ l : Listening Unit,
    (Listening.system Unit).run Listening.exclusive { ring := Ring.opened 136 0 } helloRun =
        some l ∧
      l.ring.received = [[0x68, 0x69]] ∧
      l.ring.received ++ l.ring.cq.filterMap l.ring.content = [[0x68, 0x69], [0x21]] := by
  have hrun : ((Listening.system Unit).run Listening.exclusive { ring := Ring.opened 136 0 }
      helloRun).map (fun l => (l.ring.received, l.arrived)) =
        some ([[0x68, 0x69]], [[0x68, 0x69], [0x21], []]) := by
    decide +kernel
  obtain ⟨l, hl, hview⟩ := Option.map_eq_some_iff.mp hrun
  obtain ⟨hreceived, harrived⟩ := Prod.mk.inj hview
  have hstart : (Listening.system Unit).Reachable Listening.exclusive
      { ring := Ring.opened 136 0 } := .start ⟨⟨136, 0, true, false, by decide, rfl⟩, rfl⟩
  have honce := (received_once (hstart.run hl)).1
  rw [harrived] at honce
  exact ⟨l, hl, hreceived, honce⟩

/-- A call of `io_uring_submit` takes all that is queued, and nothing that is being prepared. -/
def Ring.takesAll (s : Ring ι) : Action ι → Prop
  | .submit _ n | .loopSubmit n => s.Settled ∧ s.sq.tail - s.sq.head ≤ n
  | _ => True

instance Ring.decideTakesAll [Fintype ι] (s : Ring ι) : ∀ a : Action ι, Decidable (s.takesAll a)
  | .submit _ n | .loopSubmit n => inferInstanceAs (Decidable (s.Settled ∧ _ ≤ n))
  | .acquire _ _ | .memcpy _ | .header _ | .getSqe _ | .prepSendmsg _ | .setData _
  | .readHeader _ | .readByte _ | .send _ | .complete _ _ | .receive _ _ | .failReceive _ _
  | .seen | .arm | .armHeader | .prepRecvmsg | .armSetData => instDecidableTrue

theorem Ring.takesAll.exclusive {s : Ring ι} {a : Action ι} (h : s.takesAll a) : s.exclusive a := by
  cases a with
  | submit | loopSubmit => exact h.1
  | _ => trivial

/-- A thread that has an entry and has not yet submitted it. -/
def WritePc.entered : WritePc → Bool
  | .reserved _ _ | .prepared _ _ | .queued => true
  | .idle | .acquired _ | .copied _ | .filled _ => false

def LoopPc.entered : LoopPc → Nat
  | .reserved _ _ | .filled _ _ | .prepared _ _ | .submit => 1
  | .wait | .arm _ => 0

section Room

variable [DecidableEq ι] [Fintype ι] {s t : Ring ι} {a : Action ι}

def Ring.entered (s : Ring ι) : Finset ι := {i | (s.writers i).entered}

/-- Every entry in use is that of a thread that will submit it. -/
def Ring.Bounded (s : Ring ι) : Prop :=
  s.sq.tail - s.sq.head ≤ s.entered.card + s.loop.entered

theorem Ring.entered_setWriter {i : ι} {pc : WritePc} (h : pc.entered = (s.writers i).entered) :
    (s.setWriter i pc).entered = s.entered := by
  ext j
  by_cases hj : j = i
  · subst hj
    simp [Ring.entered, Ring.setWriter_self, h]
  · simp [Ring.entered, Ring.setWriter_of_ne hj]

theorem Ring.entered_insert {i : ι} {pc : WritePc} (hpc : pc.entered = true)
    (h : (s.writers i).entered = false) :
    (s.setWriter i pc).entered.card = s.entered.card + 1 := by
  have hinsert : (s.setWriter i pc).entered = insert i s.entered := by
    ext j
    by_cases hj : j = i
    · subst hj
      simp [Ring.entered, Ring.setWriter_self, hpc]
    · simp [Ring.entered, Ring.setWriter_of_ne hj, hj]
  rw [hinsert, Finset.card_insert_of_notMem (by simp [Ring.entered, h])]

theorem Ring.Bounded.step (h : s.Bounded) (hg : s.takesAll a) (hs : s.Step a t) :
    t.Bounded ∧ t.sq.entries = s.sq.entries := by
  -- a thread that does not ask for an entry
  have writer : ∀ {i : ι} {pc : WritePc}, pc.entered = (s.writers i).entered →
      s.sq.tail - s.sq.head ≤ (s.setWriter i pc).entered.card + s.loop.entered := by
    intro i pc hpc
    rw [Ring.entered_setWriter hpc]
    exact h
  have loop : ∀ {loop : LoopPc}, s.loop.entered ≤ loop.entered →
      s.sq.tail - s.sq.head ≤ s.entered.card + loop.entered :=
    fun hloop => h.trans (Nat.add_le_add_left hloop _)
  have all : ∀ {n m : Nat}, s.sq.tail - s.sq.head ≤ n →
      (s.sq.take n).tail - (s.sq.take n).head ≤ m := by
    intro n m hn
    simp only [EntryRing.take]
    omega
  cases hs with
  | acquire hi | dropSend hi => exact ⟨writer (congrArg WritePc.entered hi).symm, rfl⟩
  | memcpy hi | header hi | prepSendmsg hi | setData hi =>
    exact ⟨writer (congrArg WritePc.entered hi).symm, rfl⟩
  | refuse | readHeader | readByte | send | complete | receive | failReceive => exact ⟨h, rfl⟩
  | @getSqe i own k sq hi hsq =>
    obtain ⟨_, rfl, rfl⟩ := EntryRing.reserve_eq_some_iff.mp hsq
    have hcard : (s.setWriter i (.reserved own s.sq.tail)).entered.card = s.entered.card + 1 :=
      Ring.entered_insert rfl (congrArg WritePc.entered hi)
    have hbound : s.sq.tail - s.sq.head ≤ s.entered.card + s.loop.entered := h
    refine ⟨?_, rfl⟩
    change s.sq.tail + 1 - s.sq.head ≤ (s.setWriter i (.reserved own s.sq.tail)).entered.card +
      s.loop.entered
    omega
  | submit => exact ⟨all hg.2, rfl⟩
  | @seen cqe cq hloop =>
    rcases cqe with ⟨_ | ⟨_ | _⟩, res⟩
    · exact ⟨h, rfl⟩
    · exact ⟨loop (by rw [hloop]; exact Nat.zero_le _), rfl⟩
    · exact ⟨h, rfl⟩
  | @arm i k sq hloop hsq =>
    obtain ⟨_, rfl, rfl⟩ := EntryRing.reserve_eq_some_iff.mp hsq
    have hbound : s.sq.tail - s.sq.head ≤ s.entered.card + s.loop.entered := h
    rw [hloop] at hbound
    have hnone : LoopPc.entered (.arm i) = 0 := rfl
    refine ⟨?_, rfl⟩
    change s.sq.tail + 1 - s.sq.head ≤ s.entered.card + 1
    omega
  | armNothing hloop => exact ⟨loop (by rw [hloop]; exact Nat.zero_le _), rfl⟩
  | armHeader hloop | prepRecvmsg hloop | armSetData hloop =>
    exact ⟨loop (by rw [hloop]; exact Nat.le_refl _), rfl⟩
  | loopSubmit => exact ⟨all hg.2, rfl⟩

/-- With more entries than threads that write, a receive slot can always be armed again: none is
ever lost where every submit takes all that is queued, and no thread submits while another is
between `io_uring_get_sqe` and `io_uring_sqe_set_data`. -/
theorem receive_slots_kept (h : (Ring.system ι).Reachable Ring.takesAll s)
    (hentries : Fintype.card ι < s.sq.entries) : s.flight = ↑(List.finRange numRecvBuffers) := by
  obtain ⟨_, _, hflight⟩ : s.Tidy ∧ s.Bounded ∧
      (Fintype.card ι < s.sq.entries → s.flight = ↑(List.finRange numRecvBuffers)) := by
    refine h.invariant
      (P := fun s => s.Tidy ∧ s.Bounded ∧
        (Fintype.card ι < s.sq.entries → s.flight = ↑(List.finRange numRecvBuffers))) ?_ ?_
    · rintro s ⟨entries, next, ready, failed, _, rfl⟩
      exact ⟨(Ring.opened_tidy entries next ready failed).1, Nat.zero_le _,
        fun _ => Ring.opened_flight entries next ready failed⟩
    · rintro s a t ⟨htidy, hbounded, hflight⟩ hg hn
      have hstep := Ring.next_step hn
      obtain ⟨hbounded', hentries⟩ := hbounded.step hg hstep
      refine ⟨(htidy.step hg.exclusive hstep).1, hbounded', fun hroom => ?_⟩
      rw [hentries] at hroom
      rcases htidy.step_flight hg.exclusive hstep with heq | ⟨rfl, hfull, _⟩
      · rw [heq, hflight hroom]
      · -- the loop has no entry yet, so that one is free
        have hloop : s.loop.entered = 0 := by
          cases hstep with
          | arm hloop | armNothing hloop => exact congrArg LoopPc.entered hloop
        have hcard := s.entered.card_le_univ
        have hpending := EntryRing.reserve_eq_none_iff.mp hfull
        rw [Ring.Bounded, hloop] at hbounded
        omega
  exact hflight hentries

end Room

theorem receive_slots_kept_hello : ∃ s : Ring Unit,
    (Ring.system Unit).run Ring.takesAll (Ring.opened 136 0) helloRun = some s ∧
      s.receiving.length = 62 ∧ s.flight = ↑(List.finRange numRecvBuffers) := by
  have hrun : ((Ring.system Unit).run Ring.takesAll (Ring.opened 136 0) helloRun).map
      (fun s => (s.sq.entries, s.receiving.length)) = some (136, 62) := by
    decide +kernel
  obtain ⟨s, hs, hview⟩ := Option.map_eq_some_iff.mp hrun
  obtain ⟨hentries, hreceiving⟩ := Prod.mk.inj hview
  have hstart : (Ring.system Unit).Reachable Ring.takesAll (Ring.opened 136 0) :=
    .start ⟨136, 0, true, false, by decide, rfl⟩
  exact ⟨s, hs, hreceiving, receive_slots_kept (hstart.run hs) (by rw [hentries]; decide)⟩

end SensorForge.IoUring
