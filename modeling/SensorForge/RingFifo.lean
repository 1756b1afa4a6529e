import SensorForge.BoundedFifo
import SensorForge.CallSequence
import SensorForge.OverwriteOldest

/-! The calls of the ring buffer one after the other, and the queue of bounded length
that they make up. -/

namespace SensorForge.Core

open CallSequence

variable {T : Type*} {C : Capacity} {ring : SPSCRing T C} {pushed : List T} {taken : Nat}

inductive BackpressurePolicy where
  | kOverwriteOldest
  | kDropNewest
  | kBatchAccumulate
  | kNeverDropBlock
  deriving DecidableEq, Repr

def SPSCRing.tryPush (ring : SPSCRing T C) (item : T) : SPSCRing T C × Bool :=
  let head := ring.head
  let next := C.next head
  if next = ring.tail then (ring, false)
  else ({ ring with buffer := Function.update ring.buffer head item, head := next }, true)

/-- The caller's `out` comes back, and is the item if there was one. -/
def SPSCRing.tryPop (movedFrom : T → T) (ring : SPSCRing T C) (out : T) : SPSCRing T C × T × Bool :=
  let tail := ring.tail
  if tail = ring.head then (ring, out, false)
  else
    ({ ring with
        buffer := Function.update ring.buffer tail (movedFrom (ring.buffer tail))
        tail := C.next tail },
      ring.buffer tail, true)

def SPSCRing.forcePushOverwrite (ring : SPSCRing T C) (item : T) : SPSCRing T C × Bool :=
  match ring.tryPush item with
  | (ring, true) => (ring, true)
  | (ring, false) => SPSCRing.tryPush { ring with tail := C.next ring.tail } item

def SPSCRing.emptyApprox (ring : SPSCRing T C) : Bool := ring.sizeApprox = 0

/-- `none` where the producer waits for the consumer. -/
def applyPolicy (ring : SPSCRing T C) (item : T) :
    BackpressurePolicy → Option (SPSCRing T C × PushResult)
  | .kOverwriteOldest =>
    match ring.tryPush item with
    | (ring, true) => some (ring, .kEnqueued)
    | (ring, false) => some ((ring.forcePushOverwrite item).1, .kOverwrote)
  | .kDropNewest | .kBatchAccumulate =>
    match ring.tryPush item with
    | (ring, true) => some (ring, .kEnqueued)
    | (ring, false) => some (ring, .kDroppedNewest)
  | .kNeverDropBlock =>
    match ring.tryPush item with
    | (ring, true) => some (ring, .kEnqueued)
    | (_, false) => none

/-- The atomic steps of a push, when no other step comes in between. -/
theorem tryPush_finish (ring : SPSCRing T C) (item : T) :
    finish PushPc.step 4 ring (.loadHead item) = some (ring.tryPush item) := by
  by_cases hfull : C.next ring.head = ring.tail
  · simp [finish, PushPc.step, SPSCRing.tryPush, hfull]
  · simp [finish, PushPc.step, SPSCRing.tryPush, hfull]

theorem tryPop_finish (movedFrom : T → T) (ring : SPSCRing T C) (out : T) :
    finish (PopPc.step movedFrom) 4 ring .loadTail =
      some ((ring.tryPop movedFrom out).map id fun r => if r.2 then some r.1 else none) := by
  by_cases hempty : ring.tail = ring.head
  · simp [finish, PopPc.step, SPSCRing.tryPop, hempty]
  · simp [finish, PopPc.step, SPSCRing.tryPop, hempty]

theorem Capacity.next_ne (C : Capacity) (i : Fin C.size) : C.next i ≠ i := by
  intro h
  have hi := i.isLt
  have hsize := C.two_le
  have hval := congrArg Fin.val h
  rw [Capacity.next, C.slot_val] at hval
  by_cases hlt : i.val + 1 < C.size
  · rw [Nat.mod_eq_of_lt hlt] at hval
    omega
  · rw [show i.val + 1 = C.size by omega, Nat.mod_self] at hval
    omega

theorem applyPolicy_finish (ring : SPSCRing T C) (item : T) :
    finish (fun ring pc => ((OverwritePc.step ring pc).1, (OverwritePc.step ring pc).2.1)) 12 ring
      (.first (.loadHead item)) = applyPolicy ring item .kOverwriteOldest := by
  by_cases hfull : C.next ring.head = ring.tail
  · have hroom : ¬ ring.tail = C.next ring.tail := (C.next_ne ring.tail).symm
    simp [finish, OverwritePc.step, PushPc.step, PushPc.item, applyPolicy, SPSCRing.tryPush,
      SPSCRing.forcePushOverwrite, hfull, hroom]
  · simp [finish, OverwritePc.step, PushPc.step, PushPc.item, applyPolicy, SPSCRing.tryPush, hfull]

inductive RingCall (T : Type*) where
  | tryPush (item : T)
  | tryPop (out : T)
  | forcePushOverwrite (item : T)
  | applyPolicy (item : T) (policy : BackpressurePolicy)

def RingCall.blocking : RingCall T → Bool
  | .applyPolicy _ .kNeverDropBlock => true
  | _ => false

inductive RingReply (T : Type*) where
  | pushed (stored : Bool)
  | popped (out : T) (valid : Bool)
  | applied (result : PushResult)

def SPSCRing.call (movedFrom : T → T) (ring : SPSCRing T C) :
    RingCall T → Option (SPSCRing T C × RingReply T)
  | .tryPush item => some ((ring.tryPush item).map id .pushed)
  | .tryPop out => some ((ring.tryPop movedFrom out).map id fun r => .popped r.1 r.2)
  | .forcePushOverwrite item => some ((ring.forcePushOverwrite item).map id .pushed)
  | .applyPolicy item policy => (applyPolicy ring item policy).map (Prod.map id .applied)

instance : NeZero (C.size - 1) := ⟨by
  have := C.two_le
  omega⟩

abbrev RingQueue (T : Type*) (C : Capacity) := BoundedFifo T (C.size - 1)

def RingQueue.apply (q : RingQueue T C) (item : T) (policy : BackpressurePolicy) :
    Option (RingQueue T C × PushResult) :=
  match q.push item, policy with
  | some q, _ => some (q, .kEnqueued)
  | none, .kOverwriteOldest => some (q.pushOverwrite item, .kOverwrote)
  | none, .kDropNewest => some (q, .kDroppedNewest)
  | none, .kBatchAccumulate => some (q, .kDroppedNewest)
  | none, .kNeverDropBlock => none

/-- What the calls mean for a queue that holds one item less than the ring has slots. -/
def RingQueue.call (q : RingQueue T C) : RingCall T → Option (RingQueue T C × RingReply T)
  | .tryPush item =>
    match q.push item with
    | some q => some (q, .pushed true)
    | none => some (q, .pushed false)
  | .tryPop out =>
    match q.pop with
    | some (oldest, q) => some (q, .popped oldest true)
    | none => some (q, .popped out false)
  | .forcePushOverwrite item => some (q.pushOverwrite item, .pushed true)
  | .applyPolicy item policy => (q.apply item policy).map (Prod.map id .applied)

theorem RingQueue.apply_cases {q q' : RingQueue T C} {item : T} {policy : BackpressurePolicy}
    {result : PushResult} (h : q.apply item policy = some (q', result)) :
    (result = .kEnqueued ∧ q'.items = q.items ++ [item]) ∨
      (result = .kOverwrote ∧ q.items.length = C.size - 1 ∧ q'.items = q.items.tail ++ [item]) ∨
      (result = .kDroppedNewest ∧ q.items.length = C.size - 1 ∧ q' = q) := by
  unfold RingQueue.apply at h
  split at h
  · next hq =>
    cases h
    exact .inl ⟨rfl, (BoundedFifo.push_eq_some_iff.mp hq).2⟩
  · next hq =>
    cases h
    have hfull := BoundedFifo.push_eq_none_iff.mp hq
    exact .inr (.inl ⟨rfl, hfull, BoundedFifo.pushOverwrite_items hfull⟩)
  · next hq =>
    cases h
    exact .inr (.inr ⟨rfl, BoundedFifo.push_eq_none_iff.mp hq, rfl⟩)
  · next hq =>
    cases h
    exact .inr (.inr ⟨rfl, BoundedFifo.push_eq_none_iff.mp hq, rfl⟩)
  · cases h

theorem RingQueue.apply_map {U : Type*} (f : T → U) (q : RingQueue T C) (item : T)
    (policy : BackpressurePolicy) :
    RingQueue.apply (q.map f) (f item) policy =
      (q.apply item policy).map (Prod.map (BoundedFifo.map f) id) := by
  unfold RingQueue.apply
  rw [BoundedFifo.push_map]
  cases hq : q.push item with
  | some q' => rfl
  | none =>
    have hfull := BoundedFifo.push_eq_none_iff.mp hq
    cases policy with
    | kOverwriteOldest =>
      simp only [Option.map_none, Option.map_some]
      rw [BoundedFifo.pushOverwrite_map f q item hfull]
      rfl
    | _ => rfl

def ringComponent (C : Capacity) (movedFrom : T → T) :
    Component (SPSCRing T C) (RingCall T) (RingReply T) where
  call := SPSCRing.call movedFrom

def queueComponent (T : Type*) (C : Capacity) :
    Component (RingQueue T C) (RingCall T) (RingReply T) where
  call := RingQueue.call

def SPSCRing.Represents (ring : SPSCRing T C) (q : RingQueue T C) : Prop :=
  ∃ pushed taken, ring.Holds pushed taken taken ∧ q.items = pushed.drop taken

section Represents

variable {q q' : RingQueue T C} {item out : T}

theorem SPSCRing.create_represents [Inhabited T] :
    (SPSCRing.create : SPSCRing T C).Represents BoundedFifo.empty :=
  ⟨[], 0, SPSCRing.create_holds, rfl⟩

theorem SPSCRing.Represents.items (h : ring.Represents q) : ring.items = q.items := by
  obtain ⟨pushed, taken, hholds, hitems⟩ := h
  have hdrop := hholds.drop_items (le_refl _)
  rwa [Nat.sub_self, List.drop_zero, ← hitems] at hdrop

theorem SPSCRing.Represents.sizeApprox (h : ring.Represents q) :
    ring.sizeApprox = q.items.length := by
  obtain ⟨pushed, taken, hholds, hitems⟩ := h
  rw [hholds.sizeApprox, hitems, List.length_drop]

theorem SPSCRing.Represents.full_iff (h : ring.Represents q) :
    C.next ring.head = ring.tail ↔ q.items.length = C.size - 1 := by
  obtain ⟨pushed, taken, hholds, hitems⟩ := h
  have hle := hholds.le
  have hsize := C.two_le
  rw [hholds.full_iff, hitems, List.length_drop]
  omega

theorem SPSCRing.Represents.empty_iff (h : ring.Represents q) :
    ring.tail = ring.head ↔ q.items = [] := by
  obtain ⟨pushed, taken, hholds, hitems⟩ := h
  have hle := hholds.le
  rw [hholds.empty_iff, hitems, List.drop_eq_nil_iff]
  omega

theorem SPSCRing.Represents.tryPush_none (h : ring.Represents q) (hq : q.push item = none) :
    ring.tryPush item = (ring, false) :=
  if_pos (h.full_iff.mpr (BoundedFifo.push_eq_none_iff.mp hq))

theorem SPSCRing.Represents.tryPush_some (h : ring.Represents q) (hq : q.push item = some q') :
    ∃ ring', ring.tryPush item = (ring', true) ∧ ring'.Represents q' := by
  obtain ⟨hlt, hpush⟩ := BoundedFifo.push_eq_some_iff.mp hq
  refine ⟨_, if_neg fun hfull => ?_, ?_⟩
  · rw [h.full_iff] at hfull
    omega
  · obtain ⟨pushed, taken, hholds, hitems⟩ := h
    have hle := hholds.le
    have hroom : pushed.length + 1 < taken + C.size := by
      rw [hitems, List.length_drop] at hlt
      omega
    have hwritten := (hholds.write (le_refl _) item).publish hroom
    simp only [Function.update_self] at hwritten
    refine ⟨pushed ++ [item], taken, hwritten, ?_⟩
    rw [hpush, hitems, List.drop_append_of_le_length hle]

theorem SPSCRing.Represents.tryPop_none (h : ring.Represents q) (hq : q.pop = none)
    (movedFrom : T → T) (out : T) : ring.tryPop movedFrom out = (ring, out, false) :=
  if_pos (h.empty_iff.mpr (BoundedFifo.pop_eq_none_iff.mp hq))

theorem SPSCRing.Represents.tryPop_some (h : ring.Represents q) (hq : q.pop = some (item, q'))
    (movedFrom : T → T) (out : T) :
    ∃ ring', ring.tryPop movedFrom out = (ring', item, true) ∧ ring'.Represents q' := by
  have hpop := BoundedFifo.pop_eq_some_iff.mp hq
  have hne : ring.tail ≠ ring.head := fun heq => by
    rw [h.empty_iff, hpop] at heq
    cases heq
  obtain ⟨pushed, taken, hholds, hitems⟩ := h
  have hdrop := hitems.symm.trans hpop
  have hlt : taken < pushed.length := by
    by_contra hge
    rw [List.drop_eq_nil_of_le (by omega)] at hdrop
    cases hdrop
  rw [List.drop_eq_getElem_cons hlt, List.cons.injEq] at hdrop
  have hoff : ring.buffer ring.tail = item := by
    have hold := hholds.oldest hlt
    rw [List.getElem?_eq_getElem hlt, hdrop.1, Option.some.injEq] at hold
    exact hold.symm
  have hreleased := (hholds.read (movedFrom (ring.buffer ring.tail))).release hlt (le_refl _)
  refine ⟨_, ?_, pushed, taken + 1, hreleased, hdrop.2.symm⟩
  rw [SPSCRing.tryPop]
  dsimp only
  rw [if_neg hne, hoff]

theorem SPSCRing.Represents.dropOldest (h : ring.Represents q)
    (hq : q.items.tail = q'.items) (hne : q.items ≠ []) :
    SPSCRing.Represents { ring with tail := C.next ring.tail } q' := by
  obtain ⟨pushed, taken, hholds, hitems⟩ := h
  have hlt : taken < pushed.length := by
    rw [hitems, Ne, List.drop_eq_nil_iff] at hne
    omega
  refine ⟨pushed, taken + 1, hholds.release hlt (Nat.le_succ _), ?_⟩
  rw [← hq, hitems, List.tail_drop]

theorem SPSCRing.Represents.forcePushOverwrite (h : ring.Represents q) (item : T) :
    ∃ ring', ring.forcePushOverwrite item = (ring', true) ∧
      ring'.Represents (q.pushOverwrite item) := by
  rw [SPSCRing.forcePushOverwrite]
  cases hq : q.push item with
  | some q' =>
    obtain ⟨ring', hpush, hrep⟩ := h.tryPush_some hq
    rw [hpush, BoundedFifo.pushOverwrite_of_push hq]
    exact ⟨ring', rfl, hrep⟩
  | none =>
    have hfull := BoundedFifo.push_eq_none_iff.mp hq
    have hpos := NeZero.pos (C.size - 1)
    have hne : q.items ≠ [] := List.ne_nil_of_length_pos (by omega)
    rw [h.tryPush_none hq]
    have hshorter : q.items.tail.length < C.size - 1 := by
      rw [List.length_tail]
      omega
    obtain ⟨rest, hrest⟩ : ∃ rest : BoundedFifo T (C.size - 1), q.items.tail = rest.items :=
      ⟨⟨q.items.tail, hshorter.le⟩, rfl⟩
    refine (h.dropOldest hrest hne).tryPush_some (BoundedFifo.push_eq_some_iff.mpr ⟨?_, ?_⟩)
    · rw [← hrest]
      exact hshorter
    · rw [BoundedFifo.pushOverwrite_items hfull, hrest]

theorem SPSCRing.Represents.applyPolicy (h : ring.Represents q) (item : T)
    (policy : BackpressurePolicy) :
    Option.Rel (fun x y => x.1.Represents y.1 ∧ x.2 = y.2) (applyPolicy ring item policy)
      (RingQueue.apply q item policy) := by
  cases hq : q.push item with
  | some q' =>
    obtain ⟨ring', hpush, hrep⟩ := h.tryPush_some hq
    cases policy <;>
    · simp only [Core.applyPolicy, RingQueue.apply, hpush, hq]
      exact .some ⟨hrep, rfl⟩
  | none =>
    have hpush := h.tryPush_none hq
    cases policy with
    | kOverwriteOldest =>
      obtain ⟨ring', hforce, hrep⟩ := h.forcePushOverwrite item
      simp only [Core.applyPolicy, RingQueue.apply, hpush, hq, hforce]
      exact .some ⟨hrep, rfl⟩
    | kDropNewest =>
      simp only [Core.applyPolicy, RingQueue.apply, hpush, hq]
      exact .some ⟨h, rfl⟩
    | kBatchAccumulate =>
      simp only [Core.applyPolicy, RingQueue.apply, hpush, hq]
      exact .some ⟨h, rfl⟩
    | kNeverDropBlock =>
      simp only [Core.applyPolicy, RingQueue.apply, hpush, hq]
      exact .none

end Represents

theorem ring_refines (movedFrom : T → T) :
    (ringComponent C movedFrom).Refines (queueComponent T C) SPSCRing.Represents := by
  intro ring q h c
  cases c with
  | tryPush item =>
    change Option.Rel _ (ring.call movedFrom (.tryPush item)) (RingQueue.call q (.tryPush item))
    rw [SPSCRing.call, RingQueue.call]
    cases hq : q.push item with
    | some q' =>
      obtain ⟨ring', hpush, hrep⟩ := h.tryPush_some hq
      rw [hpush]
      exact .some ⟨hrep, rfl⟩
    | none =>
      rw [h.tryPush_none hq]
      exact .some ⟨h, rfl⟩
  | tryPop out =>
    change Option.Rel _ (ring.call movedFrom (.tryPop out)) (RingQueue.call q (.tryPop out))
    rw [SPSCRing.call, RingQueue.call]
    cases hq : q.pop with
    | some x =>
      obtain ⟨oldest, q'⟩ := x
      obtain ⟨ring', hpop, hrep⟩ := h.tryPop_some hq movedFrom out
      rw [hpop]
      exact .some ⟨hrep, rfl⟩
    | none =>
      rw [h.tryPop_none hq]
      exact .some ⟨h, rfl⟩
  | forcePushOverwrite item =>
    obtain ⟨ring', hforce, hrep⟩ := h.forcePushOverwrite item
    change Option.Rel _ (some ((ring.forcePushOverwrite item).map id RingReply.pushed)) (some _)
    rw [hforce]
    exact .some ⟨hrep, rfl⟩
  | applyPolicy item policy =>
    change Option.Rel _ ((applyPolicy ring item policy).map (Prod.map id RingReply.applied))
      ((RingQueue.apply q item policy).map (Prod.map id RingReply.applied))
    rw [Option.map_eq_bind, Option.map_eq_bind]
    exact rel_bind (h.applyPolicy item policy) fun x y hxy =>
      .some ⟨hxy.1, congrArg RingReply.applied hxy.2⟩

theorem call_isSome (movedFrom : T → T) (ring : SPSCRing T C) {c : RingCall T}
    (hc : c.blocking = false) : (ring.call movedFrom c).isSome := by
  cases c with
  | tryPush item => rfl
  | tryPop out => rfl
  | forcePushOverwrite item => rfl
  | applyPolicy item policy =>
    rw [SPSCRing.call, Option.isSome_map]
    cases policy with
    | kNeverDropBlock => cases hc
    | _ =>
      simp only [applyPolicy]
      split <;> rfl

/-- One call after the other, the ring answers as the queue of length `C.size - 1` does,
holds its items and counts them; the calls that do not wait for room all return. -/
theorem ring_refines_fifo [Inhabited T] (C : Capacity) (movedFrom : T → T)
    (calls : List (RingCall T)) :
    Option.Rel (fun r q => r.1.items = q.1.items ∧ r.1.sizeApprox = q.1.items.length ∧ r.2 = q.2)
        ((ringComponent C movedFrom).run SPSCRing.create calls)
        ((queueComponent T C).run BoundedFifo.empty calls) ∧
      ((∀ c ∈ calls, c.blocking = false) →
        ((ringComponent C movedFrom).run SPSCRing.create calls).isSome) := by
  constructor
  · have hrun := (ring_refines (C := C) movedFrom).run SPSCRing.create_represents calls
    exact rel_imp hrun fun r q h => ⟨h.1.items, h.1.sizeApprox, h.2⟩
  · exact Component.run_isSome (p := fun c : RingCall T => c.blocking = false)
      (fun ring c => call_isSome movedFrom ring) SPSCRing.create

end SensorForge.Core
