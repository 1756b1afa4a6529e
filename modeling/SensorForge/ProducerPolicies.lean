import SensorForge.RingFifo

/-! The policies that leave the stored items alone, beside a live consumer: the arriving item is
dropped, or the producer waits for room. -/

namespace SensorForge.Core

open Transition

variable {T : Type*} {C : Capacity}

/-- A call of `apply_policy` is in its first `try_push`, or in one of the loop. -/
inductive PolicyPc (T : Type*) (C : Capacity) where
  | first (pc : PushPc T C)
  | again (pc : PushPc T C)

def PolicyPc.attempt : PolicyPc T C → PushPc T C
  | .first pc => pc
  | .again pc => pc

def PolicyPc.step (policy : BackpressurePolicy) (ring : SPSCRing T C) :
    PolicyPc T C → SPSCRing T C × (PolicyPc T C ⊕ PushResult)
  | .first pc =>
    match pc.step ring with
    | (ring, .inl pc') => (ring, .inl (.first pc'))
    | (ring, .inr true) => (ring, .inr .kEnqueued)
    | (ring, .inr false) =>
      match policy with
      | .kNeverDropBlock => (ring, .inl (.again (.loadHead pc.item)))
      | _ => (ring, .inr .kDroppedNewest)
  | .again pc =>
    match pc.step ring with
    | (ring, .inl pc') => (ring, .inl (.again pc'))
    | (ring, .inr true) => (ring, .inr .kBlockedThenEnqueued)
    | (ring, .inr false) => (ring, .inl (.again (.loadHead pc.item)))

structure FinishedCall (T : Type*) where
  item : T
  policy : BackpressurePolicy
  result : PushResult

/-- The ring with its two threads, and the calls that have returned. -/
structure Gated (T : Type*) (C : Capacity) where
  ring : SPSCRing T C
  producer : Option (BackpressurePolicy × PolicyPc T C) := none
  consumer : Option (PopPc T C) := none
  popped : List T := []
  finished : List (FinishedCall T) := []

inductive GatedAction (T : Type*) where
  | callApply (item : T) (policy : BackpressurePolicy)
  | stepApply
  | callPop
  | stepPop

/-- `kOverwriteOldest` is not among the policies. -/
def Gated.next (movedFrom : T → T) (s : Gated T C) : GatedAction T → Option (Gated T C)
  | .callApply item policy =>
    if s.producer.isNone ∧ policy ≠ .kOverwriteOldest then
      some { s with producer := some (policy, .first (.loadHead item)) }
    else none
  | .stepApply => s.producer.map fun (policy, pc) =>
    match pc.step policy s.ring with
    | (ring, .inl pc') => { s with ring, producer := some (policy, pc') }
    | (ring, .inr result) =>
      { s with
        ring, producer := none, finished := s.finished ++ [⟨pc.attempt.item, policy, result⟩] }
  | .callPop => if s.consumer.isNone then some { s with consumer := some .loadTail } else none
  | .stepPop => s.consumer.map fun pc =>
    match pc.step movedFrom s.ring with
    | (ring, .inl pc') => { s with ring, consumer := some pc' }
    | (ring, .inr out) => { s with ring, consumer := none, popped := s.popped ++ out.toList }

def Gated.system [Inhabited T] (C : Capacity) (movedFrom : T → T) :
    System (Gated T C) (GatedAction T) where
  start s := s = { ring := SPSCRing.create }
  next := Gated.next movedFrom

def FinishedCall.stored (c : FinishedCall T) : Bool := c.result ≠ .kDroppedNewest

/-- The items that calls have put into the ring. -/
def Gated.pushed (s : Gated T C) : List T :=
  (s.finished.filter FinishedCall.stored).map FinishedCall.item

/-- Attempts of one call are calls of `try_push` for the ring. -/
def Gated.spsc (s : Gated T C) : Spsc T C :=
  { ring := s.ring
    producer := s.producer.map fun p => p.2.attempt
    consumer := s.consumer
    pushed := s.pushed
    popped := s.popped }

/-- Only a call that waits makes a second attempt. -/
def PolicyPc.Waits (policy : BackpressurePolicy) : PolicyPc T C → Prop
  | .first _ => True
  | .again _ => policy = .kNeverDropBlock

/-- What a step of the producer does, told by its attempt. -/
inductive PolicyPc.Step (policy : BackpressurePolicy) (ring : SPSCRing T C) (pc : PolicyPc T C) :
    SPSCRing T C × (PolicyPc T C ⊕ PushResult) → Prop
  | proceed (ring' : SPSCRing T C) (pc' : PolicyPc T C) : pc'.Waits policy →
      pc.attempt.step ring = (ring', .inl pc'.attempt) → Step policy ring pc (ring', .inl pc')
  | store (ring' : SPSCRing T C) (result : PushResult) : pc.attempt.step ring = (ring', .inr true) →
      result = .kEnqueued ∨ policy = .kNeverDropBlock ∧ result = .kBlockedThenEnqueued →
        Step policy ring pc (ring', .inr result)
  | drop (ring' : SPSCRing T C) : pc.attempt.step ring = (ring', .inr false) →
      policy ≠ .kNeverDropBlock → Step policy ring pc (ring', .inr .kDroppedNewest)
  | retry (ring' : SPSCRing T C) : pc.attempt.step ring = (ring', .inr false) →
      policy = .kNeverDropBlock →
        Step policy ring pc (ring', .inl (.again (.loadHead pc.attempt.item)))

theorem PolicyPc.step_spec {policy : BackpressurePolicy} {pc : PolicyPc T C}
    (h : pc.Waits policy) (ring : SPSCRing T C) :
    PolicyPc.Step policy ring pc (pc.step policy ring) := by
  cases pc with
  | first pc =>
    rw [PolicyPc.step]
    rcases hpc : pc.step ring with ⟨ring', pc' | ok⟩
    · exact .proceed ring' (.first pc') trivial hpc
    cases ok with
    | true => exact .store ring' .kEnqueued hpc (.inl rfl)
    | false =>
      by_cases hpolicy : policy = .kNeverDropBlock
      · subst hpolicy
        exact .retry ring' hpc rfl
      · cases policy with
        | kNeverDropBlock => exact absurd rfl hpolicy
        | _ => exact .drop ring' hpc hpolicy
  | again pc =>
    rw [PolicyPc.step]
    rcases hpc : pc.step ring with ⟨ring', pc' | ok⟩
    · exact .proceed ring' (.again pc') h hpc
    cases ok with
    | true => exact .store ring' .kBlockedThenEnqueued hpc (.inr ⟨h, rfl⟩)
    | false => exact .retry ring' hpc h

/-- Nothing is overwritten, and only the policies that drop report a drop. -/
def FinishedCall.Allowed (c : FinishedCall T) : Prop :=
  c.result ≠ .kOverwrote ∧ (c.result = .kDroppedNewest → c.policy ≠ .kNeverDropBlock)

structure Gated.Inv [Inhabited T] (movedFrom : T → T) (s : Gated T C) : Prop where
  spsc : (Spsc.system C movedFrom).Reachable anyStep s.spsc
  waits : ∀ policy pc, s.producer = some (policy, pc) → pc.Waits policy
  allowed : ∀ c ∈ s.finished, c.Allowed

theorem Gated.pushed_append (cs : List (FinishedCall T)) (c : FinishedCall T) :
    ((cs ++ [c]).filter FinishedCall.stored).map FinishedCall.item =
      (cs.filter FinishedCall.stored).map FinishedCall.item ++
        if c.stored then [c.item] else [] := by
  cases hc : c.stored <;> simp [List.filter_append, hc]

theorem Spsc.stepPush_inl {s : Spsc T C} {pc pc' : PushPc T C} {ring : SPSCRing T C}
    (movedFrom : T → T) (hp : s.producer = some pc) (heq : pc.step s.ring = (ring, .inl pc')) :
    s.next movedFrom .stepPush = some { s with ring, producer := some pc' } := by
  rw [Spsc.next, hp, Option.map_some, heq]

theorem Spsc.stepPush_inr {s : Spsc T C} {pc : PushPc T C} {ring : SPSCRing T C} {ok : Bool}
    (movedFrom : T → T) (hp : s.producer = some pc) (heq : pc.step s.ring = (ring, .inr ok)) :
    s.next movedFrom .stepPush = some { s with
      ring, producer := none, pushed := if ok then s.pushed ++ [pc.item] else s.pushed } := by
  rw [Spsc.next, hp, Option.map_some, heq]

theorem FinishedCall.stored_iff {c : FinishedCall T} :
    c.stored = true ↔ c.result ≠ .kDroppedNewest := decide_eq_true_iff

theorem Spsc.Inv.popped_append_stored {s : Spsc T C} (h : s.Inv) :
    s.popped ++ s.stored = s.pushed := by
  obtain ⟨rest, hrest⟩ := h.popped
  rw [h.stored_eq, ← hrest, List.drop_left]

/-- There is room exactly if the ring holds less than it can. -/
theorem Spsc.Inv.stored_length {s : Spsc T C} (h : s.Inv) :
    s.stored.length + s.popped.length = s.pushed.length ∧
      s.pushed.length < s.popped.length + C.size := by
  have hlength := congrArg List.length h.popped_append_stored
  rw [List.length_append] at hlength
  have hlt := h.holds.lt
  exact ⟨by omega, hlt⟩

section Invariant

variable [Inhabited T] {movedFrom : T → T} {s t : Gated T C}

theorem Gated.Inv.stepApply (h : s.Inv movedFrom) (hn : s.next movedFrom .stepApply = some t) :
    t.Inv movedFrom := by
  obtain ⟨⟨policy, pc⟩, hpc, rfl⟩ := Option.map_eq_some_iff.mp hn
  have hwaits := h.waits policy pc hpc
  have hstep := PolicyPc.step_spec hwaits s.ring
  have hproducer : s.spsc.producer = some pc.attempt := congrArg (Option.map _) hpc
  dsimp only
  generalize pc.step policy s.ring = outcome at hstep
  cases hstep with
  | proceed ring' pc' hwaits' heq =>
    refine ⟨h.spsc.step (a := SpscAction.stepPush) trivial (Spsc.stepPush_inl movedFrom hproducer heq), ?_, h.allowed⟩
    intro q qc hq
    cases hq
    exact hwaits'
  | store ring' result heq hresult =>
    have hstored : FinishedCall.stored ⟨pc.attempt.item, policy, result⟩ = true := by
      rcases hresult with rfl | ⟨_, rfl⟩ <;> rfl
    refine ⟨?_, (fun q qc hq => by cases hq), ?_⟩
    · have hnext := h.spsc.step (a := SpscAction.stepPush) trivial (Spsc.stepPush_inr movedFrom hproducer heq)
      rw [if_pos rfl] at hnext
      rw [Gated.spsc, Gated.pushed, Gated.pushed_append, if_pos hstored]
      exact hnext
    · intro c hc
      rcases List.mem_append.mp hc with hc | hc
      · exact h.allowed c hc
      · obtain rfl := List.mem_singleton.mp hc
        rcases hresult with rfl | ⟨_, rfl⟩ <;> simp [FinishedCall.Allowed]
  | drop ring' heq hpolicy =>
    refine ⟨?_, (fun q qc hq => by cases hq), ?_⟩
    · have hnext := h.spsc.step (a := SpscAction.stepPush) trivial (Spsc.stepPush_inr movedFrom hproducer heq)
      have hdropped : ¬ FinishedCall.stored ⟨pc.attempt.item, policy, .kDroppedNewest⟩ = true := by
        simp [FinishedCall.stored]
      rw [if_neg Bool.false_ne_true] at hnext
      rw [Gated.spsc, Gated.pushed, Gated.pushed_append, if_neg hdropped, List.append_nil]
      exact hnext
    · intro c hc
      rcases List.mem_append.mp hc with hc | hc
      · exact h.allowed c hc
      · obtain rfl := List.mem_singleton.mp hc
        simp [FinishedCall.Allowed, hpolicy]
  | retry ring' heq hpolicy =>
    have hnext := h.spsc.step (a := SpscAction.stepPush) trivial (Spsc.stepPush_inr movedFrom hproducer heq)
    refine ⟨hnext.step (a := SpscAction.callPush pc.attempt.item) trivial rfl, ?_, h.allowed⟩
    intro q qc hq
    cases hq
    exact hpolicy

theorem Gated.Inv.next {a : GatedAction T} (h : s.Inv movedFrom)
    (hn : s.next movedFrom a = some t) : t.Inv movedFrom := by
  cases a with
  | callApply item policy =>
    obtain ⟨⟨hidle, _⟩, hn⟩ := Option.ite_none_right_eq_some.mp hn
    cases hn
    refine ⟨h.spsc.step (a := SpscAction.callPush item) trivial ?_, ?_, h.allowed⟩
    · have hnone : s.spsc.producer.isNone := by simpa [Gated.spsc] using hidle
      exact if_pos hnone
    · intro q qc hq
      cases hq
      trivial
  | stepApply => exact h.stepApply hn
  | callPop =>
    obtain ⟨hidle, hn⟩ := Option.ite_none_right_eq_some.mp hn
    cases hn
    exact ⟨h.spsc.step (a := SpscAction.callPop) trivial (if_pos hidle), h.waits, h.allowed⟩
  | stepPop =>
    obtain ⟨pc, hpc, rfl⟩ := Option.map_eq_some_iff.mp hn
    have hnext : s.spsc.next movedFrom .stepPop = some
        (match pc.step movedFrom s.ring with
          | (ring, .inl pc') => { s.spsc with ring, consumer := some pc' }
          | (ring, .inr out) =>
            { s.spsc with ring, consumer := none, popped := s.popped ++ out.toList }) :=
      congrArg (Option.map _) hpc
    rcases heq : pc.step movedFrom s.ring with ⟨ring', pc' | out⟩
    · rw [heq] at hnext
      exact ⟨h.spsc.step (a := SpscAction.stepPop) trivial hnext, h.waits, h.allowed⟩
    · rw [heq] at hnext
      exact ⟨h.spsc.step (a := SpscAction.stepPop) trivial hnext, h.waits, h.allowed⟩

theorem Gated.Inv.reachable (h : (Gated.system C movedFrom).Reachable anyStep s) :
    s.Inv movedFrom := by
  refine h.invariant ?_ ?_
  · rintro s rfl
    exact ⟨.start rfl, (fun q qc hq => by cases hq), fun c hc => absurd hc List.not_mem_nil⟩
  · exact fun s a t hs _ hn => hs.next hn

theorem Spsc.Inv.of_reachable {s : Spsc T C}
    (h : (Spsc.system C movedFrom).Reachable anyStep s) : s.Inv := by
  refine h.invariant ?_ ?_
  · rintro s rfl
    exact Spsc.Inv.create
  · exact fun s a t hs _ hn => hs.next hn

/-- An item is dropped only when the ring is full. -/
theorem Gated.Inv.drop_full (h : s.Inv movedFrom) (hn : s.next movedFrom .stepApply = some t)
    {c : FinishedCall T} (hc : t.finished = s.finished ++ [c])
    (hdropped : c.result = .kDroppedNewest) : s.spsc.stored.length + 1 = C.size := by
  obtain ⟨⟨policy, pc⟩, hpc, rfl⟩ := Option.map_eq_some_iff.mp hn
  have hinv := Spsc.Inv.of_reachable h.spsc
  have hproducer : s.spsc.producer = some pc.attempt := congrArg (Option.map _) hpc
  have hready := (hinv.producer _ hproducer).step hinv.holds (Nat.le_add_right _ _)
  have hstep := PolicyPc.step_spec (h.waits policy pc hpc) s.ring
  dsimp only at hc
  generalize pc.step policy s.ring = outcome at hstep hc
  cases hstep with
  | proceed ring' pc' hwaits heq =>
    have hlength := congrArg List.length hc
    simp at hlength
  | store ring' result heq hresult =>
    obtain rfl := List.singleton_inj.mp (List.append_cancel_left hc)
    rcases hresult with rfl | ⟨_, rfl⟩ <;> cases hdropped
  | drop ring' heq hpolicy =>
    rcases hready with ⟨ring'', pc', heq', _⟩ | ⟨_, hfull⟩ | ⟨ring'', heq', _⟩
    · cases heq.symm.trans heq'
    · have hstored := hinv.stored_length.1
      omega
    · cases heq.symm.trans heq'
  | retry ring' heq hpolicy =>
    have hlength := congrArg List.length hc
    simp at hlength

end Invariant

/-- However the threads run, what has been popped and what is in the ring are, in order, the items
whose calls reported them stored. A producer that waits loses none, and one that drops does so
only when the ring is full. -/
theorem apply_policy_keeps [Inhabited T] (C : Capacity) (movedFrom : T → T) {s : Gated T C}
    (h : (Gated.system C movedFrom).Reachable anyStep s) :
    s.popped ++ s.spsc.stored = (s.finished.filter FinishedCall.stored).map FinishedCall.item ∧
      (∀ c ∈ s.finished, c.policy = .kNeverDropBlock → c.stored = true) ∧
      ∀ t c, s.next movedFrom .stepApply = some t → t.finished = s.finished ++ [c] →
        c.result = .kDroppedNewest → s.spsc.stored.length + 1 = C.size := by
  have hinv := Gated.Inv.reachable h
  refine ⟨(Spsc.Inv.of_reachable hinv.spsc).popped_append_stored, ?_, ?_⟩
  · intro c hc hpolicy
    exact FinishedCall.stored_iff.mpr fun hdropped => (hinv.allowed c hc).2 hdropped hpolicy
  · exact fun t c hn hc hdropped => hinv.drop_full hn hc hdropped

/-- The second item waits for room, which the consumer then makes. -/
def waitingRun : List (GatedAction Nat) :=
  [.callApply 7 .kNeverDropBlock, .stepApply, .stepApply, .stepApply, .stepApply,
    .callApply 8 .kNeverDropBlock, .stepApply, .stepApply,
    .callPop, .stepPop, .stepPop, .stepPop, .stepPop]

theorem apply_policy_keeps_waiting : ∃ s : Gated Nat twoSlots,
    (Gated.system twoSlots fun _ => 0).run anyStep { ring := SPSCRing.create } waitingRun = some s ∧
      s.popped ++ s.spsc.stored = [7] ∧ s.producer.isSome := by
  have hrun : ((Gated.system twoSlots fun _ => 0).run anyStep { ring := SPSCRing.create }
      waitingRun).map (fun s => ((s.finished.filter FinishedCall.stored).map FinishedCall.item,
        s.producer.isSome)) = some ([7], true) := by
    decide +kernel
  obtain ⟨s, hs, hview⟩ := Option.map_eq_some_iff.mp hrun
  obtain ⟨hstored, hbusy⟩ := Prod.mk.inj hview
  have hkeeps := apply_policy_keeps twoSlots _ (System.Reachable.run (.start rfl) hs)
  exact ⟨s, hs, hkeeps.1.trans hstored, hbusy⟩

def GatedAction.ofProducer : GatedAction T → Bool
  | .stepApply => true
  | _ => false

/-- The steps that an attempt has before it at most. -/
def PushPc.left : PushPc T C → Nat
  | .loadHead _ => 4
  | .loadTail _ _ => 3
  | .writeSlot _ _ => 2
  | .storeHead _ _ => 1

theorem PushPc.step_left {ring ring' : SPSCRing T C} {pc pc' : PushPc T C}
    (h : pc.step ring = (ring', .inl pc')) : pc'.left + 1 = pc.left := by
  cases pc with
  | loadTail item head =>
    simp only [PushPc.step] at h
    split at h
    · cases h
    · cases h
      rfl
  | _ => cases h <;> rfl

theorem PushPc.one_le_left (pc : PushPc T C) : 1 ≤ pc.left := by
  cases pc <;> simp [PushPc.left]

theorem Gated.next_finished {movedFrom : T → T} {s t : Gated T C} {a : GatedAction T}
    (hn : s.next movedFrom a = some t) : s.finished <+: t.finished := by
  cases a with
  | callApply item policy =>
    obtain ⟨_, hn⟩ := Option.ite_none_right_eq_some.mp hn
    cases hn
    exact List.prefix_refl _
  | stepApply =>
    obtain ⟨⟨policy, pc⟩, _, rfl⟩ := Option.map_eq_some_iff.mp hn
    dsimp only
    rcases pc.step policy s.ring with ⟨ring', pc' | result⟩
    · exact List.prefix_refl _
    · exact List.prefix_append _ _
  | callPop =>
    obtain ⟨_, hn⟩ := Option.ite_none_right_eq_some.mp hn
    cases hn
    exact List.prefix_refl _
  | stepPop =>
    obtain ⟨pc, _, rfl⟩ := Option.map_eq_some_iff.mp hn
    rcases pc.step movedFrom s.ring with ⟨ring', pc' | out⟩
    · exact List.prefix_refl _
    · exact List.prefix_refl _

/-- The steps of the consumer leave the call of the producer alone and only make room. -/
theorem Gated.next_other {movedFrom : T → T} {s t : Gated T C} {a : GatedAction T}
    (hn : s.next movedFrom a = some t) (ha : a ≠ .stepApply) (hbusy : s.producer.isSome) :
    t.producer = s.producer ∧ t.finished = s.finished ∧ s.popped.length ≤ t.popped.length := by
  cases a with
  | callApply item policy =>
    obtain ⟨⟨hidle, _⟩, _⟩ := Option.ite_none_right_eq_some.mp hn
    rw [Option.isNone_iff_eq_none] at hidle
    simp [hidle] at hbusy
  | stepApply => exact absurd rfl ha
  | callPop =>
    obtain ⟨_, hn⟩ := Option.ite_none_right_eq_some.mp hn
    cases hn
    exact ⟨rfl, rfl, le_refl _⟩
  | stepPop =>
    obtain ⟨pc, _, rfl⟩ := Option.map_eq_some_iff.mp hn
    rcases pc.step movedFrom s.ring with ⟨ring', pc' | out⟩
    · exact ⟨rfl, rfl, le_refl _⟩
    · refine ⟨rfl, rfl, ?_⟩
      rw [List.length_append]
      exact Nat.le_add_right _ _

section Progress

variable [Inhabited T] {movedFrom : T → T} {s t : Gated T C}

/-- While there is room, the producer's step brings its attempt on, or stores the item. -/
theorem Gated.Inv.stepApply_room (h : s.Inv movedFrom) {policy : BackpressurePolicy}
    {pc : PolicyPc T C} (hpc : s.producer = some (policy, pc))
    (hroom : s.pushed.length + 1 < s.popped.length + C.size)
    (hn : s.next movedFrom .stepApply = some t) :
    (∃ pc', t.producer = some (policy, pc') ∧ pc'.attempt.left + 1 = pc.attempt.left ∧
      pc'.attempt.item = pc.attempt.item ∧ t.finished = s.finished ∧ t.popped = s.popped) ∨
    ∃ c, t.finished = s.finished ++ [c] ∧ c.item = pc.attempt.item ∧ c.stored = true := by
  have hinv := Spsc.Inv.of_reachable h.spsc
  have hproducer : s.spsc.producer = some pc.attempt := congrArg (Option.map _) hpc
  have hready := (hinv.producer _ hproducer).step hinv.holds (Nat.le_add_right _ _)
  have hstep := PolicyPc.step_spec (h.waits policy pc hpc) s.ring
  rw [Gated.next, hpc, Option.map_some, Option.some.injEq] at hn
  subst hn
  dsimp only
  generalize pc.step policy s.ring = outcome at hstep
  have hnotFull : ¬ s.spsc.pushed.length + 1 = s.spsc.popped.length + C.size :=
    Nat.ne_of_lt hroom
  cases hstep with
  | proceed ring' pc' hwaits heq =>
    refine .inl ⟨pc', rfl, PushPc.step_left heq, ?_, rfl, rfl⟩
    rcases hready with ⟨ring'', qc, heq', _, hitem, _⟩ | ⟨_, hfull⟩ | ⟨ring'', heq', _⟩
    · cases heq.symm.trans heq'
      exact hitem
    · exact absurd hfull hnotFull
    · cases heq.symm.trans heq'
  | store ring' result heq hresult =>
    refine .inr ⟨_, rfl, rfl, ?_⟩
    rcases hresult with rfl | ⟨_, rfl⟩ <;> rfl
  | drop ring' heq hpolicy =>
    rcases hready with ⟨ring'', qc, heq', _⟩ | ⟨_, hfull⟩ | ⟨ring'', heq', _⟩
    · cases heq.symm.trans heq'
    · exact absurd hfull hnotFull
    · cases heq.symm.trans heq'
  | retry ring' heq hpolicy =>
    rcases hready with ⟨ring'', qc, heq', _⟩ | ⟨_, hfull⟩ | ⟨ring'', heq', _⟩
    · cases heq.symm.trans heq'
    · exact absurd hfull hnotFull
    · cases heq.symm.trans heq'

theorem Gated.run_finished {as : List (GatedAction T)}
    (hr : (Gated.system C movedFrom).run anyStep s as = some t) : s.finished <+: t.finished := by
  induction as generalizing s with
  | nil =>
    cases hr
    exact List.prefix_refl _
  | cons a as ih =>
    obtain ⟨u, _, hu, hrest⟩ := System.run_cons.mp hr
    exact (Gated.next_finished hu).trans (ih hrest)

/-- Once there is room for its item, a call of `apply_policy` stores it within four steps of the
producer, however many steps of the consumer come in between. -/
theorem apply_policy_returns (h : (Gated.system C movedFrom).Reachable anyStep s)
    {policy : BackpressurePolicy} {pc : PolicyPc T C} (hpc : s.producer = some (policy, pc))
    (hroom : s.spsc.stored.length + 1 < C.size) {as : List (GatedAction T)}
    (hsteps : pc.attempt.left ≤ as.countP GatedAction.ofProducer)
    (hr : (Gated.system C movedFrom).run anyStep s as = some t) :
    ∃ c more, t.finished = s.finished ++ c :: more ∧ c.item = pc.attempt.item ∧
      c.stored = true := by
  have hstored := (Spsc.Inv.of_reachable (Gated.Inv.reachable h).spsc).stored_length.1
  have hroom' : s.pushed.length + 1 < s.popped.length + C.size := by
    have hpushed : s.spsc.pushed = s.pushed := rfl
    have hpopped : s.spsc.popped = s.popped := rfl
    rw [hpushed, hpopped] at hstored
    omega
  clear hroom hstored
  induction as generalizing s pc with
  | nil =>
    have hleft := pc.attempt.one_le_left
    simp at hsteps
    omega
  | cons a as ih =>
    obtain ⟨u, _, hu, hrest⟩ := System.run_cons.mp hr
    have hreach := h.step (a := a) trivial hu
    by_cases ha : a = .stepApply
    · subst ha
      rw [List.countP_cons_of_pos rfl] at hsteps
      rcases (Gated.Inv.reachable h).stepApply_room hpc hroom' hu with
        ⟨pc', hpc', hleft, hitem, hfinished, hpopped⟩ | ⟨c, hfinished, hitem, hstored⟩
      · have hpushed : u.pushed = s.pushed := by rw [Gated.pushed, hfinished, Gated.pushed]
        obtain ⟨c, more, hfin, hci, hcs⟩ := ih hreach hpc' (by omega) hrest
          (by rw [hpushed, hpopped]; exact hroom')
        exact ⟨c, more, hfin.trans (by rw [hfinished]), hci.trans hitem, hcs⟩
      · obtain ⟨more, hmore⟩ := Gated.run_finished hrest
        refine ⟨c, more, ?_, hitem, hstored⟩
        rw [← hmore, hfinished, List.append_assoc]
        rfl
    · have hother : ¬ a.ofProducer = true := by
        cases a with
        | stepApply => exact absurd rfl ha
        | _ => exact Bool.false_ne_true
      rw [List.countP_cons_of_neg hother] at hsteps
      obtain ⟨hproducer, hfinished, hpopped⟩ := Gated.next_other hu ha (by simp [hpc])
      have hpushed : u.pushed = s.pushed := by rw [Gated.pushed, hfinished, Gated.pushed]
      obtain ⟨c, more, hfin, hci, hcs⟩ := ih hreach (hproducer.trans hpc) hsteps hrest
        (by rw [hpushed]; omega)
      exact ⟨c, more, hfin.trans (by rw [hfinished]), hci, hcs⟩

end Progress

theorem apply_policy_returns_waiting : ∃ (s t : Gated Nat twoSlots) (c : FinishedCall Nat)
    (more : List (FinishedCall Nat)),
    (Gated.system twoSlots fun _ => 0).run anyStep { ring := SPSCRing.create } waitingRun = some s ∧
      (Gated.system twoSlots fun _ => 0).run anyStep s (List.replicate 4 .stepApply) = some t ∧
      t.finished = s.finished ++ c :: more ∧ c.item = 8 ∧ c.stored = true := by
  have hrun : ((Gated.system twoSlots fun _ => 0).run anyStep { ring := SPSCRing.create }
      waitingRun).map (fun s => (s.producer.map fun p => (p.1, p.2.attempt.item, p.2.attempt.left),
        s.spsc.stored.length)) = some (some (.kNeverDropBlock, 8, 4), 0) := by
    decide +kernel
  have hrest : ((Gated.system twoSlots fun _ => 0).run anyStep { ring := SPSCRing.create }
      (waitingRun ++ List.replicate 4 .stepApply)).isSome := by
    decide +kernel
  obtain ⟨s, hs, hview⟩ := Option.map_eq_some_iff.mp hrun
  obtain ⟨hproducer, hstored⟩ := Prod.mk.inj hview
  obtain ⟨⟨policy, pc⟩, hpc, hattempt⟩ := Option.map_eq_some_iff.mp hproducer
  obtain ⟨_, hrest'⟩ := Prod.mk.inj hattempt
  obtain ⟨hitem, hleft⟩ := Prod.mk.inj hrest'
  obtain ⟨t, ht⟩ := Option.isSome_iff_exists.mp hrest
  obtain ⟨u, hu, hlast⟩ := System.run_append.mp ht
  obtain rfl := Option.some.inj (hs.symm.trans hu)
  obtain ⟨c, more, hfinished, hc, hkept⟩ := apply_policy_returns
    (System.Reachable.run (.start rfl) hs) hpc (by rw [hstored]; decide)
    (by rw [hleft]; decide) hlast
  exact ⟨s, t, c, more, hs, hlast, hfinished, hc.trans hitem, hkept⟩

end SensorForge.Core
