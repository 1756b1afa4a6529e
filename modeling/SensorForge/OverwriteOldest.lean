import SensorForge.SpscConcurrent

/-! The overwrite-oldest policy beside a live consumer. The producer moves the tail as
well, so both threads take items out of the ring. -/

namespace SensorForge.Core

open Transition

variable {T : Type*} {C : Capacity} {ring ring' : SPSCRing T C} {pushed pushed' : List T}
  {taken taken' live : Nat}

inductive PushResult where
  | kEnqueued
  | kDroppedNewest
  | kOverwrote
  | kBlockedThenEnqueued
  deriving DecidableEq, Repr

/-- Where a call of `apply_policy` with `kOverwriteOldest` stands: its own `try_push`,
then `force_push_overwrite` with a second one, the drop, and a third one. -/
inductive OverwritePc (T : Type*) (C : Capacity) where
  | first (pc : PushPc T C)
  | second (pc : PushPc T C)
  | loadTail (item : T)
  | storeTail (item : T) (tail : Fin C.size)
  | third (pc : PushPc T C)

def OverwritePc.step (ring : SPSCRing T C) :
    OverwritePc T C → SPSCRing T C × (OverwritePc T C ⊕ PushResult) × List T
  | .first pc =>
    match pc.step ring with
    | (ring, .inl pc') => (ring, .inl (.first pc'), [])
    | (ring, .inr true) => (ring, .inr .kEnqueued, [pc.item])
    | (ring, .inr false) => (ring, .inl (.second (.loadHead pc.item)), [])
  | .second pc =>
    match pc.step ring with
    | (ring, .inl pc') => (ring, .inl (.second pc'), [])
    | (ring, .inr true) => (ring, .inr .kOverwrote, [pc.item])
    | (ring, .inr false) => (ring, .inl (.loadTail pc.item), [])
  | .loadTail item => (ring, .inl (.storeTail item ring.tail), [])
  | .storeTail item tail =>
    ({ ring with tail := C.next tail }, .inl (.third (.loadHead item)), [])
  | .third pc =>
    match pc.step ring with
    | (ring, .inl pc') => (ring, .inl (.third pc'), [])
    | (ring, .inr true) => (ring, .inr .kOverwrote, [pc.item])
    | (ring, .inr false) => (ring, .inr .kOverwrote, [])

/-- The ring with its two threads, the published and the popped items, and what the
finished calls returned. -/
structure Overwriting (T : Type*) (C : Capacity) where
  ring : SPSCRing T C
  producer : Option (OverwritePc T C) := none
  consumer : Option (PopPc T C) := none
  pushed : List T := []
  popped : List T := []
  results : List PushResult := []

inductive OverwriteAction (T : Type*) where
  | callApply (item : T)
  | stepApply
  | callPop
  | stepPop

def Overwriting.next (movedFrom : T → T) (s : Overwriting T C) :
    OverwriteAction T → Option (Overwriting T C)
  | .callApply item =>
    if s.producer.isNone then some { s with producer := some (.first (.loadHead item)) } else none
  | .stepApply => s.producer.map fun pc =>
    match pc.step s.ring with
    | (ring, .inl pc', published) =>
      { s with ring, producer := some pc', pushed := s.pushed ++ published }
    | (ring, .inr result, published) =>
      { s with
        ring, producer := none, pushed := s.pushed ++ published, results := s.results ++ [result] }
  | .callPop => if s.consumer.isNone then some { s with consumer := some .loadTail } else none
  | .stepPop => s.consumer.map fun pc =>
    match pc.step movedFrom s.ring with
    | (ring, .inl pc') => { s with ring, consumer := some pc' }
    | (ring, .inr out) => { s with ring, consumer := none, popped := s.popped ++ out.toList }

def Overwriting.system [Inhabited T] (C : Capacity) (movedFrom : T → T) :
    System (Overwriting T C) (OverwriteAction T) where
  start s := s = { ring := SPSCRing.create }
  next := Overwriting.next movedFrom

def Overwriting.inHand (s : Overwriting T C) : List T := s.consumer.elim [] PopPc.inHand

/-- No thread moves the tail inside a window of the other: the ring is still full at the
second attempt; when the producer drops an item it is the one it has looked up, and the
consumer does not hold it; what the consumer reads is still the oldest item. -/
def Overwriting.undisturbed (s : Overwriting T C) : OverwriteAction T → Bool
  | .stepApply =>
    match s.producer with
    | some (.second (.loadTail _ head)) => C.next head = s.ring.tail
    | some (.storeTail _ tail) => tail = s.ring.tail ∧ tail ≠ s.ring.head ∧ s.inHand.isEmpty
    | _ => true
  | .stepPop =>
    match s.consumer with
    | some (.readSlot tail) => tail = s.ring.tail ∧ tail ≠ s.ring.head
    | _ => true
  | _ => true

def OverwritePc.Ready (ring : SPSCRing T C) (pushed : List T) (taken : Nat) :
    OverwritePc T C → Prop
  | .first pc => pc.Ready ring pushed taken
  | .second (.writeSlot _ _) => False
  | .second (.storeHead _ _) => False
  | .third pc => pc.Ready ring pushed taken ∧ pushed.length + 1 < taken + C.size
  | _ => True

def OverwritePc.dropped : OverwritePc T C → Nat
  | .third _ => 1
  | _ => 0

/-- The number of items that have left the ring at its tail. -/
def Overwriting.gone (s : Overwriting T C) : Nat :=
  s.popped.length + s.results.count .kOverwrote + s.producer.elim 0 OverwritePc.dropped

theorem OverwritePc.Ready.of_pop {pc : OverwritePc T C} (h : pc.Ready ring pushed taken)
    (hhead : ring'.head = ring.head) (hbuffer : ring'.buffer ring.head = ring.buffer ring.head)
    (hle : taken ≤ taken') : pc.Ready ring' pushed taken' := by
  cases pc with
  | first pc => exact PushPc.Ready.of_pop h hhead hbuffer hle
  | second pc => cases pc <;> exact h
  | loadTail item => trivial
  | storeTail item tail => trivial
  | third pc => exact ⟨h.1.of_pop hhead hbuffer hle, by have := h.2; omega⟩

structure Overwriting.Inv (s : Overwriting T C) : Prop where
  holds : s.ring.Holds s.pushed s.gone (s.gone + s.inHand.length)
  popped : s.popped.Sublist (s.pushed.take s.gone)
  producer : ∀ pc, s.producer = some pc → pc.Ready s.ring s.pushed s.gone
  consumer : ∀ tail out, s.consumer = some (.storeTail tail out) →
    tail = s.ring.tail ∧ s.pushed[s.gone]? = some out
  results : s.results.length = s.pushed.length

theorem Overwriting.Inv.create [Inhabited T] :
    Overwriting.Inv ({ ring := SPSCRing.create } : Overwriting T C) :=
  ⟨SPSCRing.create_holds, List.nil_sublist _, by simp, by simp, rfl⟩

theorem Overwriting.Inv.publish {s t : Overwriting T C} (h : s.Inv)
    (hconsumer : t.consumer = s.consumer) (hpopped : t.popped = s.popped)
    (hgone : t.gone = s.gone) (htail : t.ring.tail = s.ring.tail) (hpre : s.pushed <+: t.pushed)
    (hholds : t.ring.Holds t.pushed s.gone (s.gone + s.inHand.length))
    (hproducer : ∀ pc, t.producer = some pc → pc.Ready t.ring t.pushed s.gone)
    (hresults : t.results.length = t.pushed.length) : t.Inv := by
  have hhand : t.inHand = s.inHand := by rw [Overwriting.inHand, hconsumer, Overwriting.inHand]
  refine ⟨?_, ?_, ?_, ?_, hresults⟩
  · rw [hgone, hhand]
    exact hholds
  · rw [hgone, hpopped]
    exact h.popped.trans (hpre.take _).sublist
  · rw [hgone]
    exact hproducer
  · intro tail out hc
    obtain ⟨heq, hout⟩ := h.consumer tail out (hconsumer ▸ hc)
    obtain ⟨more, hmore⟩ := hpre
    have hlt := (List.getElem?_eq_some_iff.mp hout).1
    rw [hgone, ← hmore, List.getElem?_append_left hlt]
    exact ⟨heq.trans htail.symm, hout⟩

/-- A step of a call that publishes nothing and drops nothing. -/
theorem Overwriting.Inv.proceed {s : Overwriting T C} (h : s.Inv) {pc pc' : OverwritePc T C}
    (hpc : s.producer = some pc) (hdropped : pc'.dropped = pc.dropped)
    (htail : ring'.tail = s.ring.tail)
    (hholds : ring'.Holds s.pushed s.gone (s.gone + s.inHand.length))
    (hready : pc'.Ready ring' s.pushed s.gone) :
    Overwriting.Inv { s with ring := ring', producer := some pc', pushed := s.pushed ++ [] } := by
  rw [List.append_nil]
  refine h.publish rfl rfl ?_ htail (List.prefix_refl _) hholds ?_ h.results
  · rw [Overwriting.gone, Overwriting.gone, hpc, Option.elim_some, Option.elim_some, hdropped]
  · intro q hq
    cases hq
    exact hready

/-- The step that publishes the item and returns. -/
theorem Overwriting.Inv.finish {s : Overwriting T C} (h : s.Inv) {pc : OverwritePc T C} {item : T}
    {result : PushResult} (hpc : s.producer = some pc)
    (hcount : [result].count .kOverwrote = pc.dropped) (htail : ring'.tail = s.ring.tail)
    (hholds : ring'.Holds (s.pushed ++ [item]) s.gone (s.gone + s.inHand.length)) :
    Overwriting.Inv { s with
      ring := ring', producer := none, pushed := s.pushed ++ [item]
      results := s.results ++ [result] } := by
  refine h.publish rfl rfl ?_ htail (List.prefix_append _ _) hholds (by simp) ?_
  · rw [Overwriting.gone, Overwriting.gone, hpc, Option.elim_none, Option.elim_some,
      List.count_append, hcount, add_zero, add_assoc]
  · rw [List.length_append, List.length_append, h.results, List.length_singleton,
      List.length_singleton]

theorem PopPc.inHand_length (pc : PopPc T C) : pc.inHand.length ≤ 1 := by
  cases pc <;> simp [PopPc.inHand]

theorem Overwriting.inHand_length (s : Overwriting T C) : s.inHand.length ≤ 1 := by
  unfold Overwriting.inHand
  cases s.consumer with
  | none => simp
  | some pc => exact pc.inHand_length

theorem Overwriting.Inv.release {s t : Overwriting T C} (h : s.Inv)
    (hlt : s.gone < s.pushed.length) (hring : t.ring = { s.ring with tail := C.next s.ring.tail })
    (hpushed : t.pushed = s.pushed) (hgone : t.gone = s.gone + 1) (hhand : t.inHand = [])
    (hpopped : t.popped.Sublist (s.pushed.take (s.gone + 1)))
    (hproducer : ∀ pc, t.producer = some pc → pc.Ready t.ring s.pushed (s.gone + 1))
    (hresults : t.results = s.results) : t.Inv := by
  have hlive := s.inHand_length
  refine ⟨?_, ?_, ?_, ?_, ?_⟩
  · rw [hgone, hhand, hpushed, hring]
    exact h.holds.release hlt (by omega)
  · rwa [hgone, hpushed]
  · rwa [hgone, hpushed]
  · intro tail out hc
    rw [Overwriting.inHand, hc] at hhand
    cases hhand
  · rw [hresults, hpushed, h.results]

theorem Overwriting.Inv.stepApply {s t : Overwriting T C} {movedFrom : T → T} (h : s.Inv)
    (hg : s.undisturbed .stepApply = true) (hn : s.next movedFrom .stepApply = some t) :
    t.Inv := by
  obtain ⟨pc, hpc, rfl⟩ := Option.map_eq_some_iff.mp hn
  have hready := h.producer pc hpc
  cases pc with
  | first pc =>
    rcases PushPc.Ready.step hready h.holds (by omega) with
      ⟨ring', pc', hstep, htail, _, hholds, hready'⟩ | ⟨hstep, _⟩ | ⟨ring', hstep, htail, hholds⟩
    · simp only [OverwritePc.step, hstep]
      exact h.proceed hpc rfl htail hholds hready'
    · simp only [OverwritePc.step, hstep]
      exact h.proceed hpc rfl rfl h.holds trivial
    · simp only [OverwritePc.step, hstep]
      exact h.finish hpc rfl htail hholds
  | second pc =>
    cases pc with
    | loadHead item => exact h.proceed hpc rfl rfl h.holds trivial
    | loadTail item head =>
      have hfull : C.next head = s.ring.tail := by simpa [Overwriting.undisturbed, hpc] using hg
      simp only [OverwritePc.step, PushPc.step, if_pos hfull]
      exact h.proceed hpc rfl rfl h.holds trivial
    | writeSlot item head => exact hready.elim
    | storeHead item head => exact hready.elim
  | loadTail item => exact h.proceed hpc rfl rfl h.holds trivial
  | storeTail item tail =>
    have hguard : tail = s.ring.tail ∧ tail ≠ s.ring.head ∧ s.inHand = [] := by
      simpa [Overwriting.undisturbed, hpc] using hg
    obtain ⟨rfl, hnonempty, hhand⟩ := hguard
    have hlt : s.gone < s.pushed.length :=
      lt_of_le_of_ne h.holds.le (mt h.holds.empty_iff.mpr hnonempty)
    have hroom := h.holds.lt
    simp only [OverwritePc.step, List.append_nil]
    refine h.release hlt rfl rfl ?_ hhand ?_ ?_ rfl
    · rw [Overwriting.gone, Overwriting.gone, hpc]
      rfl
    · exact h.popped.trans (List.take_sublist_take_left (Nat.le_succ _))
    · intro q hq
      cases hq
      exact ⟨trivial, by omega⟩
  | third pc =>
    -- the slot given up by the drop is still free, so this attempt succeeds
    obtain ⟨hready, hroom⟩ := hready
    rcases hready.step h.holds (by omega) with
      ⟨ring', pc', hstep, htail, _, hholds, hready'⟩ | ⟨hstep, hfull⟩ |
      ⟨ring', hstep, htail, hholds⟩
    · simp only [OverwritePc.step, hstep]
      exact h.proceed hpc rfl htail hholds ⟨hready', hroom⟩
    · omega
    · simp only [OverwritePc.step, hstep]
      exact h.finish hpc rfl htail hholds

theorem Overwriting.Inv.stepPop {s t : Overwriting T C} {movedFrom : T → T} (h : s.Inv)
    (hg : s.undisturbed .stepPop = true) (hn : s.next movedFrom .stepPop = some t) : t.Inv := by
  obtain ⟨pc, hpc, rfl⟩ := Option.map_eq_some_iff.mp hn
  have hholds := h.holds
  rw [Overwriting.inHand, hpc, Option.elim_some] at hholds
  cases pc with
  | loadTail => exact ⟨hholds, h.popped, h.producer, by simp [PopPc.step], h.results⟩
  | loadHead tail =>
    by_cases hempty : tail = s.ring.head
    · simp only [PopPc.step, if_pos hempty, Option.toList_none, List.append_nil]
      exact ⟨hholds, h.popped, h.producer, by simp, h.results⟩
    · simp only [PopPc.step, if_neg hempty]
      exact ⟨hholds, h.popped, h.producer, by simp, h.results⟩
  | readSlot tail =>
    have hguard : tail = s.ring.tail ∧ tail ≠ s.ring.head := by
      simpa [Overwriting.undisturbed, hpc] using hg
    obtain ⟨rfl, hnonempty⟩ := hguard
    have hlt : s.gone < s.pushed.length :=
      lt_of_le_of_ne h.holds.le (mt h.holds.empty_iff.mpr hnonempty)
    have hne : s.ring.head ≠ s.ring.tail := hnonempty.symm
    refine ⟨hholds.read _, h.popped, ?_, ?_, h.results⟩
    · exact fun q hq => (h.producer q hq).of_pop rfl (Function.update_of_ne hne _ _) (le_refl _)
    · intro tail out hc
      cases hc
      exact ⟨rfl, SPSCRing.Holds.oldest hholds hlt⟩
  | storeTail tail out =>
    obtain ⟨rfl, hout⟩ := h.consumer tail out hpc
    have hlt := (List.getElem?_eq_some_iff.mp hout).1
    simp only [PopPc.step, Option.toList_some]
    refine h.release hlt rfl rfl ?_ rfl ?_ ?_ rfl
    · simp only [Overwriting.gone, List.length_append, List.length_singleton]
      omega
    · rw [List.take_add_one, hout]
      exact h.popped.append (List.Sublist.refl _)
    · exact fun q hq => (h.producer q hq).of_pop rfl rfl (Nat.le_succ _)

theorem Overwriting.Inv.next {s t : Overwriting T C} {movedFrom : T → T} {a : OverwriteAction T}
    (h : s.Inv) (hg : s.undisturbed a = true) (hn : s.next movedFrom a = some t) : t.Inv := by
  cases a with
  | callApply item =>
    obtain ⟨hidle, ht⟩ := Option.ite_none_right_eq_some.mp hn
    cases ht
    refine h.publish rfl rfl ?_ rfl (List.prefix_refl _) h.holds ?_ h.results
    · rw [Overwriting.gone, Overwriting.gone, Option.isNone_iff_eq_none.mp hidle]
      rfl
    · intro pc hpc
      cases hpc
      trivial
  | stepApply => exact h.stepApply hg hn
  | callPop =>
    obtain ⟨hidle, ht⟩ := Option.ite_none_right_eq_some.mp hn
    cases ht
    have hholds := h.holds
    rw [Overwriting.inHand, Option.isNone_iff_eq_none.mp hidle] at hholds
    exact ⟨hholds, h.popped, h.producer, by simp, h.results⟩
  | stepPop => exact h.stepPop hg hn

/-- In runs without a disturbed step the popped items are a subsequence of the pushed
ones, and between calls every pushed item is popped, in the ring, or counted as
overwritten. -/
theorem overwrite_accounts [Inhabited T] (C : Capacity) (movedFrom : T → T) (s : Overwriting T C)
    (h : (Overwriting.system C movedFrom).Reachable (fun s a => s.undisturbed a = true) s) :
    s.popped.Sublist s.pushed ∧
      (s.producer = none → s.consumer = none →
        s.results.length = s.pushed.length ∧
        s.pushed.length =
          s.popped.length + s.ring.sizeApprox + s.results.count .kOverwrote) := by
  have hinv : s.Inv := by
    refine h.invariant ?_ ?_
    · rintro s rfl
      exact Overwriting.Inv.create
    · exact fun s a t hs hg hn => hs.next hg hn
  refine ⟨hinv.popped.trans (List.take_sublist _ _), ?_⟩
  intro hproducer hconsumer
  have hgone : s.gone = s.popped.length + s.results.count .kOverwrote := by
    rw [Overwriting.gone, hproducer]
    rfl
  have hle := hinv.holds.le
  refine ⟨hinv.results, ?_⟩
  rw [hinv.holds.sizeApprox]
  omega

/-- The second call drops the first item; the consumer takes the second one while the third call
is under way, and finds the ring empty before. -/
def overwritingCalls : List (OverwriteAction Nat) :=
  [.callPop, .stepPop, .callApply 1, .stepPop, .stepApply, .stepApply, .stepApply, .stepApply,
    .callApply 2, .stepApply, .stepApply, .stepApply, .stepApply, .stepApply, .stepApply,
    .stepApply, .stepApply, .stepApply, .stepApply,
    .callPop, .stepPop, .stepPop, .callApply 3, .stepPop, .stepApply, .stepPop, .stepApply,
    .stepApply, .stepApply]

theorem overwrite_accounts_live :
    ∃ s : Overwriting Nat twoSlots, s.pushed = [1, 2, 3] ∧ s.popped = [2] ∧
      s.popped.Sublist s.pushed ∧
      s.pushed.length = s.popped.length + s.ring.sizeApprox + s.results.count .kOverwrote := by
  have hrun : ((Overwriting.system twoSlots id).run (fun s a => s.undisturbed a = true)
      { ring := SPSCRing.create } overwritingCalls).map
        (fun s => (s.producer.isNone, s.consumer.isNone, s.pushed, s.popped)) =
          some (true, true, [1, 2, 3], [2]) := by
    decide +kernel
  obtain ⟨s, hs, hvals⟩ := Option.map_eq_some_iff.mp hrun
  simp only [Prod.mk.injEq, Option.isNone_iff_eq_none] at hvals
  obtain ⟨hproducer, hconsumer, hpushed, hpopped⟩ := hvals
  have hcounts := overwrite_accounts twoSlots id s (System.Reachable.run (.start rfl) hs)
  exact ⟨s, hpushed, hpopped, hcounts.1, (hcounts.2 hproducer hconsumer).2⟩

/-- The consumer has found the ring non-empty when the producer drops the item that it
goes on to read: the item is popped and counted as overwritten. -/
def doubleCounted : List (OverwriteAction Nat) :=
  [.callApply 1, .stepApply, .stepApply, .stepApply, .stepApply, .callPop, .stepPop, .stepPop,
    .callApply 2, .stepApply, .stepApply, .stepApply, .stepApply, .stepApply, .stepApply,
    .stepApply, .stepApply, .stepApply, .stepApply, .stepPop, .stepPop]

theorem overwrite_miscounts :
    ¬ ∀ (C : Capacity) (s : Overwriting Nat C), (Overwriting.system C id).Reachable anyStep s →
      s.popped.Sublist s.pushed ∧
        (s.producer = none → s.consumer = none →
          s.pushed.length =
            s.popped.length + s.ring.sizeApprox + s.results.count .kOverwrote) := by
  intro h
  have hrun : ((Overwriting.system twoSlots id).run anyStep { ring := SPSCRing.create }
      doubleCounted).map
        (fun s => (s.producer.isNone, s.consumer.isNone, s.pushed.length, s.popped.length,
          s.ring.sizeApprox, s.results.count .kOverwrote)) = some (true, true, 2, 1, 1, 1) := by
    decide +kernel
  obtain ⟨s, hs, hvals⟩ := Option.map_eq_some_iff.mp hrun
  simp only [Prod.mk.injEq, Option.isNone_iff_eq_none] at hvals
  obtain ⟨hproducer, hconsumer, hpushed, hpopped, hsize, hcount⟩ := hvals
  have hidle := (h twoSlots s (System.Reachable.run (.start rfl) hs)).2 hproducer hconsumer
  omega

end SensorForge.Core
