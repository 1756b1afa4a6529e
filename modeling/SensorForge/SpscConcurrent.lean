import SensorForge.SpscRing
import SensorForge.TransitionSystem

/-! One producer and one consumer on the ring, interleaved at their atomic steps. What a
call relies on at each point is stable under the steps of the other side. -/

namespace SensorForge.Core

open Transition

variable {T : Type*} {C : Capacity} {ring ring' : SPSCRing T C} {pushed pushed' : List T}
  {taken taken' live : Nat}

def PushPc.Ready (ring : SPSCRing T C) (pushed : List T) (taken : Nat) : PushPc T C → Prop
  | .loadHead _ => True
  | .loadTail _ head => head = ring.head
  | .writeSlot _ head => head = ring.head ∧ pushed.length + 1 < taken + C.size
  | .storeHead item head =>
    head = ring.head ∧ pushed.length + 1 < taken + C.size ∧ ring.buffer head = item

def PopPc.Ready (ring : SPSCRing T C) (pushed : List T) (taken : Nat) : PopPc T C → Prop
  | .loadTail => True
  | .loadHead tail => tail = ring.tail
  | .readSlot tail => tail = ring.tail ∧ taken < pushed.length
  | .storeTail tail out => tail = ring.tail ∧ pushed[taken]? = some out

def PopPc.inHand : PopPc T C → List T
  | .storeTail _ out => [out]
  | _ => []

theorem PushPc.Ready.of_pop {pc : PushPc T C} (h : pc.Ready ring pushed taken)
    (hhead : ring'.head = ring.head) (hbuffer : ring'.buffer ring.head = ring.buffer ring.head)
    (hle : taken ≤ taken') : pc.Ready ring' pushed taken' := by
  cases pc with
  | loadHead item => trivial
  | loadTail item head => exact h.trans hhead.symm
  | writeSlot item head =>
    obtain ⟨rfl, hroom⟩ := h
    exact ⟨hhead.symm, by omega⟩
  | storeHead item head =>
    obtain ⟨rfl, hroom, hitem⟩ := h
    exact ⟨hhead.symm, by omega, hbuffer.trans hitem⟩

theorem PopPc.Ready.of_push {pc : PopPc T C} (h : pc.Ready ring pushed taken)
    (htail : ring'.tail = ring.tail) (hpre : pushed <+: pushed') :
    pc.Ready ring' pushed' taken := by
  have hle := hpre.length_le
  cases pc with
  | loadTail => trivial
  | loadHead tail => exact h.trans htail.symm
  | readSlot tail => exact ⟨h.1.trans htail.symm, by have := h.2; omega⟩
  | storeTail tail out =>
    obtain ⟨more, rfl⟩ := hpre
    have hlt := (List.getElem?_eq_some_iff.mp h.2).1
    exact ⟨h.1.trans htail.symm, (List.getElem?_append_left hlt).trans h.2⟩

theorem PushPc.Ready.step {pc : PushPc T C} (hr : pc.Ready ring pushed taken)
    (h : ring.Holds pushed taken live) (hlive : taken ≤ live) :
    (∃ ring' pc', pc.step ring = (ring', .inl pc') ∧ ring'.tail = ring.tail ∧
      pc'.item = pc.item ∧ ring'.Holds pushed taken live ∧ pc'.Ready ring' pushed taken) ∨
    (pc.step ring = (ring, .inr false) ∧ pushed.length + 1 = taken + C.size) ∨
    (∃ ring', pc.step ring = (ring', .inr true) ∧ ring'.tail = ring.tail ∧
      ring'.Holds (pushed ++ [pc.item]) taken live) := by
  cases pc with
  | loadHead item => exact .inl ⟨ring, _, rfl, rfl, rfl, h, rfl⟩
  | loadTail item head =>
    obtain rfl : head = ring.head := hr
    by_cases hfull : C.next ring.head = ring.tail
    · exact .inr (.inl ⟨by simp only [PushPc.step, if_pos hfull], h.full_iff.mp hfull⟩)
    · refine .inl ⟨ring, .writeSlot item ring.head, by simp only [PushPc.step, if_neg hfull], rfl,
        rfl, h, rfl, ?_⟩
      have hne := mt h.full_iff.mpr hfull
      have hlt := h.lt
      omega
  | writeSlot item head =>
    obtain ⟨rfl, hroom⟩ := hr
    exact .inl ⟨_, _, rfl, rfl, rfl, h.write hlive item, rfl, hroom, by simp⟩
  | storeHead item head =>
    obtain ⟨rfl, hroom, hitem⟩ := hr
    have hpublished := h.publish hroom
    rw [hitem] at hpublished
    exact .inr (.inr ⟨_, rfl, rfl, hpublished⟩)

theorem PopPc.Ready.step {pc : PopPc T C} (hr : pc.Ready ring pushed taken)
    (h : ring.Holds pushed taken (taken + pc.inHand.length)) (movedFrom : T → T) :
    (∃ ring' pc', pc.step movedFrom ring = (ring', .inl pc') ∧ ring'.head = ring.head ∧
      ring'.buffer ring.head = ring.buffer ring.head ∧
      ring'.Holds pushed taken (taken + pc'.inHand.length) ∧ pc'.Ready ring' pushed taken) ∨
    (pc.step movedFrom ring = (ring, .inr none) ∧ pc.inHand = []) ∨
    (∃ ring' out, pc.step movedFrom ring = (ring', .inr (some out)) ∧ ring'.head = ring.head ∧
      ring'.buffer ring.head = ring.buffer ring.head ∧ pushed[taken]? = some out ∧
      ring'.Holds pushed (taken + 1) (taken + 1)) := by
  cases pc with
  | loadTail => exact .inl ⟨ring, _, rfl, rfl, rfl, h, rfl⟩
  | loadHead tail =>
    obtain rfl : tail = ring.tail := hr
    by_cases hempty : ring.tail = ring.head
    · exact .inr (.inl ⟨by simp only [PopPc.step, if_pos hempty], rfl⟩)
    · refine .inl ⟨ring, .readSlot ring.tail, by simp only [PopPc.step, if_neg hempty], rfl, rfl, h,
        rfl, ?_⟩
      have hne := mt h.empty_iff.mpr hempty
      have hle := h.le
      omega
  | readSlot tail =>
    obtain ⟨rfl, hlt⟩ := hr
    have hne : ring.head ≠ ring.tail := by
      rw [h.tail]
      exact (h.head_ne_slot (le_refl _) hlt).symm
    refine .inl ⟨_, _, rfl, rfl, ?_, h.read _, rfl, h.oldest hlt⟩
    simp only [Function.update_of_ne hne]
  | storeTail tail out =>
    obtain ⟨rfl, hout⟩ := hr
    have hlt := (List.getElem?_eq_some_iff.mp hout).1
    exact .inr (.inr ⟨_, out, rfl, rfl, rfl, hout, h.release hlt (le_refl _)⟩)

/-- The ring with its two threads. `pushed` has the items of the successful pushes,
`popped` those of the successful pops. -/
structure Spsc (T : Type*) (C : Capacity) where
  ring : SPSCRing T C
  producer : Option (PushPc T C) := none
  consumer : Option (PopPc T C) := none
  pushed : List T := []
  popped : List T := []

inductive SpscAction (T : Type*) where
  | callPush (item : T)
  | stepPush
  | callPop
  | stepPop

def Spsc.next (movedFrom : T → T) (s : Spsc T C) : SpscAction T → Option (Spsc T C)
  | .callPush item =>
    if s.producer.isNone then some { s with producer := some (.loadHead item) } else none
  | .stepPush => s.producer.map fun pc =>
    match pc.step s.ring with
    | (ring, .inl pc') => { s with ring, producer := some pc' }
    | (ring, .inr ok) =>
      { s with ring, producer := none, pushed := if ok then s.pushed ++ [pc.item] else s.pushed }
  | .callPop => if s.consumer.isNone then some { s with consumer := some .loadTail } else none
  | .stepPop => s.consumer.map fun pc =>
    match pc.step movedFrom s.ring with
    | (ring, .inl pc') => { s with ring, consumer := some pc' }
    | (ring, .inr out) => { s with ring, consumer := none, popped := s.popped ++ out.toList }

def Spsc.system [Inhabited T] (C : Capacity) (movedFrom : T → T) :
    System (Spsc T C) (SpscAction T) where
  start s := s = { ring := SPSCRing.create }
  next := Spsc.next movedFrom

def Spsc.inHand (s : Spsc T C) : List T := s.consumer.elim [] PopPc.inHand

/-- The items in the ring. The consumer holds the oldest one between moving it out and
giving its slot up. -/
def Spsc.stored (s : Spsc T C) : List T := s.inHand ++ s.ring.items.drop s.inHand.length

def Spsc.consumerSlot (s : Spsc T C) : Option (Fin C.size) :=
  match s.consumer with
  | some (.readSlot tail) => some tail
  | some (.storeTail tail _) => some tail
  | _ => none

structure Spsc.Inv (s : Spsc T C) : Prop where
  holds : s.ring.Holds s.pushed s.popped.length (s.popped.length + s.inHand.length)
  popped : s.popped <+: s.pushed
  producer : ∀ pc, s.producer = some pc → pc.Ready s.ring s.pushed s.popped.length
  consumer : ∀ pc, s.consumer = some pc → pc.Ready s.ring s.pushed s.popped.length

theorem Spsc.Inv.create [Inhabited T] : Spsc.Inv ({ ring := SPSCRing.create } : Spsc T C) :=
  ⟨SPSCRing.create_holds, List.prefix_refl _, by simp, by simp⟩

theorem Spsc.Inv.stepPush {s t : Spsc T C} {movedFrom : T → T} (h : s.Inv)
    (hn : s.next movedFrom .stepPush = some t) : t.Inv := by
  obtain ⟨pc, hpc, rfl⟩ := Option.map_eq_some_iff.mp hn
  have hready := h.producer pc hpc
  rcases hready.step h.holds (by omega) with
    ⟨ring', pc', hstep, htail, _, hholds, hready'⟩ | ⟨hstep, _⟩ | ⟨ring', hstep, htail, hholds⟩
  · rw [hstep]
    refine ⟨hholds, h.popped, ?_, ?_⟩
    · intro q hq
      cases hq
      exact hready'
    · exact fun q hq => (h.consumer q hq).of_push htail (List.prefix_refl _)
  · rw [hstep]
    exact ⟨h.holds, h.popped, by simp, h.consumer⟩
  · rw [hstep]
    refine ⟨hholds, h.popped.trans (List.prefix_append _ _), by simp, ?_⟩
    exact fun q hq => (h.consumer q hq).of_push htail (List.prefix_append _ _)

theorem Spsc.Inv.stepPop {s t : Spsc T C} {movedFrom : T → T} (h : s.Inv)
    (hn : s.next movedFrom .stepPop = some t) : t.Inv := by
  obtain ⟨pc, hpc, rfl⟩ := Option.map_eq_some_iff.mp hn
  have hready := h.consumer pc hpc
  have hholds := h.holds
  rw [Spsc.inHand, hpc, Option.elim_some] at hholds
  rcases hready.step hholds movedFrom with
    ⟨ring', pc', hstep, hhead, hbuffer, hholds', hready'⟩ | ⟨hstep, hhand⟩ |
    ⟨ring', out, hstep, hhead, hbuffer, hout, hholds'⟩
  · rw [hstep]
    refine ⟨hholds', h.popped, ?_, ?_⟩
    · exact fun q hq => (h.producer q hq).of_pop hhead hbuffer (le_refl _)
    · intro q hq
      cases hq
      exact hready'
  · rw [hstep]
    rw [hhand] at hholds
    refine ⟨?_, ?_, ?_, by simp⟩
    · simpa [Spsc.inHand] using hholds
    · simpa using h.popped
    · simpa using h.producer
  · rw [hstep]
    have hlen : (s.popped ++ (some out).toList).length = s.popped.length + 1 := by simp
    refine ⟨?_, ?_, ?_, by simp⟩
    · simpa [Spsc.inHand] using hholds'
    · have htake := List.prefix_iff_eq_take.mp h.popped
      have hnext : s.popped ++ [out] = s.pushed.take (s.popped.length + 1) := by
        rw [List.take_add_one, ← htake, hout, Option.toList_some]
      simp only [Option.toList_some, hnext]
      exact List.take_prefix _ _
    · intro q hq
      rw [hlen]
      exact (h.producer q hq).of_pop hhead hbuffer (Nat.le_succ _)

theorem Spsc.Inv.next {s t : Spsc T C} {movedFrom : T → T} {a : SpscAction T} (h : s.Inv)
    (hn : s.next movedFrom a = some t) : t.Inv := by
  cases a with
  | callPush item =>
    obtain ⟨hidle, ht⟩ := Option.ite_none_right_eq_some.mp hn
    cases ht
    refine ⟨h.holds, h.popped, ?_, h.consumer⟩
    intro pc hpc
    cases hpc
    trivial
  | stepPush => exact h.stepPush hn
  | callPop =>
    obtain ⟨hidle, ht⟩ := Option.ite_none_right_eq_some.mp hn
    cases ht
    have hholds := h.holds
    rw [Spsc.inHand, Option.isNone_iff_eq_none.mp hidle] at hholds
    refine ⟨hholds, h.popped, h.producer, ?_⟩
    intro pc hpc
    cases hpc
    trivial
  | stepPop => exact h.stepPop hn

theorem Spsc.Inv.stored_eq {s : Spsc T C} (h : s.Inv) :
    s.stored = s.pushed.drop s.popped.length := by
  have hitems := h.holds.drop_items (by omega)
  rw [Nat.add_sub_cancel_left] at hitems
  rw [Spsc.stored, hitems]
  cases hc : s.consumer with
  | none => simp [Spsc.inHand, hc]
  | some pc =>
    have hready := h.consumer pc hc
    cases pc with
    | storeTail tail out =>
      obtain ⟨hlt, hget⟩ := List.getElem?_eq_some_iff.mp hready.2
      rw [List.drop_eq_getElem_cons hlt, hget]
      simp [Spsc.inHand, hc, PopPc.inHand]
    | _ => simp [Spsc.inHand, hc, PopPc.inHand]

theorem Spsc.Inv.writeSlot_ne {s : Spsc T C} (h : s.Inv) {item : T} {head : Fin C.size}
    (hp : s.producer = some (.writeSlot item head)) : s.consumerSlot ≠ some head := by
  have hhead : head = s.ring.head := (h.producer _ hp).1
  have hne : ∀ tail, tail = s.ring.tail → s.popped.length < s.pushed.length → tail ≠ head := by
    rintro tail rfl hlt
    rw [hhead, h.holds.tail]
    exact h.holds.head_ne_slot (le_refl _) hlt
  unfold Spsc.consumerSlot
  split
  · next tail hc =>
    obtain ⟨htail, hlt⟩ := h.consumer _ hc
    exact fun heq => hne tail htail hlt (Option.some.inj heq)
  · next tail out hc =>
    obtain ⟨htail, hout⟩ := h.consumer _ hc
    exact fun heq => hne tail htail (List.getElem?_eq_some_iff.mp hout).1 (Option.some.inj heq)
  · simp

/-- In every reachable state the popped items followed by those in the ring are the
pushed ones in order, the producer does not write a slot the consumer is reading, and
one slot stays free. -/
theorem spsc_correct [Inhabited T] (C : Capacity) (movedFrom : T → T) (s : Spsc T C)
    (h : (Spsc.system C movedFrom).Reachable anyStep s) :
    s.popped ++ s.stored = s.pushed ∧
      (∀ item head, s.producer = some (.writeSlot item head) → s.consumerSlot ≠ some head) ∧
      s.stored.length ≤ C.size - 1 := by
  have hinv : s.Inv := by
    refine h.invariant ?_ ?_
    · rintro s rfl
      exact Spsc.Inv.create
    · exact fun s a t hs _ hn => hs.next hn
  have htake := List.prefix_iff_eq_take.mp hinv.popped
  refine ⟨?_, fun item head => hinv.writeSlot_ne, ?_⟩
  · rw [hinv.stored_eq]
    conv_lhs => rw [htake]
    rw [List.length_take, Nat.min_eq_left hinv.popped.length_le, List.take_append_drop]
  · rw [hinv.stored_eq, List.length_drop]
    have := hinv.holds.lt
    omega

def twoSlots : Capacity := { size := 2, size_t := by decide, two_le := by decide, pow_two := rfl }

theorem spsc_correct_handed :
    ∃ s : Spsc Nat twoSlots, s.inHand = [7] ∧ s.popped ++ s.stored = [7] := by
  have hrun : ((Spsc.system twoSlots fun _ => 0).run anyStep { ring := SPSCRing.create }
      [.callPush 7, .stepPush, .stepPush, .stepPush, .stepPush, .callPop, .stepPop, .stepPop,
        .stepPop]).map (fun s => (s.inHand, s.pushed)) = some ([7], [7]) := by
    decide +kernel
  obtain ⟨s, hs, hvals⟩ := Option.map_eq_some_iff.mp hrun
  obtain ⟨hhand, hpushed⟩ := Prod.mk.inj hvals
  have hcorrect := spsc_correct twoSlots _ s (System.Reachable.run (.start rfl) hs)
  exact ⟨s, hhand, hcorrect.1.trans hpushed⟩

end SensorForge.Core
