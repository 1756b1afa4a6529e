import SensorForge.IoUring

/-! The submission queue, where no thread submits while another is between `io_uring_get_sqe` and
`io_uring_sqe_set_data`: what is taken from it has been prepared as a whole. -/

namespace SensorForge.IoUring

open Transition

variable {ι θ : Type*}

/-- The entry of a thread, and the request that it has put into it. -/
abbrev Entry := Option (Nat × Option Request)

def WritePc.entry : WritePc → Entry
  | .reserved _ k => some (k, none)
  | .prepared own k => some (k, some (.sendmsg own.slot own.call))
  | .idle | .acquired _ | .copied _ | .filled _ | .queued => none

def LoopPc.entry : LoopPc → Entry
  | .reserved _ k | .filled _ k => some (k, none)
  | .prepared i k => some (k, some (.recvmsg i))
  | .wait | .arm _ | .submit => none

/-- The loop is the thread `none`. -/
def Ring.entry (s : Ring ι) : Option ι → Entry
  | none => s.loop.entry
  | some i => (s.writers i).entry

def owner (entry : θ → Entry) : θ → Option Nat := Option.map Prod.fst ∘ entry

/-- No thread is between `io_uring_get_sqe` and `io_uring_sqe_set_data`. -/
def Ring.Settled (s : Ring ι) : Prop := ∀ th, s.entry th = none

def Ring.exclusive (s : Ring ι) : Action ι → Prop
  | .submit _ _ | .loopSubmit _ => s.Settled
  | _ => True

instance [Fintype ι] (s : Ring ι) : Decidable s.Settled :=
  inferInstanceAs (Decidable (∀ th, s.entry th = none))

instance Ring.decideExclusive [Fintype ι] (s : Ring ι) : ∀ a : Action ι, Decidable (s.exclusive a)
  | .submit _ _ | .loopSubmit _ => inferInstanceAs (Decidable s.Settled)
  | .acquire _ _ | .memcpy _ | .header _ | .getSqe _ | .prepSendmsg _ | .setData _
  | .readHeader _ | .readByte _ | .send _ | .complete _ _ | .receive _ _ | .failReceive _ _
  | .seen | .arm | .armHeader | .prepRecvmsg | .armSetData => instDecidableTrue

/-- The entry asks for something, and its completion will name the slot. -/
def Sqe.Ready (sqe : Sqe) : Prop :=
  match sqe.request with
  | .nop => False
  | .recvmsg i => sqe.data = some (.recv i)
  | .sendmsg p _ => sqe.data = some (.send p)

/-- The entries in use that no thread is preparing. -/
def queued [Fintype θ] (sq : EntryRing Sqe) (entry : θ → Entry) : Multiset Sqe :=
  sq.contents (owner entry)

/-- Every entry in use has been prepared or is with one thread. -/
structure Prepares [Fintype θ] (sq : EntryRing Sqe) (entry : θ → Entry) : Prop where
  owned : sq.Owned (owner entry)
  ready : ∀ sqe ∈ queued sq entry, sqe.Ready
  prepared : ∀ th k request, entry th = some (k, some request) → (sq.get k).request = request

section Prepares

variable [Fintype θ] {sq sq' : EntryRing Sqe} {entry : θ → Entry} {th : θ} {k : Nat}
  {request : Request}

omit [Fintype θ] in
theorem owner_some {e : Nat × Option Request} (h : entry th = some e) :
    owner entry th = some e.1 := by
  rw [owner, Function.comp_apply, h, Option.map_some]

omit [Fintype θ] in
theorem owner_none (h : entry th = none) : owner entry th = none := by
  rw [owner, Function.comp_apply, h, Option.map_none]

theorem Prepares.take (h : Prepares sq entry) (hnone : ∀ th, entry th = none) (n : Nat) :
    Prepares (sq.take n) entry ∧ queued sq entry = ↑(sq.taken n) + queued (sq.take n) entry := by
  have howner : ∀ th, owner entry th = none := fun th => owner_none (hnone th)
  have hqueued := h.owned.contents_take howner n
  refine ⟨⟨h.owned.take howner, fun sqe hmem => h.ready sqe ?_, ?_⟩, hqueued⟩
  · rw [queued, hqueued]
    exact Multiset.mem_add.mpr (.inr hmem)
  · intro th k request hth
    rw [hnone] at hth
    cases hth

/-- A thread writes to its own entry only. -/
theorem Prepares.get_set (h : Prepares sq entry) {e : Nat × Option Request}
    (hth : entry th = some e) {th' : θ} {e' : Nat × Option Request} (hth' : entry th' = some e')
    (hne : th' ≠ th) (sqe : Sqe) :
    (sq.set e.1 sqe).get e'.1 = sq.get e'.1 := by
  have hk := owner_some hth
  have hk' := owner_some hth'
  refine h.owned.get_set_of_ne (h.owned.inside th _ hk) (h.owned.inside th' _ hk') fun heq => hne ?_
  rw [heq] at hk'
  exact h.owned.apart th' th _ hk' hk

variable [DecidableEq θ]

omit [Fintype θ] in
theorem owner_update {e : Entry} : owner (Function.update entry th e) =
    Function.update (owner entry) th (e.map Prod.fst) :=
  Function.comp_update _ _ _ _

theorem Prepares.reserve (h : Prepares sq entry) (hsq : sq.reserve = some (k, sq'))
    (hth : entry th = none) :
    Prepares sq' (Function.update entry th (some (k, none))) ∧
      queued sq' (Function.update entry th (some (k, none))) = queued sq entry := by
  have hqueued : queued sq' (Function.update entry th (some (k, none))) = queued sq entry := by
    rw [queued, owner_update]
    exact EntryRing.contents_reserve hsq (owner_none hth)
  refine ⟨⟨?_, hqueued ▸ h.ready, ?_⟩, hqueued⟩
  · rw [owner_update]
    exact h.owned.reserve hsq (owner_none hth)
  · intro th' k' request hth'
    obtain ⟨_, _, rfl⟩ := EntryRing.reserve_eq_some_iff.mp hsq
    by_cases hne : th' = th
    · rw [hne, Function.update_self] at hth'
      cases hth'
    · rw [Function.update_of_ne hne] at hth'
      exact h.prepared th' k' request hth'

theorem Prepares.prep (h : Prepares sq entry) (hth : entry th = some (k, none))
    (request : Request) :
    Prepares (sq.set k { sq.get k with request })
        (Function.update entry th (some (k, some request))) ∧
      queued (sq.set k { sq.get k with request })
        (Function.update entry th (some (k, some request))) = queued sq entry := by
  have howner : owner (Function.update entry th (some (k, some request))) = owner entry := by
    rw [owner_update, Option.map_some, ← owner_some hth, Function.update_eq_self]
  have hqueued : queued (sq.set k { sq.get k with request })
      (Function.update entry th (some (k, some request))) = queued sq entry := by
    rw [queued, howner]
    exact h.owned.contents_set (owner_some hth)
  refine ⟨⟨?_, hqueued ▸ h.ready, ?_⟩, hqueued⟩
  · rw [howner]
    exact h.owned.set
  · intro th' k' request' hth'
    by_cases hne : th' = th
    · rw [hne, Function.update_self, Option.some.injEq, Prod.mk.injEq, Option.some.injEq] at hth'
      obtain ⟨rfl, rfl⟩ := hth'
      rw [EntryRing.get_set_self]
    · rw [Function.update_of_ne hne] at hth'
      rw [h.get_set hth hth' hne]
      exact h.prepared th' k' request' hth'

/-- With `io_uring_sqe_set_data` an entry is complete. -/
theorem Prepares.setData (h : Prepares sq entry) (hth : entry th = some (k, some request))
    {data : Option SlotId} (hready : Sqe.Ready { request, data }) :
    Prepares (sq.set k { sq.get k with data }) (Function.update entry th none) ∧
      queued (sq.set k { sq.get k with data }) (Function.update entry th none) =
        { request, data } ::ₘ queued sq entry := by
  have hsqe : (sq.set k { sq.get k with data }).get k = { request, data } := by
    rw [EntryRing.get_set_self]
    exact congrArg (Sqe.mk · data) (h.prepared th k request hth)
  have hqueued : queued (sq.set k { sq.get k with data }) (Function.update entry th none) =
      { request, data } ::ₘ queued sq entry := by
    have hset : (sq.set k { sq.get k with data }).Owned (owner entry) := h.owned.set
    rw [queued, owner_update, Option.map_none, hset.contents_release (owner_some hth), hsqe,
      h.owned.contents_set (owner_some hth)]
    rfl
  refine ⟨⟨?_, ?_, ?_⟩, hqueued⟩
  · rw [owner_update]
    exact h.owned.set.release th
  · rw [hqueued]
    exact Multiset.forall_mem_cons.mpr ⟨hready, h.ready⟩
  · intro th' k' request' hth'
    by_cases hne : th' = th
    · rw [hne, Function.update_self] at hth'
      cases hth'
    · rw [Function.update_of_ne hne] at hth'
      rw [h.get_set hth hth' hne]
      exact h.prepared th' k' request' hth'

end Prepares

theorem Sending.readHeader_eq {slots : SlotId → Slot} {op op' : Sending}
    (h : op.readHeader slots = some op') : ∃ header, op' = { op with header } := by
  unfold Sending.readHeader at h
  split at h
  · cases h
  · obtain ⟨id, _, h⟩ := Option.bind_eq_some_iff.mp h
    obtain ⟨iov, _, rfl⟩ := Option.map_eq_some_iff.mp h
    exact ⟨_, rfl⟩

theorem Sending.readByte_eq {slots : SlotId → Slot} {op op' : Sending}
    (h : op.readByte slots = some op') : ∃ read, op' = { op with read } := by
  obtain ⟨header, _, h⟩ := Option.bind_eq_some_iff.mp h
  split at h
  · obtain rfl := Option.some.inj h
    exact ⟨_, rfl⟩
  · cases h

section Rings

variable [Fintype ι] {s t : Ring ι}

def Ring.queued (s : Ring ι) : Multiset Sqe := IoUring.queued s.sq s.entry

/-- What is in the queue and with the kernel names the slots that it uses. -/
structure Ring.Tidy (s : Ring ι) : Prop where
  prepares : Prepares s.sq s.entry
  sending : ∀ op ∈ s.sending, op.data = some (.send op.slot)
  receiving : ∀ r ∈ s.receiving, r.data = some (.recv r.slot)

omit [Fintype ι] in
theorem Ring.entry_loop (s : Ring ι) [DecidableEq ι] (loop : LoopPc) :
    Ring.entry { s with loop } = Function.update s.entry none loop.entry := by
  funext th
  cases th with
  | none => rw [Function.update_self]; rfl
  | some i => rw [Function.update_of_ne (Option.some_ne_none i)]; rfl

omit [Fintype ι] in
theorem Ring.entry_setWriter [DecidableEq ι] (s : Ring ι) (i : ι) (pc : WritePc) :
    (s.setWriter i pc).entry = Function.update s.entry (some i) pc.entry := by
  funext th
  cases th with
  | none => rw [Function.update_of_ne (Option.some_ne_none i).symm]; rfl
  | some j =>
    by_cases hj : j = i
    · subst hj
      rw [Function.update_self]
      exact congrArg WritePc.entry Ring.setWriter_self
    · rw [Function.update_of_ne fun heq => hj (Option.some.inj heq)]
      exact congrArg WritePc.entry (Ring.setWriter_of_ne hj)

theorem Ring.Tidy.submit (h : s.Tidy) (hsettled : s.Settled) (n : Nat) :
    (s.submit n).Tidy ∧ s.queued = ↑(s.sq.taken n) + (s.submit n).queued := by
  obtain ⟨hprepares, hqueued⟩ := h.prepares.take hsettled n
  have hready : ∀ sqe ∈ s.sq.taken n, sqe.Ready := by
    intro sqe hmem
    refine h.prepares.ready sqe ?_
    rw [hqueued]
    exact Multiset.mem_add.mpr (.inl hmem)
  refine ⟨⟨hprepares, ?_, ?_⟩, hqueued⟩
  · intro op hmem
    rcases List.mem_append.mp hmem with hmem | hmem
    · exact h.sending op hmem
    · obtain ⟨sqe, hsqe, hop⟩ := List.mem_filterMap.mp hmem
      obtain ⟨request, data⟩ := sqe
      cases request with
      | sendmsg slot call =>
        obtain rfl := Option.some.inj hop
        exact hready _ hsqe
      | nop | recvmsg => cases hop
  · intro r hmem
    rcases List.mem_append.mp hmem with hmem | hmem
    · exact h.receiving r hmem
    · obtain ⟨sqe, hsqe, hr⟩ := List.mem_filterMap.mp hmem
      obtain ⟨request, data⟩ := sqe
      cases request with
      | recvmsg slot =>
        obtain rfl := Option.some.inj hr
        exact hready _ hsqe
      | nop | sendmsg => cases hr

theorem Ring.Tidy.congr (h : s.Tidy) (hsq : t.sq = s.sq) (hentry : t.entry = s.entry)
    (hsending : ∀ op ∈ t.sending, ∃ op' ∈ s.sending, op'.slot = op.slot ∧ op'.data = op.data)
    (hreceiving : ∀ r ∈ t.receiving, r ∈ s.receiving) :
    t.Tidy ∧ t.queued = s.queued := by
  refine ⟨⟨?_, ?_, fun r hmem => h.receiving r (hreceiving r hmem)⟩, ?_⟩
  · rw [hsq, hentry]
    exact h.prepares
  · intro op hmem
    obtain ⟨op', hmem', hslot, hdata⟩ := hsending op hmem
    rw [← hdata, h.sending op' hmem', hslot]
  · rw [Ring.queued, hsq, hentry]
    rfl

/-- What a step does to the queue. -/
def Ring.Queues (s t : Ring ι) : Action ι → Prop
  | .setData i => ∃ own k, s.writers i = .prepared own k ∧
    t.queued = ⟨.sendmsg own.slot own.call, some (.send own.slot)⟩ ::ₘ s.queued
  | .armSetData => ∃ slot k, s.loop = .prepared slot k ∧
    t.queued = ⟨.recvmsg slot, some (.recv slot)⟩ ::ₘ s.queued
  | .submit _ n | .loopSubmit n => s.queued = ↑(s.sq.taken n) + t.queued
  | _ => t.queued = s.queued

theorem Ring.Tidy.same (h : s.Tidy) (hsq : t.sq = s.sq) (hentry : t.entry = s.entry)
    (hsending : t.sending = s.sending) (hreceiving : t.receiving = s.receiving) :
    t.Tidy ∧ t.queued = s.queued :=
  h.congr hsq hentry (fun op hmem => ⟨op, hsending ▸ hmem, rfl, rfl⟩)
    fun _ hmem => hreceiving ▸ hmem

/-- The kernel goes on with one of its sends. -/
theorem Ring.Tidy.progress (h : s.Tidy) {k : Nat} {op op' : Sending} {wire : List Datagram}
    (hk : s.sending[k]? = some op) (hslot : op.slot = op'.slot) (hdata : op.data = op'.data) :
    Ring.Tidy { s with sending := s.sending.set k op', wire } ∧
      Ring.queued { s with sending := s.sending.set k op', wire } = s.queued := by
  refine h.congr rfl rfl (fun op'' hmem => ?_) fun _ => id
  rcases List.mem_or_eq_of_mem_set hmem with hmem | rfl
  · exact ⟨op'', hmem, rfl, rfl⟩
  · exact ⟨op, List.mem_of_getElem? hk, hslot, hdata⟩

theorem Ring.opened_tidy (entries : Nat) (next : UInt32) (ready failed : Bool) :
    Ring.Tidy { Ring.opened entries next with ready, failed : Ring ι } ∧
      Ring.queued { Ring.opened entries next with ready, failed : Ring ι } = 0 := by
  have hentry : ∀ th, Ring.entry { Ring.opened entries next with ready, failed : Ring ι } th =
      none := by
    intro th
    cases th <;> rfl
  have hqueued : Ring.queued { Ring.opened entries next with ready, failed : Ring ι } = 0 :=
    EntryRing.contents_empty rfl
  refine ⟨⟨⟨⟨le_rfl, Nat.le_add_right _ _, ?_, ?_⟩, ?_, ?_⟩, ?_, ?_⟩, hqueued⟩
  · intro th k hk
    rw [owner_none (hentry th)] at hk
    cases hk
  · intro th th' k hk
    rw [owner_none (hentry th)] at hk
    cases hk
  · intro sqe hmem
    rw [show IoUring.queued _ _ = 0 from hqueued] at hmem
    exact absurd hmem (Multiset.notMem_zero _)
  · intro th k request hth
    rw [hentry] at hth
    cases hth
  · exact fun op hmem => absurd hmem List.not_mem_nil
  · intro r hmem
    obtain ⟨i, _, rfl⟩ := List.mem_map.mp hmem
    rfl

variable [DecidableEq ι]

omit [Fintype ι] in
theorem Ring.entry_setWriter_eq {i : ι} {pc : WritePc} (h : pc.entry = (s.writers i).entry) :
    (s.setWriter i pc).entry = s.entry := by
  rw [Ring.entry_setWriter, h]
  exact Function.update_eq_self (some i) s.entry

omit [Fintype ι] in
theorem Ring.entry_loop_eq {loop : LoopPc} (h : loop.entry = s.loop.entry) :
    Ring.entry { s with loop } = s.entry := by
  rw [Ring.entry_loop, h]
  exact Function.update_eq_self none s.entry

/-- The discipline keeps the queue tidy, and nothing but a complete entry comes into it. -/
theorem Ring.Tidy.step {a : Action ι} (h : s.Tidy) (hg : s.exclusive a) (hs : s.Step a t) :
    t.Tidy ∧ s.Queues t a := by
  cases hs with
  | @acquire i data hi =>
    have hentry : (s.setWriter i (.acquired ⟨s.sendSlot, data, s.calls.length⟩)).entry = s.entry :=
      Ring.entry_setWriter_eq (by rw [hi]; rfl)
    exact h.same rfl hentry rfl rfl
  | refuse => exact ⟨h, rfl⟩
  | memcpy hi => exact h.same rfl (Ring.entry_setWriter_eq (s := s) (by rw [hi]; rfl)) rfl rfl
  | header hi => exact h.same rfl (Ring.entry_setWriter_eq (s := s) (by rw [hi]; rfl)) rfl rfl
  | @getSqe i own k sq hi hsq =>
    have hentry : ({ s with sq }.setWriter i (.reserved own k)).entry =
        Function.update s.entry (some i) (some (k, none)) := Ring.entry_setWriter _ _ _
    have hnone : s.entry (some i) = none := congrArg WritePc.entry hi
    obtain ⟨hprepares, hqueued⟩ := h.prepares.reserve hsq hnone
    rw [← hentry] at hprepares hqueued
    exact ⟨⟨hprepares, h.sending, h.receiving⟩, hqueued⟩
  | dropSend hi => exact h.same rfl (Ring.entry_setWriter_eq (by rw [hi]; rfl)) rfl rfl
  | @prepSendmsg i own k hi =>
    have hown : s.entry (some i) = some (k, none) := congrArg WritePc.entry hi
    obtain ⟨hprepares, hqueued⟩ := h.prepares.prep hown (.sendmsg own.slot own.call)
    have hentry : (s.setWriter i (.prepared own k)).entry =
      Function.update s.entry (some i) (some (k, some (.sendmsg own.slot own.call))) :=
        Ring.entry_setWriter _ _ _
    rw [← hentry] at hprepares hqueued
    exact ⟨⟨hprepares, h.sending, h.receiving⟩, hqueued⟩
  | @setData i own k hi =>
    have hown : s.entry (some i) = some (k, some (.sendmsg own.slot own.call)) :=
      congrArg WritePc.entry hi
    have hready : Sqe.Ready ⟨.sendmsg own.slot own.call, some (.send own.slot)⟩ := rfl
    obtain ⟨hprepares, hqueued⟩ := h.prepares.setData hown hready
    have hentry : (s.setWriter i .queued).entry = Function.update s.entry (some i) none :=
      Ring.entry_setWriter _ _ _
    rw [← hentry] at hprepares hqueued
    exact ⟨⟨hprepares, h.sending, h.receiving⟩, own, k, hi, hqueued⟩
  | @submit i n hi =>
    obtain ⟨hsubmit, hqueued⟩ := h.submit hg n
    have hentry : ((s.submit n).setWriter i .idle).entry = (s.submit n).entry :=
      Ring.entry_setWriter_eq (congrArg WritePc.entry hi).symm
    obtain ⟨htidy, hsame⟩ :=
      hsubmit.same (t := (s.submit n).setWriter i .idle) rfl hentry rfl rfl
    exact ⟨htidy, hqueued.trans (congrArg (_ + ·) hsame.symm)⟩
  | readHeader hk hop =>
    obtain ⟨header, rfl⟩ := Sending.readHeader_eq hop
    exact h.progress hk rfl rfl
  | readByte hk hop =>
    obtain ⟨read, rfl⟩ := Sending.readByte_eq hop
    exact h.progress hk rfl rfl
  | send hk hop => exact h.progress hk rfl rfl
  | complete =>
    exact h.congr rfl rfl (fun op hmem => ⟨op, List.mem_of_mem_eraseIdx hmem, rfl, rfl⟩) fun _ => id
  | receive | failReceive =>
    exact h.congr rfl rfl (fun op hmem => ⟨op, hmem, rfl, rfl⟩)
      fun _ hmem => List.mem_of_mem_eraseIdx hmem
  | @seen cqe cq hloop =>
    rcases cqe with ⟨_ | ⟨i | p⟩, res⟩
    · exact h.same rfl rfl rfl rfl
    · exact h.same rfl (Ring.entry_loop_eq (s := s) (congrArg LoopPc.entry hloop).symm) rfl rfl
    · exact h.same rfl rfl rfl rfl
  | @arm i k sq hloop hsq =>
    have hnone : s.entry none = none := congrArg LoopPc.entry hloop
    obtain ⟨hprepares, hqueued⟩ := h.prepares.reserve hsq hnone
    have hentry : Ring.entry { s with loop := .reserved i k } =
      Function.update s.entry none (some (k, none)) := Ring.entry_loop _ _
    rw [← hentry] at hprepares hqueued
    exact ⟨⟨hprepares, h.sending, h.receiving⟩, hqueued⟩
  | armNothing hloop => exact h.same rfl (Ring.entry_loop_eq (by rw [hloop]; rfl)) rfl rfl
  | armHeader hloop => exact h.same rfl (Ring.entry_loop_eq (s := s) (by rw [hloop]; rfl)) rfl rfl
  | @prepRecvmsg i k hloop =>
    have hown : s.entry none = some (k, none) := congrArg LoopPc.entry hloop
    obtain ⟨hprepares, hqueued⟩ := h.prepares.prep hown (.recvmsg i)
    have hentry : Ring.entry { s with loop := .prepared i k } =
      Function.update s.entry none (some (k, some (.recvmsg i))) := Ring.entry_loop _ _
    rw [← hentry] at hprepares hqueued
    exact ⟨⟨hprepares, h.sending, h.receiving⟩, hqueued⟩
  | @armSetData i k hloop =>
    have hown : s.entry none = some (k, some (.recvmsg i)) := congrArg LoopPc.entry hloop
    have hready : Sqe.Ready ⟨.recvmsg i, some (.recv i)⟩ := rfl
    obtain ⟨hprepares, hqueued⟩ := h.prepares.setData hown hready
    have hentry : Ring.entry { s with loop := .submit } = Function.update s.entry none none :=
      Ring.entry_loop _ _
    rw [← hentry] at hprepares hqueued
    exact ⟨⟨hprepares, h.sending, h.receiving⟩, i, k, hloop, hqueued⟩
  | @loopSubmit n hloop =>
    obtain ⟨hsubmit, hqueued⟩ := h.submit hg n
    have hentry : Ring.entry { s.submit n with loop := .wait } = (s.submit n).entry :=
      Ring.entry_loop_eq (congrArg LoopPc.entry hloop).symm
    obtain ⟨htidy, hsame⟩ :=
      hsubmit.same (t := { s.submit n with loop := .wait }) rfl hentry rfl rfl
    exact ⟨htidy, hqueued.trans (congrArg (_ + ·) hsame.symm)⟩

end Rings

end SensorForge.IoUring
