import SensorForge.IoUringQueue

/-! Sends through an io_uring. The kernel reads a slot at any time from its submission to its
completion, and the slots come round with every 64th call. -/

namespace SensorForge.IoUring

open Transition

variable {ι : Type*}

/-- The slot and the call that a thread is preparing a send for. -/
def Ring.held (s : Ring ι) (i : ι) : Option (Fin numSendBuffers × Nat) :=
  (s.writers i).holding.map fun own => (own.slot, own.call)

section Flight

variable [Fintype ι]

/-- The send of call `m` from slot `p` has been queued and has not completed. -/
def Ring.Outgoing (s : Ring ι) (p : Fin numSendBuffers) (m : Nat) : Prop :=
  (∃ sqe ∈ s.queued, sqe.request = .sendmsg p m) ∨ ∃ op ∈ s.sending, op.slot = p ∧ op.call = m

def Ring.Outstanding (s : Ring ι) (p : Fin numSendBuffers) : Prop := ∃ m, s.Outgoing p m

/-- Call `m` has not yet prepared its send, or that has not completed. -/
def Ring.InFlight (s : Ring ι) (m : Nat) : Prop :=
  ∃ p, (∃ i, s.held i = some (p, m)) ∨ s.Outgoing p m

instance (s : Ring ι) (p : Fin numSendBuffers) (m : Nat) : Decidable (s.Outgoing p m) :=
  have : Decidable (∃ sqe ∈ s.queued, sqe.request = .sendmsg p m) :=
    Multiset.decidableExistsMultiset
  inferInstanceAs (Decidable (_ ∨ _))

instance (s : Ring ι) (m : Nat) : Decidable (s.InFlight m) :=
  inferInstanceAs (Decidable (∃ p, (∃ i, s.held i = some (p, m)) ∨ s.Outgoing p m))

/-- When a call is accepted, the call 64 before it is not in flight any more. -/
def Ring.lapDone (s : Ring ι) : Action ι → Prop
  | .acquire _ data => s.Accepts data → numSendBuffers ≤ s.calls.length →
    ¬ s.InFlight (s.calls.length - numSendBuffers)
  | _ => True

instance Ring.decideLapDone (s : Ring ι) : ∀ a : Action ι, Decidable (s.lapDone a)
  | .acquire _ data => inferInstanceAs (Decidable (s.Accepts data → _ → ¬ _))
  | .memcpy _ | .header _ | .getSqe _ | .prepSendmsg _ | .setData _ | .submit _ _
  | .readHeader _ | .readByte _ | .send _ | .complete _ _ | .receive _ _ | .failReceive _ _
  | .seen | .arm | .armHeader | .prepRecvmsg | .armSetData | .loopSubmit _ => instDecidableTrue

/-- The calls wait for the lap before, and no thread submits what another is preparing. -/
def Ring.paced (s : Ring ι) (a : Action ι) : Prop := s.exclusive a ∧ s.lapDone a

instance (s : Ring ι) (a : Action ι) : Decidable (s.paced a) :=
  inferInstanceAs (Decidable (_ ∧ _))

/-- The slot of call `m` where the counter starts at `first`. -/
def slotOf (first : UInt32) (m : Nat) : Fin numSendBuffers :=
  ⟨(first.toNat + m) % numSendBuffers, Nat.mod_lt _ (by decide)⟩

/-- A call is with one thread or in the queue or with the kernel, and comes from the last 64. -/
structure Ring.Laps (first : UInt32) (s : Ring ι) : Prop where
  tidy : s.Tidy
  next : s.nextSendSlot = first + UInt32.ofNat s.calls.length
  once : ∀ i j p q m, s.held i = some (p, m) → s.held j = some (q, m) → i = j
  left : ∀ i p q m, s.held i = some (p, m) → ¬ s.Outgoing q m
  recent : ∀ p m, (∃ i, s.held i = some (p, m)) ∨ s.Outgoing p m →
    m < s.calls.length ∧ s.calls.length ≤ m + numSendBuffers ∧ p = slotOf first m

variable {s t : Ring ι} {first : UInt32}

/-- The counter wraps at a multiple of the number of slots. -/
theorem Ring.Laps.sendSlot (h : s.Laps first) : s.sendSlot = slotOf first s.calls.length := by
  refine Fin.ext ?_
  change s.nextSendSlot.toNat % numSendBuffers = (first.toNat + s.calls.length) % numSendBuffers
  rw [h.next, UInt32.toNat_add, UInt32.toNat_ofNat', Nat.add_mod_mod]
  exact Nat.mod_mod_of_dvd _ (by decide)

theorem slotOf_inj {m m' : Nat} (h : slotOf first m = slotOf first m')
    (hlt : m < m' + numSendBuffers) (hlt' : m' < m + numSendBuffers) : m = m' := by
  have hmod : (first.toNat + m) % numSendBuffers = (first.toNat + m') % numSendBuffers :=
    Fin.ext_iff.mp h
  simp only [numSendBuffers] at hmod hlt hlt'
  omega

/-- Two threads do not have one slot. -/
theorem Ring.Laps.apart (h : s.Laps first) {i j : ι} {p : Fin numSendBuffers} {m m' : Nat}
    (hi : s.held i = some (p, m)) (hj : s.held j = some (p, m')) : i = j := by
  obtain ⟨hlt, hle, hp⟩ := h.recent p m (.inl ⟨i, hi⟩)
  obtain ⟨hlt', hle', hp'⟩ := h.recent p m' (.inl ⟨j, hj⟩)
  obtain rfl : m = m' := slotOf_inj (hp.symm.trans hp') (by omega) (by omega)
  exact h.once i j p p m hi hj

/-- No send is outstanding from the slot that a thread has. -/
theorem Ring.Laps.held (h : s.Laps first) {i : ι} {p : Fin numSendBuffers} {m : Nat}
    (hi : s.held i = some (p, m)) : ¬ s.Outstanding p := by
  rintro ⟨m', hout⟩
  obtain ⟨hlt, hle, hp⟩ := h.recent p m (.inl ⟨i, hi⟩)
  obtain ⟨hlt', hle', hp'⟩ := h.recent p m' (.inr hout)
  obtain rfl : m = m' := slotOf_inj (hp.symm.trans hp') (by omega) (by omega)
  exact h.left i p p m hi hout

theorem Ring.Laps.frame (h : s.Laps first) (htidy : t.Tidy)
    (hnext : t.nextSendSlot = s.nextSendSlot) (hcalls : t.calls = s.calls)
    (hheld : ∀ i x, t.held i = some x → s.held i = some x)
    (hout : ∀ p m, t.Outgoing p m → s.Outgoing p m) : t.Laps first where
  tidy := htidy
  next := by rw [hnext, hcalls, h.next]
  once i j p q m hi hj := h.once i j p q m (hheld i _ hi) (hheld j _ hj)
  left i p q m hi hq := h.left i p q m (hheld i _ hi) (hout q m hq)
  recent p m hhas := by
    rw [hcalls]
    refine h.recent p m (hhas.imp ?_ (hout p m))
    rintro ⟨i, hi⟩
    exact ⟨i, hheld i _ hi⟩

theorem Ring.outgoing_congr (hqueued : ∀ sqe ∈ t.queued, sqe ∈ s.queued)
    (hsending : ∀ op ∈ t.sending, ∃ op' ∈ s.sending, op'.slot = op.slot ∧ op'.call = op.call)
    (p : Fin numSendBuffers) (m : Nat) (h : t.Outgoing p m) : s.Outgoing p m := by
  rcases h with ⟨sqe, hmem, hsqe⟩ | ⟨op, hmem, hslot, hcall⟩
  · exact .inl ⟨sqe, hqueued sqe hmem, hsqe⟩
  · obtain ⟨op', hmem', hslot', hcall'⟩ := hsending op hmem
    exact .inr ⟨op', hmem', hslot'.trans hslot, hcall'.trans hcall⟩

/-- What the kernel takes was in the queue. -/
theorem Ring.outgoing_submit {n : Nat} (hqueued : s.queued = ↑(s.sq.taken n) + t.queued)
    (hsending : t.sending = (s.submit n).sending) (p : Fin numSendBuffers) (m : Nat)
    (h : t.Outgoing p m) : s.Outgoing p m := by
  rcases h with ⟨sqe, hmem, hsqe⟩ | ⟨op, hmem, rfl, rfl⟩
  · refine .inl ⟨sqe, ?_, hsqe⟩
    rw [hqueued]
    exact Multiset.mem_add.mpr (.inr hmem)
  · rw [hsending] at hmem
    rcases List.mem_append.mp hmem with hmem | hmem
    · exact .inr ⟨op, hmem, rfl, rfl⟩
    · obtain ⟨⟨request, data⟩, hsqe, hop⟩ := List.mem_filterMap.mp hmem
      cases request with
      | sendmsg slot call =>
        obtain rfl := Option.some.inj hop
        refine .inl ⟨⟨.sendmsg slot call, data⟩, ?_, rfl⟩
        rw [hqueued]
        exact Multiset.mem_add.mpr (.inl hsqe)
      | nop | recvmsg => cases hop

variable [DecidableEq ι]

omit [Fintype ι] in
theorem Ring.held_setWriter_self (s : Ring ι) (i : ι) (pc : WritePc) :
    (s.setWriter i pc).held i = pc.holding.map fun own => (own.slot, own.call) := by
  rw [Ring.held, Ring.setWriter_self]

omit [Fintype ι] in
theorem Ring.held_setWriter_of_ne {i j : ι} (s : Ring ι) (pc : WritePc) (h : j ≠ i) :
    (s.setWriter i pc).held j = s.held j := by
  rw [Ring.held, Ring.setWriter_of_ne h]
  rfl

omit [Fintype ι] in
/-- A thread goes on with what it has, or gives it up. -/
theorem Ring.held_setWriter {i j : ι} {pc : WritePc} {x : Fin numSendBuffers × Nat}
    (hpc : pc.holding = none ∨ pc.holding = (s.writers i).holding)
    (h : (s.setWriter i pc).held j = some x) : s.held j = some x := by
  by_cases hj : j = i
  · subst hj
    rw [Ring.held_setWriter_self] at h
    rcases hpc with hpc | hpc
    · rw [hpc] at h
      cases h
    · rwa [hpc] at h
  · rwa [Ring.held_setWriter_of_ne s pc hj] at h

theorem Ring.Laps.acquire (h : s.Laps first) {i : ι} {data : Bytes}
    (hdone : numSendBuffers ≤ s.calls.length → ¬ s.InFlight (s.calls.length - numSendBuffers))
    (htidy : t.Tidy) (hqueued : t.queued = s.queued) (hsending : t.sending = s.sending)
    (hnext : t.nextSendSlot = s.nextSendSlot + 1) (hcalls : t.calls = s.calls ++ [data])
    (hi : t.held i = some (s.sendSlot, s.calls.length))
    (hother : ∀ j, j ≠ i → t.held j = s.held j) : t.Laps first := by
  have hlen : t.calls.length = s.calls.length + 1 := by
    rw [hcalls, List.length_append, List.length_singleton]
  have hout : ∀ p m, t.Outgoing p m → s.Outgoing p m := by
    intro p m hp
    rwa [Ring.Outgoing, hqueued, hsending] at hp
  have hheld : ∀ j p m, t.held j = some (p, m) →
      (j = i ∧ p = s.sendSlot ∧ m = s.calls.length) ∨ (j ≠ i ∧ s.held j = some (p, m)) := by
    intro j p m hj
    by_cases hji : j = i
    · rw [hji, hi, Option.some.injEq, Prod.mk.injEq] at hj
      exact .inl ⟨hji, hj.1.symm, hj.2.symm⟩
    · exact .inr ⟨hji, (hother j hji).symm.trans hj⟩
  -- the number of the new call is with no other thread and with no send
  have hfresh : ∀ p, ¬ ((∃ j, s.held j = some (p, s.calls.length)) ∨
      s.Outgoing p s.calls.length) := fun p hp => Nat.lt_irrefl _ (h.recent p _ hp).1
  constructor
  case tidy => exact htidy
  case next =>
    have hone : UInt32.ofNat 1 = 1 := rfl
    rw [hnext, hlen, UInt32.ofNat_add, hone, h.next, UInt32.add_assoc]
  case once =>
    intro j₁ j₂ p q m h₁ h₂
    rcases hheld j₁ p m h₁ with ⟨rfl, -, rfl⟩ | ⟨_, hold₁⟩ <;>
      rcases hheld j₂ q _ h₂ with ⟨hj, -, hm⟩ | ⟨_, hold₂⟩
    · exact hj.symm
    · exact absurd (.inl ⟨j₂, hold₂⟩) (hfresh q)
    · subst hm
      exact absurd (.inl ⟨j₁, hold₁⟩) (hfresh p)
    · exact h.once j₁ j₂ p q m hold₁ hold₂
  case left =>
    intro j p q m hj hq
    rcases hheld j p m hj with ⟨-, -, rfl⟩ | ⟨_, hold⟩
    · exact hfresh q (.inr (hout q _ hq))
    · exact h.left j p q m hold (hout q m hq)
  case recent =>
    have hold : ∀ p m, (∃ j, s.held j = some (p, m)) ∨ s.Outgoing p m →
        m < t.calls.length ∧ t.calls.length ≤ m + numSendBuffers ∧ p = slotOf first m := by
      intro p m hp
      obtain ⟨hlt, hle, hslot⟩ := h.recent p m hp
      refine ⟨by omega, ?_, hslot⟩
      -- the call 64 before the new one is not in flight
      by_contra hlast
      have hm : m = s.calls.length - numSendBuffers := by omega
      exact hdone (by omega) (hm ▸ ⟨p, hp⟩)
    rintro p m (⟨j, hj⟩ | hp)
    · rcases hheld j p m hj with ⟨-, rfl, rfl⟩ | ⟨_, hj⟩
      · refine ⟨by omega, ?_, h.sendSlot⟩
        rw [hlen]
        exact Nat.add_le_add_left (by decide) _
      · exact hold p m (.inl ⟨j, hj⟩)
    · exact hold p m (.inr (hout p m hp))

/-- The send goes over from its thread to the queue. -/
theorem Ring.Laps.setData (h : s.Laps first) {i : ι} {p : Fin numSendBuffers} {m : Nat}
    {data : Option SlotId} (hi : s.held i = some (p, m)) (htidy : t.Tidy)
    (hqueued : t.queued = ⟨.sendmsg p m, data⟩ ::ₘ s.queued) (hsending : t.sending = s.sending)
    (hnext : t.nextSendSlot = s.nextSendSlot) (hcalls : t.calls = s.calls)
    (hgone : t.held i = none) (hother : ∀ j, j ≠ i → t.held j = s.held j) : t.Laps first := by
  have hheld : ∀ j x, t.held j = some x → j ≠ i ∧ s.held j = some x := by
    intro j x hj
    by_cases hji : j = i
    · rw [hji, hgone] at hj
      cases hj
    · exact ⟨hji, (hother j hji).symm.trans hj⟩
  have hout : ∀ q m', t.Outgoing q m' → (q = p ∧ m' = m) ∨ s.Outgoing q m' := by
    rintro q m' (⟨sqe, hmem, hsqe⟩ | hmem)
    · rw [hqueued, Multiset.mem_cons] at hmem
      rcases hmem with rfl | hmem
      · injection hsqe with hq hm
        exact .inl ⟨hq.symm, hm.symm⟩
      · exact .inr (.inl ⟨sqe, hmem, hsqe⟩)
    · rw [hsending] at hmem
      exact .inr (.inr hmem)
  constructor
  case tidy => exact htidy
  case next => rw [hnext, hcalls, h.next]
  case once =>
    intro j₁ j₂ p q m h₁ h₂
    exact h.once j₁ j₂ p q m (hheld j₁ _ h₁).2 (hheld j₂ _ h₂).2
  case left =>
    intro j p' q m' hj hq
    obtain ⟨hji, hj⟩ := hheld j _ hj
    rcases hout q m' hq with ⟨_, rfl⟩ | hq
    · exact hji (h.once j i p' p m' hj hi)
    · exact h.left j p' q m' hj hq
  case recent =>
    rw [hcalls]
    rintro q m' (⟨j, hj⟩ | hq)
    · exact h.recent q m' (.inl ⟨j, (hheld j _ hj).2⟩)
    · rcases hout q m' hq with ⟨rfl, rfl⟩ | hq
      · exact h.recent q m' (.inl ⟨i, hi⟩)
      · exact h.recent q m' (.inr hq)

theorem Ring.Laps.step {a : Action ι} (h : s.Laps first) (hg : s.paced a) (hs : s.Step a t) :
    t.Laps first := by
  obtain ⟨htidy, hqueues⟩ := h.tidy.step hg.1 hs
  -- all but three steps leave the queue as it is, and the sends their slots and calls
  have same : t.queued = s.queued → t.nextSendSlot = s.nextSendSlot → t.calls = s.calls →
      (∀ i x, t.held i = some x → s.held i = some x) →
      (∀ op ∈ t.sending, ∃ op' ∈ s.sending, op'.slot = op.slot ∧ op'.call = op.call) →
      t.Laps first := by
    intro hqueued hnext hcalls hheld hsending
    exact h.frame htidy hnext hcalls hheld
      (Ring.outgoing_congr (fun sqe hmem => hqueued ▸ hmem) hsending)
  have progress : ∀ {k : Nat} {op op' : Sending}, s.sending[k]? = some op → op.slot = op'.slot →
      op.call = op'.call → ∀ op'' ∈ s.sending.set k op', ∃ op₀ ∈ s.sending,
        op₀.slot = op''.slot ∧ op₀.call = op''.call := by
    intro k op op' hk hslot hcall op'' hmem
    rcases List.mem_or_eq_of_mem_set hmem with hmem | rfl
    · exact ⟨op'', hmem, rfl, rfl⟩
    · exact ⟨op, List.mem_of_getElem? hk, hslot, hcall⟩
  have kept : ∀ op ∈ s.sending, ∃ op' ∈ s.sending, op'.slot = op.slot ∧ op'.call = op.call :=
    fun op hmem => ⟨op, hmem, rfl, rfl⟩
  cases hs with
  | @acquire i data hi haccepts =>
    exact h.acquire (hg.2 haccepts) htidy hqueues rfl rfl rfl (Ring.held_setWriter_self _ _ _)
      fun j hj => Ring.held_setWriter_of_ne s _ hj
  | refuse => exact h
  | memcpy hi | header hi | getSqe hi | dropSend hi | prepSendmsg hi =>
    refine same hqueues rfl rfl (fun j x => Ring.held_setWriter (s := s) ?_) kept
    rw [hi]
    simp [WritePc.holding]
  | @setData i own k hi =>
    obtain ⟨own', k', hi', hqueued⟩ := hqueues
    rw [hi] at hi'
    cases hi'
    refine h.setData (i := i) (by rw [Ring.held, hi]; rfl) htidy hqueued rfl rfl rfl
      (Ring.held_setWriter_self _ _ _) fun j hj => Ring.held_setWriter_of_ne _ _ hj
  | submit hi =>
    exact h.frame htidy rfl rfl (fun j x => Ring.held_setWriter (.inl rfl))
      (Ring.outgoing_submit hqueues rfl)
  | readHeader hk hop =>
    obtain ⟨header, rfl⟩ := Sending.readHeader_eq hop
    exact same hqueues rfl rfl (fun _ _ => id) (progress hk rfl rfl)
  | readByte hk hop =>
    obtain ⟨read, rfl⟩ := Sending.readByte_eq hop
    exact same hqueues rfl rfl (fun _ _ => id) (progress hk rfl rfl)
  | send hk => exact same hqueues rfl rfl (fun _ _ => id) (progress hk rfl rfl)
  | complete =>
    exact same hqueues rfl rfl (fun _ _ => id) fun op hmem =>
      ⟨op, List.mem_of_mem_eraseIdx hmem, rfl, rfl⟩
  | receive | failReceive | arm | armNothing | armHeader | prepRecvmsg =>
    exact same hqueues rfl rfl (fun _ _ => id) kept
  | @seen cqe =>
    rcases cqe with ⟨_ | ⟨_ | _⟩, res⟩ <;> exact same hqueues rfl rfl (fun _ _ => id) kept
  | armSetData =>
    obtain ⟨slot, k, _, hqueued⟩ := hqueues
    refine h.frame htidy rfl rfl (fun _ _ => id) ?_
    rintro p m (⟨sqe, hmem, hsqe⟩ | hmem)
    · rw [hqueued, Multiset.mem_cons] at hmem
      rcases hmem with rfl | hmem
      · cases hsqe
      · exact .inl ⟨sqe, hmem, hsqe⟩
    · exact .inr hmem
  | loopSubmit =>
    exact h.frame htidy rfl rfl (fun _ _ => id) (Ring.outgoing_submit hqueues rfl)

end Flight

structure Slot.Carries (slot : Slot) (data : Bytes) : Prop where
  fits : data.length ≤ bufferSize
  buf : ∀ (k : Fin bufferSize) (h : k < data.length), slot.buf k = data[k]

structure Slot.Holds (slot : Slot) (p : Fin numSendBuffers) (data : Bytes) : Prop extends
    slot.Carries data where
  iov : slot.iov = some ⟨.send p, data.length⟩
  msg : slot.msg = { name := some .remote, iov := some (.send p), iovlen := 1 }

/-- What the kernel has read so far is of the data. -/
def Sending.Reads (op : Sending) (data : Bytes) : Prop :=
  match op.header with
  | none => op.read = []
  | some (iov, name) =>
    iov = ⟨.send op.slot, data.length⟩ ∧ name = some .remote ∧ op.read <+: data

def Ring.WriterInv (s : Ring ι) : WritePc → Prop
  | .idle | .queued => True
  | .acquired own => s.calls[own.call]? = some own.data ∧ own.data.length ≤ bufferSize
  | .copied own =>
    s.calls[own.call]? = some own.data ∧ (s.slots (.send own.slot)).Carries own.data
  | .filled own | .reserved own _ | .prepared own _ =>
    s.calls[own.call]? = some own.data ∧ (s.slots (.send own.slot)).Holds own.slot own.data

def Ring.Carries (s : Ring ι) (op : Sending) : Prop :=
  ∃ data, s.calls[op.call]? = some data ∧ (s.slots (.send op.slot)).Holds op.slot data ∧
    op.Reads data

def Ring.Sent (s : Ring ι) (d : Datagram) : Prop :=
  d.name = some .remote ∧ s.calls[d.call]? = some d.bytes

theorem Slot.memcpy_carries {slot : Slot} {data : Bytes} (h : data.length ≤ bufferSize) :
    (slot.memcpy data).Carries data where
  fits := h
  buf _ hk := dif_pos hk

theorem Slot.Carries.header {slot : Slot} {data : Bytes} (h : slot.Carries data)
    (p : Fin numSendBuffers) :
    (slot.header (.send p) data.length .remote).Holds p data where
  fits := h.fits
  buf := h.buf
  iov := rfl
  msg := rfl

section Kernel

variable {s : Ring ι} {op op' : Sending}

theorem Ring.Carries.readHeader (h : s.Carries op) (hop : op.readHeader s.slots = some op') :
    s.Carries op' := by
  obtain ⟨data, hcall, hholds, hreads⟩ := h
  rw [Sending.readHeader, hholds.msg] at hop
  split at hop
  · cases hop
  · next hheader =>
    simp only [Option.bind_some, hholds.iov, Option.map_some, Option.some.injEq] at hop
    subst hop
    rw [Option.not_isSome_iff_eq_none] at hheader
    rw [Sending.Reads, hheader] at hreads
    exact ⟨data, hcall, hholds, rfl, rfl, hreads ▸ List.nil_prefix⟩

theorem Ring.Carries.readByte (h : s.Carries op) (hop : op.readByte s.slots = some op') :
    s.Carries op' := by
  obtain ⟨data, hcall, hholds, hreads⟩ := h
  rw [Sending.readByte] at hop
  rw [Sending.Reads] at hreads
  cases hheader : op.header with
  | none => simp [hheader] at hop
  | some header =>
    obtain ⟨iov, name⟩ := header
    simp only [hheader] at hreads
    obtain ⟨rfl, rfl, hprefix⟩ := hreads
    simp only [hheader, Option.bind_some] at hop
    split at hop
    · next hlt =>
      obtain rfl := Option.some.inj hop
      refine ⟨data, hcall, hholds, ?_⟩
      rw [Sending.Reads]
      simp only
      rw [hholds.buf ⟨op.read.length, hlt.2⟩ hlt.1]
      exact ⟨trivial, trivial, List.concat_get_prefix hprefix hlt.1⟩
    · cases hop

theorem Ring.Carries.datagram {d : Datagram} (h : s.Carries op) (hop : op.datagram = some d) :
    s.Sent d := by
  obtain ⟨data, hcall, hholds, hreads⟩ := h
  rw [Sending.datagram] at hop
  rw [Sending.Reads] at hreads
  cases hheader : op.header with
  | none => simp [hheader] at hop
  | some header =>
    obtain ⟨iov, name⟩ := header
    simp only [hheader] at hreads
    obtain ⟨rfl, rfl, hprefix⟩ := hreads
    simp only [hheader, Option.bind_some] at hop
    split at hop
    · next hall =>
      obtain rfl := Option.some.inj hop
      refine ⟨rfl, ?_⟩
      rw [hcall, hprefix.eq_of_length hall.1]
    · cases hop

end Kernel

section Invariant

variable {s t : Ring ι}

def Ring.CallsKept (s t : Ring ι) : Prop :=
  ∀ (call : Nat) (data : Bytes), s.calls[call]? = some data → t.calls[call]? = some data

theorem Ring.WriterInv.congr {pc : WritePc} (h : s.WriterInv pc) (hcalls : s.CallsKept t)
    (hslot : ∀ own, pc.holding = some own →
      t.slots (.send own.slot) = s.slots (.send own.slot)) : t.WriterInv pc := by
  cases pc with
  | idle | queued => trivial
  | acquired own => exact ⟨hcalls _ _ h.1, h.2⟩
  | copied own => exact ⟨hcalls _ _ h.1, hslot own rfl ▸ h.2⟩
  | filled own | reserved own | prepared own => exact ⟨hcalls _ _ h.1, hslot own rfl ▸ h.2⟩

theorem Ring.Carries.congr {op : Sending} (h : s.Carries op) (hcalls : s.CallsKept t)
    (hslot : t.slots (.send op.slot) = s.slots (.send op.slot)) : t.Carries op := by
  obtain ⟨data, hcall, hholds, hreads⟩ := h
  exact ⟨data, hcalls _ _ hcall, hslot ▸ hholds, hreads⟩

variable [Fintype ι]

/-- What a thread prepares, and what is outstanding, holds the bytes of its call. -/
structure Ring.Inv (s : Ring ι) : Prop where
  writers : ∀ i, s.WriterInv (s.writers i)
  queued : ∀ sqe ∈ s.queued, ∀ op ∈ sqe.sending, s.Carries op
  sending : ∀ op ∈ s.sending, s.Carries op
  wire : ∀ d ∈ s.wire, s.Sent d

theorem Sqe.sending_request {sqe : Sqe} {op : Sending} (h : op ∈ sqe.sending) :
    sqe.request = .sendmsg op.slot op.call := by
  obtain ⟨request, data⟩ := sqe
  cases request with
  | sendmsg slot call =>
    obtain rfl := Option.some.inj h
    rfl
  | nop | recvmsg => cases h

/-- A step that changes no slot with a send outstanding leaves all as it is. -/
theorem Ring.Inv.frame (h : s.Inv) (hcalls : s.CallsKept t)
    (hslots : ∀ p, s.Outstanding p → t.slots (.send p) = s.slots (.send p))
    (hwriters : ∀ i, t.WriterInv (t.writers i)) (hqueued : ∀ sqe ∈ t.queued, sqe ∈ s.queued)
    (hsending : ∀ op ∈ t.sending, s.Outstanding op.slot ∧ s.Carries op)
    (hwire : ∀ d ∈ t.wire, s.Sent d) : t.Inv where
  writers := hwriters
  queued sqe hmem op hop := by
    have hold := hqueued sqe hmem
    refine (h.queued sqe hold op hop).congr hcalls (hslots op.slot ⟨op.call, .inl ⟨sqe, hold, ?_⟩⟩)
    exact Sqe.sending_request hop
  sending op hmem := (hsending op hmem).2.congr hcalls (hslots op.slot (hsending op hmem).1)
  wire d hmem := ⟨(hwire d hmem).1, hcalls _ _ (hwire d hmem).2⟩

theorem Ring.Inv.outstanding (h : s.Inv) :
    ∀ op ∈ s.sending, s.Outstanding op.slot ∧ s.Carries op :=
  fun op hmem => ⟨⟨op.call, .inr ⟨op, hmem, rfl, rfl⟩⟩, h.sending op hmem⟩

/-- Steps of the kernel and of the completion loop leave the calls, the writers and the send
slots as they are. -/
theorem Ring.Inv.background (h : s.Inv) (hwriters : t.writers = s.writers)
    (hcalls : t.calls = s.calls) (hslots : ∀ p, t.slots (.send p) = s.slots (.send p))
    (hqueued : ∀ sqe ∈ t.queued, sqe ∈ s.queued)
    (hsending : ∀ op ∈ t.sending, s.Outstanding op.slot ∧ s.Carries op)
    (hwire : ∀ d ∈ t.wire, s.Sent d) : t.Inv := by
  have hkept : s.CallsKept t := fun _ _ hcall => hcalls ▸ hcall
  refine h.frame hkept (fun p _ => hslots p) (fun i => ?_) hqueued hsending hwire
  rw [hwriters]
  exact (h.writers i).congr hkept fun own _ => hslots own.slot

theorem Ring.Inv.taken (h : s.Inv) {n : Nat} (hqueued : s.queued = ↑(s.sq.taken n) + t.queued) :
    (∀ sqe ∈ t.queued, sqe ∈ s.queued) ∧
      ∀ op ∈ (s.submit n).sending, s.Outstanding op.slot ∧ s.Carries op := by
  refine ⟨fun sqe hmem => ?_, fun op hmem => ?_⟩
  · rw [hqueued]
    exact Multiset.mem_add.mpr (.inr hmem)
  · rcases List.mem_append.mp hmem with hmem | hmem
    · exact h.outstanding op hmem
    · obtain ⟨sqe, hsqe, hop⟩ := List.mem_filterMap.mp hmem
      have hold : sqe ∈ s.queued := by
        rw [hqueued]
        exact Multiset.mem_add.mpr (.inl hsqe)
      exact ⟨⟨op.call, .inl ⟨sqe, hold, Sqe.sending_request hop⟩⟩, h.queued sqe hold op hop⟩

theorem Ring.Inv.progress (h : s.Inv) {k : Nat} {op op' : Sending} (hk : s.sending[k]? = some op)
    (hslot : op'.slot = op.slot) (hcarries : s.Carries op') :
    ∀ op'' ∈ s.sending.set k op', s.Outstanding op''.slot ∧ s.Carries op'' := by
  intro op'' hmem
  rcases List.mem_or_eq_of_mem_set hmem with hmem | rfl
  · exact h.outstanding op'' hmem
  · rw [hslot]
    exact ⟨(h.outstanding op (List.mem_of_getElem? hk)).1, hcarries⟩

theorem Ring.Inv.opened (entries : Nat) (next : UInt32) (ready failed : Bool) :
    Ring.Inv { Ring.opened entries next with ready, failed : Ring ι } where
  writers _ := trivial
  queued sqe hmem := by
    rw [(Ring.opened_tidy entries next ready failed).2] at hmem
    exact absurd hmem (Multiset.notMem_zero _)
  sending op hmem := absurd hmem List.not_mem_nil
  wire d hmem := absurd hmem List.not_mem_nil

theorem Ring.Laps.opened (entries : Nat) (next : UInt32) (ready failed : Bool) :
    Ring.Laps next { Ring.opened entries next with ready, failed : Ring ι } := by
  obtain ⟨htidy, hqueued⟩ := Ring.opened_tidy (ι := ι) entries next ready failed
  have hnone : ∀ p m,
      ¬ Ring.Outgoing { Ring.opened entries next with ready, failed : Ring ι } p m := by
    rintro p m (⟨sqe, hmem, _⟩ | ⟨op, hmem, _⟩)
    · rw [hqueued] at hmem
      exact absurd hmem (Multiset.notMem_zero _)
    · exact absurd hmem List.not_mem_nil
  constructor
  case tidy => exact htidy
  case next => exact (UInt32.add_zero next).symm
  case once => intro i j p q m hi; cases hi
  case left => intro i p q m hi; cases hi
  case recent =>
    rintro p m (⟨i, hi⟩ | hout)
    · cases hi
    · exact absurd hout (hnone p m)

variable [DecidableEq ι]

omit [Fintype ι] in
/-- A thread goes on with its call, or gives it up. -/
theorem Ring.WriterInv.setWriter (h : ∀ j, s.WriterInv (s.writers j)) {i : ι} {pc : WritePc}
    (hpc : s.WriterInv pc) : ∀ j, s.WriterInv ((s.setWriter i pc).writers j) := by
  intro j
  by_cases hj : j = i
  · rw [hj, Ring.setWriter_self]
    exact hpc
  · rw [Ring.setWriter_of_ne hj]
    exact h j

/-- A thread fills its slot, which no other thread has and from which nothing is outstanding. -/
theorem Ring.Inv.fill {first : UInt32} (h : s.Inv) (hlaps : s.Laps first) {i : ι} {own : Holding}
    {pc : WritePc} {slot : Slot} (hi : (s.writers i).holding = some own)
    (hinv : (s.setSlot (.send own.slot) slot).WriterInv pc)
    (hqueued : ((s.setSlot (.send own.slot) slot).setWriter i pc).queued = s.queued) :
    ((s.setSlot (.send own.slot) slot).setWriter i pc).Inv := by
  have hheld : s.held i = some (own.slot, own.call) := by
    rw [Ring.held, hi]
    rfl
  have hslots : ∀ p, p ≠ own.slot →
      (s.setSlot (.send own.slot) slot).slots (.send p) = s.slots (.send p) :=
    fun p hp => Ring.setSlot_of_ne fun heq => hp (SlotId.send.inj heq)
  refine h.frame (fun _ _ => id) (fun p hp => ?_) (fun j => ?_) (fun sqe hmem => hqueued ▸ hmem)
    h.outstanding h.wire
  · refine hslots p fun heq => ?_
    rw [heq] at hp
    exact hlaps.held hheld hp
  · by_cases hj : j = i
    · rw [hj, Ring.setWriter_self]
      exact hinv
    · rw [Ring.setWriter_of_ne hj]
      refine (h.writers j).congr (fun _ _ => id) fun own' hown' => hslots _ fun heq => hj ?_
      have hheld' : s.held j = some (own.slot, own'.call) := by
        rw [Ring.held]
        change (s.writers j).holding = some own' at hown'
        rw [hown', Option.map_some, heq]
      exact hlaps.apart hheld' hheld

theorem Ring.Inv.step {a : Action ι} {first : UInt32} (h : s.Inv) (hlaps : s.Laps first)
    (hg : s.exclusive a) (hs : s.Step a t) : t.Inv := by
  have hqueues := (hlaps.tidy.step hg hs).2
  -- a thread that leaves the slots alone
  have writer : ∀ {t : Ring ι} {i : ι} {pc : WritePc}, t.writers = (s.setWriter i pc).writers →
      t.calls = s.calls → t.slots = s.slots → t.wire = s.wire →
      (∀ sqe ∈ t.queued, sqe ∈ s.queued) →
      (∀ op ∈ t.sending, s.Outstanding op.slot ∧ s.Carries op) → s.WriterInv pc → t.Inv := by
    intro t i pc hwriters hcalls hslots hwire hqueued hsending hpc
    have hkept : s.CallsKept t := fun _ _ hcall => hcalls ▸ hcall
    refine h.frame hkept (fun p _ => by rw [hslots]) (fun j => ?_) hqueued hsending (hwire ▸ h.wire)
    rw [hwriters]
    exact (Ring.WriterInv.setWriter h.writers hpc j).congr hkept fun own _ => by rw [hslots]
  have same : ∀ {t : Ring ι}, t.queued = s.queued → ∀ sqe ∈ t.queued, sqe ∈ s.queued :=
    fun hqueued sqe hmem => hqueued ▸ hmem
  cases hs with
  | @acquire i data hi haccepts =>
    have hkept : ∀ (call : Nat) (data' : Bytes), s.calls[call]? = some data' →
        (s.calls ++ [data])[call]? = some data' := by
      intro call data' hcall
      rw [List.getElem?_append_left (List.getElem?_eq_some_iff.mp hcall).1, hcall]
    refine h.frame hkept (fun _ _ => rfl) (fun j => ?_) (same hqueues) h.outstanding h.wire
    by_cases hj : j = i
    · subst hj
      dsimp only
      rw [Ring.setWriter_self]
      exact ⟨List.getElem?_concat_length, haccepts.2.2⟩
    · dsimp only
      rw [Ring.setWriter_of_ne hj]
      exact (h.writers j).congr hkept fun _ _ => rfl
  | refuse => exact h
  | @memcpy i own hi =>
    have hinv : s.WriterInv (.acquired own) := hi ▸ h.writers i
    refine h.fill hlaps (by rw [hi]; rfl) ⟨hinv.1, ?_⟩ hqueues
    rw [Ring.setSlot_self]
    exact Slot.memcpy_carries hinv.2
  | @header i own hi =>
    have hinv : s.WriterInv (.copied own) := hi ▸ h.writers i
    refine h.fill hlaps (by rw [hi]; rfl) ⟨hinv.1, ?_⟩ hqueues
    rw [Ring.setSlot_self]
    exact hinv.2.header own.slot
  | @getSqe i own k sq hi =>
    have hinv : s.WriterInv (.reserved own k) := by
      have hfilled := h.writers i
      rwa [hi] at hfilled
    exact writer rfl rfl rfl rfl (same hqueues) h.outstanding hinv
  | dropSend => exact writer rfl rfl rfl rfl (same hqueues) h.outstanding trivial
  | @prepSendmsg i own k hi =>
    have hinv : s.WriterInv (.prepared own k) := by
      have hreserved := h.writers i
      rwa [hi] at hreserved
    exact writer rfl rfl rfl rfl (same hqueues) h.outstanding hinv
  | @setData i own k hi =>
    -- the send comes into the queue with the bytes of its call
    obtain ⟨own', k', hi', hqueued⟩ := hqueues
    rw [hi] at hi'
    cases hi'
    have hinv : s.WriterInv (.prepared own k) := hi ▸ h.writers i
    have hsend : s.Carries { slot := own.slot, call := own.call, data := some (.send own.slot) } :=
      ⟨own.data, hinv.1, hinv.2, rfl⟩
    constructor
    case writers =>
      intro j
      have hidle : s.WriterInv .queued := trivial
      exact (Ring.WriterInv.setWriter h.writers hidle j).congr (fun _ _ => id) fun _ _ => rfl
    case queued =>
      intro sqe hmem op hop
      rw [hqueued, Multiset.mem_cons] at hmem
      rcases hmem with rfl | hmem
      · obtain rfl := Option.some.inj hop
        exact hsend
      · exact h.queued sqe hmem op hop
    case sending => exact h.sending
    case wire => exact h.wire
  | @submit i n hi =>
    obtain ⟨hqueued, hsending⟩ := h.taken hqueues
    exact writer rfl rfl rfl rfl hqueued hsending trivial
  | readHeader hk hop =>
    have hcarries := (h.sending _ (List.mem_of_getElem? hk)).readHeader hop
    obtain ⟨header, rfl⟩ := Sending.readHeader_eq hop
    exact h.background rfl rfl (fun _ => rfl) (same hqueues) (h.progress hk rfl hcarries) h.wire
  | readByte hk hop =>
    have hcarries := (h.sending _ (List.mem_of_getElem? hk)).readByte hop
    obtain ⟨read, rfl⟩ := Sending.readByte_eq hop
    exact h.background rfl rfl (fun _ => rfl) (same hqueues) (h.progress hk rfl hcarries) h.wire
  | @send k op d hk hop =>
    have hcarries := h.sending _ (List.mem_of_getElem? hk)
    have hsent : s.Carries { op with sent := true } := hcarries
    refine h.background rfl rfl (fun _ => rfl) (same hqueues) (h.progress hk rfl hsent)
      fun d' hmem => ?_
    rcases List.mem_append.mp hmem with hmem | hmem
    · exact h.wire d' hmem
    · obtain rfl := List.mem_singleton.mp hmem
      exact hcarries.datagram hop
  | complete =>
    exact h.background rfl rfl (fun _ => rfl) (same hqueues)
      (fun op hmem => h.outstanding op (List.mem_of_mem_eraseIdx hmem)) h.wire
  | receive =>
    exact h.background rfl rfl (Ring.receive_slots s _ _ _) (same hqueues) h.outstanding h.wire
  | failReceive | arm | armNothing | prepRecvmsg =>
    exact h.background rfl rfl (fun _ => rfl) (same hqueues) h.outstanding h.wire
  | @seen cqe =>
    rcases cqe with ⟨_ | ⟨_ | _⟩, res⟩ <;>
      exact h.background rfl rfl (fun _ => rfl) (same hqueues) h.outstanding h.wire
  | @armHeader i =>
    have hslots := s.setSlot_recv i (armed (s.slots (.recv i)) i)
    exact h.background rfl rfl hslots (same hqueues) h.outstanding h.wire
  | armSetData =>
    obtain ⟨slot, k, _, hqueued⟩ := hqueues
    constructor
    case writers => exact fun j => (h.writers j).congr (fun _ _ => id) fun _ _ => rfl
    case queued =>
      intro sqe hmem op hop
      rw [hqueued, Multiset.mem_cons] at hmem
      rcases hmem with rfl | hmem
      · cases hop
      · exact h.queued sqe hmem op hop
    case sending => exact h.sending
    case wire => exact h.wire
  | loopSubmit =>
    obtain ⟨hqueued, hsending⟩ := h.taken hqueues
    exact h.background rfl rfl (fun _ => rfl) hqueued hsending h.wire

omit [Fintype ι] in
/-- A step writes to no send slot but that of a thread. -/
theorem Ring.Step.slots {a : Action ι} (hs : s.Step a t) :
    (∀ p, t.slots (.send p) = s.slots (.send p)) ∨
      ∃ i own, (s.writers i).holding = some own ∧
        ∀ p, p ≠ own.slot → t.slots (.send p) = s.slots (.send p) := by
  cases hs with
  | @memcpy i own hi | @header i own hi =>
    exact .inr ⟨i, own, by rw [hi]; rfl, fun p hp =>
      Ring.setSlot_of_ne fun heq => hp (SlotId.send.inj heq)⟩
  | receive => exact .inl (Ring.receive_slots s _ _ _)
  | @armHeader i => exact .inl (s.setSlot_recv i (armed (s.slots (.recv i)) i))
  | @seen cqe =>
    rcases cqe with ⟨_ | ⟨_ | _⟩, res⟩ <;> exact .inl fun _ => rfl
  | acquire | refuse | getSqe | dropSend | prepSendmsg | setData | submit | readHeader | readByte
  | send | complete | failReceive | arm | armNothing | prepRecvmsg | armSetData | loopSubmit =>
    exact .inl fun _ => rfl

theorem Ring.Laps.outstanding_kept {a : Action ι} {first : UInt32} {p : Fin numSendBuffers}
    (hlaps : s.Laps first) (hn : s.next a = some t) (hp : s.Outstanding p) :
    t.slots (.send p) = s.slots (.send p) := by
  rcases (Ring.next_step hn).slots with hslots | ⟨i, own, hown, hslots⟩
  · exact hslots p
  · refine hslots p fun heq => ?_
    rw [heq] at hp
    exact hlaps.held (i := i) (m := own.call) (by rw [Ring.held, hown]; rfl) hp

end Invariant

/-- Where the call 64 before has returned and its send has completed whenever a call is accepted,
and no thread submits while another is between `io_uring_get_sqe` and `io_uring_sqe_set_data`, no
step changes a slot with a send outstanding, and every datagram that is sent carries the bytes of
its call, in whatever order the sends are read and completed. -/
theorem outstanding_sends_kept [Fintype ι] [DecidableEq ι] {s : Ring ι}
    (h : (Ring.system ι).Reachable Ring.paced s) :
    (∀ a t p, s.next a = some t → s.Outstanding p →
      t.slots (.send p) = s.slots (.send p)) ∧
    ∀ d ∈ s.wire, d.name = some .remote ∧ s.calls[d.call]? = some d.bytes := by
  obtain ⟨first, hlaps, hinv⟩ : ∃ first, s.Laps first ∧ s.Inv := by
    refine h.invariant (P := fun s => ∃ first, s.Laps first ∧ s.Inv) ?_ ?_
    · rintro _ ⟨entries, next, ready, failed, _, rfl⟩
      exact ⟨next, .opened entries next ready failed, .opened entries next ready failed⟩
    · rintro s a t ⟨first, hlaps, hinv⟩ hg hn
      have hstep := Ring.next_step hn
      exact ⟨first, hlaps.step hg hstep, hinv.step hlaps hg.1 hstep⟩
  exact ⟨fun a t p hn hp => hlaps.outstanding_kept hn hp, hinv.wire⟩

def wholeWrite (data : Bytes) : List (Action Unit) :=
  [.acquire () data, .memcpy (), .header (), .getSqe (), .prepSendmsg (), .setData (), .submit () 1]

/-- The steps of the kernel that sends one byte. -/
def kernelSend (k : Nat) : List (Action Unit) := [.readHeader k, .readByte k, .send k]

def lapRun : List (Action Unit) :=
  wholeWrite [1] ++ wholeWrite [2] ++ kernelSend 1 ++ [.complete 1 1] ++ kernelSend 0 ++
    [.complete 0 1] ++ (List.replicate 62 (wholeWrite [3])).flatten ++ wholeWrite [4] ++
    kernelSend 62

/-- Two sends are taken up and completed in the other order, and 62 more wait when the slot of the
first comes round. -/
theorem outstanding_sends_kept_lap : ∃ s : Ring Unit,
    (Ring.system Unit).run Ring.paced (Ring.opened 256 0) lapRun = some s ∧
    s.wire.map (·.bytes) = [[2], [1], [4]] ∧
    ∀ d ∈ s.wire, d.name = some .remote ∧ s.calls[d.call]? = some d.bytes := by
  have hwire : ((Ring.system Unit).run Ring.paced (Ring.opened 256 0) lapRun).map
      (·.wire.map (·.bytes)) = some [[2], [1], [4]] := by decide +kernel
  obtain ⟨s, hrun, hwire⟩ := Option.map_eq_some_iff.mp hwire
  have hstart : (Ring.system Unit).Reachable Ring.paced (Ring.opened 256 0) :=
    .start ⟨256, 0, true, false, by decide, rfl⟩
  exact ⟨s, hrun, hwire, (outstanding_sends_kept (hstart.run hrun)).2⟩

/-- Nothing keeps a call from taking a slot whose send has not been completed: the first of
65 sends carries the bytes of the last, with no thread in the way of another. -/
theorem overrun_sent : ∃ s : Ring Unit, (Ring.system Unit).Reachable Ring.exclusive s ∧
    s.wire = [⟨some .remote, [2], 0⟩] ∧ s.calls[0]? = some [1] := by
  have hsent : ((Ring.system Unit).run Ring.exclusive (Ring.opened 256 0) (wholeWrite [1] ++
      (List.replicate 64 (wholeWrite [2])).flatten ++ kernelSend 0)).map
        (fun s => (s.wire, s.calls[0]?)) = some ([⟨some .remote, [2], 0⟩], some [1]) := by
    decide +kernel
  obtain ⟨s, hrun, hs⟩ := Option.map_eq_some_iff.mp hsent
  have hstart : (Ring.system Unit).Reachable Ring.exclusive (Ring.opened 256 0) :=
    .start ⟨256, 0, true, false, by decide, rfl⟩
  exact ⟨s, hstart.run hrun, Prod.mk.inj hs⟩

theorem overrun_corrupts : ¬ ∀ s : Ring Unit, (Ring.system Unit).Reachable anyStep s →
    (∀ a t p, s.next a = some t → s.Outstanding p →
      t.slots (.send p) = s.slots (.send p)) ∧
    ∀ d ∈ s.wire, d.name = some .remote ∧ s.calls[d.call]? = some d.bytes := by
  intro h
  obtain ⟨s, hs, hwire, hcall⟩ := overrun_sent
  obtain ⟨_, hbytes⟩ := (h s (hs.mono fun _ _ _ => trivial)).2 ⟨some .remote, [2], 0⟩
    (by simp [hwire])
  rw [hcall] at hbytes
  exact absurd hbytes (by decide)

end SensorForge.IoUring
