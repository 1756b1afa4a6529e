import SensorForge.TcpResync

/-! What the reassembler's fields hold and how much it emits, whatever bytes it is fed. -/

namespace SensorForge.Transport

def TcpReassembler.Call.bytes : TcpReassembler.Call → Bytes
  | .feed data => data
  | .reset => []

def bytesFed (calls : List TcpReassembler.Call) : Nat :=
  (calls.flatMap TcpReassembler.Call.bytes).length

/-- `emitted` are the arguments of the callback. In state 2 the next byte goes to `sizeBytes`
at `sizeIdx`. -/
structure TcpReassembler.Bounded (r : TcpReassembler) (maxPayload : UInt32) (fed : Nat) : Prop where
  state : r.state ∈ [0, 1, 2, 3]
  index : r.sizeIdx.toNat < 4 ∧ r.sizeBytes.length = 4
  collecting : r.state = 3 → r.payload.length < r.payloadSize.toNat ∧ 0 < r.payloadSize ∧
    r.payloadSize ≤ maxPayload
  emitted : ∀ p ∈ r.emitted, p.length ≤ maxPayload.toNat
  counted : r.payloadsEmitted = r.emitted.length.toUInt64
  total : (r.emitted.map fun p => p.length + 6).sum ≤ fed

/-- How many bytes of an unfinished frame have been read. -/
def TcpReassembler.begun (r : TcpReassembler) : Nat :=
  if r.state = 1 then 1
  else if r.state = 2 then 2 + r.sizeIdx.toNat
  else if r.state = 3 then 6 + r.payload.length
  else 0

structure TcpReassembler.Inv (r : TcpReassembler) (maxPayload : UInt32) (fed : Nat) : Prop where
  max : r.maxPayload = maxPayload
  state : r.state ∈ [0, 1, 2, 3]
  index : r.sizeIdx.toNat < 4
  sizeBytes : r.sizeBytes.length = 4
  short : r.state = 3 → r.payload.length < r.payloadSize.toNat
  size : r.state = 3 → r.payloadSize ≤ maxPayload
  emitted : ∀ p ∈ r.emitted, p.length ≤ maxPayload.toNat
  counted : r.payloadsEmitted = r.emitted.length.toUInt64
  total : (r.emitted.map fun p => p.length + 6).sum + r.begun ≤ fed

/-- What a byte can do. -/
inductive TcpReassembler.Step (r : TcpReassembler) (b : UInt8) : TcpReassembler → Prop
  | skip : r.state = 0 → TcpReassembler.Step r b r
  | mark : r.state = 0 ∨ r.state = 1 → TcpReassembler.Step r b { r with state := 1 }
  | unmark : r.state = 1 →
      TcpReassembler.Step r b { r with state := 0, resyncs := r.resyncs + 1 }
  | start : r.state = 1 → TcpReassembler.Step r b { r with state := 2, sizeIdx := 0 }
  | put : r.state = 2 → (r.putSizeByte b).sizeIdx ≠ 4 → TcpReassembler.Step r b (r.putSizeByte b)
  | ended : r.state = 2 → (r.putSizeByte b).sizeIdx = 4 →
      TcpReassembler.Step r b (r.putSizeByte b).endSize
  | collect : r.state = 3 → (r.payload ++ [b]).length ≠ r.payloadSize.toNat →
      TcpReassembler.Step r b { r with payload := r.payload ++ [b] }
  | complete : r.state = 3 → (r.payload ++ [b]).length = r.payloadSize.toNat →
      TcpReassembler.Step r b { r.emit (r.payload ++ [b]) with payload := [], state := 0 }

variable {r : TcpReassembler} {maxPayload : UInt32} {fed : Nat}

theorem begun_hunt (h : r.state = 0) : r.begun = 0 := by simp [TcpReassembler.begun, h]

theorem begun_marked (h : r.state = 1) : r.begun = 1 := by simp [TcpReassembler.begun, h]

theorem begun_size (h : r.state = 2) : r.begun = 2 + r.sizeIdx.toNat := by
  simp [TcpReassembler.begun, h]

theorem begun_payload (h : r.state = 3) : r.begun = 6 + r.payload.length := by
  simp [TcpReassembler.begun, h]

theorem feedByte_step (h : r.state ∈ [0, 1, 2, 3]) (b : UInt8) : r.Step b (r.feedByte b) := by
  simp only [List.mem_cons, List.not_mem_nil, or_false] at h
  rcases h with h | h | h | h
  · simp only [TcpReassembler.feedByte, h]
    split
    · exact .mark (.inl h)
    · exact .skip h
  · simp only [TcpReassembler.feedByte, h]
    split
    · exact .start h
    · split
      · exact .mark (.inr h)
      · exact .unmark h
  · simp only [TcpReassembler.feedByte, h]
    split
    · next hfour => exact .ended h hfour
    · next hfour => exact .put h hfour
  · simp only [TcpReassembler.feedByte, h]
    split
    · next hfull => exact .complete h hfull
    · next hfull => simpa only [h] using TcpReassembler.Step.collect h hfull

theorem TcpReassembler.Inv.bounded (h : r.Inv maxPayload fed) : r.Bounded maxPayload fed where
  state := h.state
  index := ⟨h.index, h.sizeBytes⟩
  collecting hstate := by
    have hshort := h.short hstate
    refine ⟨hshort, ?_, h.size hstate⟩
    rw [UInt32.lt_iff_toNat_lt, UInt32.toNat_zero]
    omega
  emitted := h.emitted
  counted := h.counted
  total := (Nat.le_add_right _ _).trans h.total

theorem TcpReassembler.Inv.mono (h : r.Inv maxPayload fed) : r.Inv maxPayload (fed + 1) :=
  { h with total := h.total.trans (Nat.le_succ fed) }

/-- Back to the first state, with nothing emitted. -/
theorem TcpReassembler.Inv.restart (h : r.Inv maxPayload fed) {r' : TcpReassembler}
    (hmax : r'.maxPayload = r.maxPayload) (hstate : r'.state = 0) (hindex : r'.sizeIdx.toNat < 4)
    (hsizes : r'.sizeBytes.length = 4) (hemitted : r'.emitted = r.emitted)
    (hcounted : r'.payloadsEmitted = r.payloadsEmitted) : r'.Inv maxPayload fed where
  max := hmax.trans h.max
  state := by simp [hstate]
  index := hindex
  sizeBytes := hsizes
  short := by simp [hstate]
  size := by simp [hstate]
  emitted := hemitted ▸ h.emitted
  counted := by rw [hcounted, hemitted, h.counted]
  total := by
    rw [hemitted, begun_hunt hstate]
    exact (Nat.le_add_right _ _).trans h.total

/-- A frame is complete. -/
theorem TcpReassembler.Inv.emits (payload : Bytes)
    (hmax : r.maxPayload = maxPayload) (hindex : r.sizeIdx.toNat < 4)
    (hsizes : r.sizeBytes.length = 4) (hemitted : ∀ p ∈ r.emitted, p.length ≤ maxPayload.toNat)
    (hcounted : r.payloadsEmitted = r.emitted.length.toUInt64)
    (hlength : payload.length ≤ maxPayload.toNat)
    (htotal : (r.emitted.map fun p => p.length + 6).sum + (payload.length + 6) ≤ fed)
    (rest : Bytes) :
    ({ r.emit payload with payload := rest, state := 0 } : TcpReassembler).Inv maxPayload fed where
  max := hmax
  state := by simp
  index := hindex
  sizeBytes := hsizes
  short := by simp
  size := by simp
  emitted := by
    intro p hp
    rcases List.mem_append.mp hp with hp | hp
    · exact hemitted p hp
    · rw [List.mem_singleton.mp hp]
      exact hlength
  counted := by
    simp only [TcpReassembler.emit, hcounted, List.length_append, List.length_singleton]
    simp [Nat.toUInt64]
  total := by
    rw [begun_hunt rfl, Nat.add_zero]
    simpa only [TcpReassembler.emit, List.map_append, List.sum_append, List.map_singleton,
      List.sum_singleton] using htotal

/-- The last byte of a size: the frame is too long, it is empty, or its payload begins. -/
theorem TcpReassembler.Inv.endSize (h : r.Inv maxPayload fed) (hstate : r.state = 2) {b : UInt8}
    (hfour : (r.putSizeByte b).sizeIdx = 4) :
    (r.putSizeByte b).endSize.Inv maxPayload (fed + 1) := by
  obtain ⟨hlen, hidx, _⟩ := TcpReassembler.putSizeByte_got h.sizeBytes h.index b
  have hsix : (r.emitted.map fun p => p.length + 6).sum + 6 ≤ fed + 1 := by
    have hthree : r.sizeIdx.toNat = 3 := by
      rw [hfour] at hidx
      exact Nat.succ.inj hidx.symm
    have htotal := h.total
    rw [begun_size hstate, hthree] at htotal
    exact Nat.succ_le_succ htotal
  rw [TcpReassembler.endSize]
  generalize sizeOfBytes (r.putSizeByte b).sizeBytes = size
  dsimp only
  split
  · exact h.mono.restart rfl rfl four_pos hlen rfl rfl
  · next hfits =>
    split
    · exact TcpReassembler.Inv.emits
        (r := { r.putSizeByte b with sizeIdx := 0, payloadSize := size }) []
        h.max four_pos hlen h.emitted h.counted (Nat.zero_le _) hsix r.payload
    · next hne =>
      have hpos : 0 < size.toNat := Nat.pos_of_ne_zero fun hzero => hne (UInt32.toNat_inj.mp hzero)
      have hsize : size ≤ maxPayload := h.max ▸ UInt32.not_lt.mp hfits
      refine { h with
        state := by simp, index := four_pos, sizeBytes := hlen, short := fun _ => hpos
        size := fun _ => hsize, total := ?_ }
      rw [begun_payload rfl]
      exact hsix

theorem TcpReassembler.Inv.put (h : r.Inv maxPayload fed) (hstate : r.state = 2) {b : UInt8}
    (hfour : (r.putSizeByte b).sizeIdx ≠ 4) : (r.putSizeByte b).Inv maxPayload (fed + 1) := by
  obtain ⟨hlen, hidx, _⟩ := TcpReassembler.putSizeByte_got h.sizeBytes h.index b
  have hne : (r.putSizeByte b).sizeIdx.toNat ≠ 4 := fun heq => hfour (UInt8.toNat_inj.mp heq)
  have hindex := h.index
  have htotal := h.total
  refine { h with index := by omega, sizeBytes := hlen, total := ?_ }
  rw [begun_size hstate] at htotal
  rw [begun_size (r := r.putSizeByte b) hstate, hidx]
  exact Nat.succ_le_succ htotal

theorem TcpReassembler.Inv.step (h : r.Inv maxPayload fed) {b : UInt8} {r' : TcpReassembler}
    (hstep : r.Step b r') : r'.Inv maxPayload (fed + 1) := by
  have htotal := h.total
  cases hstep with
  | skip _ => exact h.mono
  | mark hstate =>
    refine { h with state := by simp, short := by simp, size := by simp, total := ?_ }
    rw [begun_marked rfl]
    exact Nat.succ_le_succ ((Nat.le_add_right _ _).trans htotal)
  | unmark hstate => exact h.mono.restart rfl rfl h.index h.sizeBytes rfl rfl
  | start hstate =>
    refine { h with
      state := by simp, index := four_pos, short := by simp, size := by simp, total := ?_ }
    rw [begun_marked hstate] at htotal
    rw [begun_size rfl]
    exact Nat.succ_le_succ htotal
  | put hstate hfour => exact h.put hstate hfour
  | ended hstate hfour => exact h.endSize hstate hfour
  | collect hstate hfull =>
    have hshort := h.short hstate
    rw [List.length_append, List.length_singleton] at hfull
    rw [begun_payload hstate] at htotal
    refine { h with short := fun _ => ?_, total := ?_ }
    · simp only [List.length_append, List.length_singleton]
      omega
    · rw [begun_payload (r := { r with payload := r.payload ++ [b] }) hstate, List.length_append]
      exact Nat.succ_le_succ htotal
  | complete hstate hfull =>
    have hsize := h.size hstate
    rw [UInt32.le_iff_toNat_le, ← hfull] at hsize
    refine TcpReassembler.Inv.emits _ h.max h.index h.sizeBytes h.emitted h.counted hsize ?_ []
    rw [begun_payload hstate] at htotal
    simp only [List.length_append, List.length_singleton]
    omega

theorem TcpReassembler.Inv.feed (h : r.Inv maxPayload fed) (data : Bytes) :
    (r.feed data).Inv maxPayload (fed + data.length) := by
  induction data generalizing r fed with
  | nil => exact h
  | cons b data ih =>
    have hh := ih (h.step (feedByte_step h.state b))
    rw [List.length_cons, Nat.add_comm data.length, ← Nat.add_assoc]
    exact hh

theorem bytesFed_append (calls : List TcpReassembler.Call) (c : TcpReassembler.Call) :
    bytesFed (calls ++ [c]) = bytesFed calls + c.bytes.length := by
  rw [bytesFed, List.flatMap_append, List.length_append, List.flatMap_singleton]
  rfl

theorem reassembler_inv (maxPayload : UInt32) :
    ({ maxPayload } : TcpReassembler).Inv maxPayload 0 where
  max := rfl
  state := List.mem_cons_self
  index := four_pos
  sizeBytes := rfl
  short := by simp
  size := by simp
  emitted := by simp
  counted := rfl
  total := by
    rw [begun_hunt rfl]
    exact le_refl _

theorem TcpReassembler.run_inv (maxPayload : UInt32) (calls : List TcpReassembler.Call) :
    (TcpReassembler.run maxPayload calls).Inv maxPayload (bytesFed calls) := by
  induction calls using List.reverseRecOn with
  | nil => exact reassembler_inv maxPayload
  | append_singleton calls c ih =>
    rw [TcpReassembler.run, List.foldl_append, bytesFed_append]
    cases c with
    | feed data => exact ih.feed data
    | reset => exact ih.restart rfl rfl four_pos ih.sizeBytes rfl rfl

/-- Whatever is fed, in whatever pieces and with whatever resets; within a call of `feed` all
is as after a call with the bytes so far. The counter is exact as long as it cannot wrap. -/
theorem reassembler_bounded (maxPayload : UInt32) (calls : List TcpReassembler.Call) :
    (TcpReassembler.run maxPayload calls).Bounded maxPayload (bytesFed calls) ∧
      (bytesFed calls < 6 * 2 ^ 64 → (TcpReassembler.run maxPayload calls).payloadsEmitted.toNat =
        (TcpReassembler.run maxPayload calls).emitted.length) := by
  have h := TcpReassembler.run_inv maxPayload calls
  refine ⟨h.bounded, fun hfew => ?_⟩
  have htotal := h.bounded.total
  have hlower : ((TcpReassembler.run maxPayload calls).emitted.map fun p => p.length + 6).length • 6 ≤
      ((TcpReassembler.run maxPayload calls).emitted.map fun p => p.length + 6).sum := by
    apply List.card_nsmul_le_sum
    intro n hn
    obtain ⟨p, _, rfl⟩ := List.mem_map.mp hn
    exact Nat.le_add_left _ _
  rw [List.length_map, smul_eq_mul] at hlower
  rw [h.counted, Nat.toUInt64_eq, UInt64.toNat_ofNat', Nat.mod_eq_of_lt (by omega)]

end SensorForge.Transport
