import SensorForge.Framing
import SensorForge.LittleEndian
import SensorForge.TransitionSystem

/-! The receive thread of the TCP interface, which pulls bytes from a queue that the
socket pushes received chunks to. A host is little-endian unless it is said to be big-endian. -/

namespace SensorForge.Transport

open ByteOrder Framing Transition

def readUint32 (bytes : Bytes) : UInt32 :=
  let b := (bytes.getD 0 0).toUInt32
  let b := (b <<< 8) ||| (bytes.getD 1 0).toUInt32
  let b := (b <<< 8) ||| (bytes.getD 2 0).toUInt32
  (b <<< 8) ||| (bytes.getD 3 0).toUInt32

inductive HostOrder where
  | little
  | big
  deriving DecidableEq

/-- What lies in the memory of a host that holds `v`. -/
def HostOrder.bytes : HostOrder → UInt32 → Bytes
  | .little, v => putU32 v
  | .big, v => (putU32 v).reverse

def HostOrder.value : HostOrder → Bytes → UInt32
  | .little, bytes => getU32 bytes
  | .big, bytes => getU32 bytes.reverse

/-- The value that lies in memory as the big-endian bytes of `hostlong`. -/
def htonl (hostlong : UInt32) (host : HostOrder := .little) : UInt32 :=
  host.value (putU32 hostlong).reverse

/-- The thread with the stream it reads. `bytes` are those that the pending `readBytes`
has taken from the queue; `pushed` and `received` are what has gone in and come out. -/
structure ReceiveThread where
  host : HostOrder := .little
  state : UInt8 := 0
  payloadSize : UInt32 := 0
  bytes : Bytes := []
  queue : Bytes := []
  pushed : Bytes := []
  received : List Bytes := []

def ReceiveThread.wanted (t : ReceiveThread) : Nat :=
  match t.state with
  | 0 => 1
  | 1 => 1
  | 2 => 4
  | 3 => t.payloadSize.toNat
  | _ => 0

def ReceiveThread.resume (t : ReceiveThread) : ReceiveThread :=
  match t.state with
  | 0 => { t with bytes := [], state := if t.bytes.getD 0 0 = 0xAB then 1 else t.state }
  | 1 =>
    let start2 := t.bytes.getD 0 0
    { t with bytes := [], state := if start2 = 0xCD then 2 else if start2 = 0xAB then 1 else 0 }
  | 2 => { t with bytes := [], payloadSize := htonl (readUint32 t.bytes) t.host, state := 3 }
  | 3 => { t with bytes := [], received := t.received ++ [t.bytes], state := 0 }
  | _ => { t with bytes := [], state := 0 }

inductive ReceiveAction where
  | pushBytes (chunk : Bytes)
  | step

/-- A step of the thread takes one byte or ends the read. It waits while the queue is
empty. The stream is not shut down. -/
def ReceiveThread.next (t : ReceiveThread) : ReceiveAction → Option ReceiveThread
  | .pushBytes chunk => some { t with queue := t.queue ++ chunk, pushed := t.pushed ++ chunk }
  | .step =>
    if t.bytes.length < t.wanted then
      match t.queue with
      | [] => none
      | b :: queue => some { t with bytes := t.bytes ++ [b], queue }
    else some t.resume

def ReceiveThread.system (host : HostOrder := .little) : System ReceiveThread ReceiveAction where
  start t := t = { host }
  next := ReceiveThread.next

def ReceiveThread.Waiting (t : ReceiveThread) : Prop := t.next .step = none

/-- What the sender puts on the wire for the size, a copy of its host representation. -/
def hostBytes (size : UInt32) (host : HostOrder := .little) : Bytes := host.bytes size

def write (data : Bytes) (host : HostOrder := .little) : Bytes :=
  let size := data.length.toUInt32
  [0xAB, 0xCD] ++ hostBytes size host ++ data.take size.toNat

def written (payloads : List Bytes) (host : HostOrder := .little) : Bytes :=
  payloads.flatMap fun data => write data host

theorem startBytes_ne : (0xAB : UInt8) ≠ 0xCD := by decide

def receiveFormat (host : HostOrder := .little) : Format where
  first := 0xAB
  second := 0xCD
  ne := startBytes_ne
  width := 4
  readSize bytes := (host.value bytes).toNat
  fits _ := true

theorem shiftLeft_or_toNat {x : UInt32} {k : Nat} (hx : x.toNat < 2 ^ k) (hk : k ≤ 24) (c : UInt8) :
    ((x <<< 8) ||| c.toUInt32).toNat = c.toNat + 256 * x.toNat := by
  have hpow : 2 ^ k ≤ 2 ^ 24 := Nat.pow_le_pow_right (by omega) hk
  have hshift : (x <<< 8).toNat = x.toNat <<< 8 := by
    rw [UInt32.toNat_shiftLeft]
    change x.toNat <<< 8 % 2 ^ 32 = _
    rw [Nat.shiftLeft_eq]
    omega
  rw [UInt32.toNat_or, hshift, UInt8.toNat_toUInt32, Nat.or_comm]
  exact or_shiftLeft_eq_add c.toNat_lt _

theorem readUint32_toNat (b0 b1 b2 b3 : UInt8) :
    (readUint32 [b0, b1, b2, b3]).toNat = ofLE [b3, b2, b1, b0] := by
  have h0 := b0.toNat_lt
  have h1 := b1.toNat_lt
  have h2 := b2.toNat_lt
  have e0 : b0.toUInt32.toNat = b0.toNat := UInt8.toNat_toUInt32 b0
  have e1 := shiftLeft_or_toNat (x := b0.toUInt32) (k := 8) (by omega) (by omega) b1
  have e2 := shiftLeft_or_toNat (x := (b0.toUInt32 <<< 8) ||| b1.toUInt32) (k := 16)
    (by omega) (by omega) b2
  have e3 := shiftLeft_or_toNat
    (x := (((b0.toUInt32 <<< 8) ||| b1.toUInt32) <<< 8) ||| b2.toUInt32) (k := 24)
    (by omega) (by omega) b3
  simp only [readUint32, List.getD_cons_zero, List.getD_cons_succ]
  simp only [ofLE]
  omega

theorem htonl_readUint32 {bytes : Bytes} (h : bytes.length = 4) (host : HostOrder) :
    htonl (readUint32 bytes) host = host.value bytes := by
  match bytes, h with
  | [b0, b1, b2, b3], _ =>
    have hput : putU32 (readUint32 [b0, b1, b2, b3]) = [b3, b2, b1, b0] := by
      rw [putU32_eq, readUint32_toNat]
      exact toLE_ofLE [b3, b2, b1, b0]
    rw [htonl, hput]
    rfl

theorem HostOrder.value_bytes (host : HostOrder) (v : UInt32) : host.value (host.bytes v) = v := by
  have hget : getU32 (putU32 v) = v := by
    have h := getU32_putU32 v []
    rwa [List.append_nil] at h
  cases host with
  | little => exact hget
  | big =>
    rw [HostOrder.value, HostOrder.bytes, List.reverse_reverse]
    exact hget

def ReceiveThread.phase (t : ReceiveThread) : Phase :=
  match t.state with
  | 0 => .hunt
  | 1 => .marked
  | 2 => .size []
  | _ => .payload t.payloadSize.toNat []

structure ReceiveThread.Inv (host : HostOrder) (t : ReceiveThread) : Prop where
  order : t.host = host
  state : t.state = 0 ∨ t.state = 1 ∨ t.state = 2 ∨ t.state = 3
  bytes : t.bytes.length ≤ t.wanted
  frames : ∀ more,
    t.received ++ (receiveFormat host).pending t.phase (t.bytes ++ (t.queue ++ more)) =
      (receiveFormat host).frames (t.pushed ++ more)

theorem ReceiveThread.Inv.of_pending {host : HostOrder} {t u : ReceiveThread} (h : t.Inv host)
    (hhost : u.host = t.host)
    (hstate : u.state = 0 ∨ u.state = 1 ∨ u.state = 2 ∨ u.state = 3) (hbytes : u.bytes = [])
    (hqueue : u.queue = t.queue) (hpushed : u.pushed = t.pushed)
    (hpending : ∀ more, u.received ++ (receiveFormat host).pending u.phase more =
      t.received ++ (receiveFormat host).pending t.phase (t.bytes ++ more)) : u.Inv host := by
  refine ⟨hhost.trans h.order, hstate, by simp [hbytes], fun more => ?_⟩
  rw [hbytes, hqueue, hpushed, List.nil_append, hpending]
  exact h.frames more

theorem ReceiveThread.Inv.resume {host : HostOrder} {t : ReceiveThread} (h : t.Inv host)
    (hdone : ¬ t.bytes.length < t.wanted) : t.resume.Inv host := by
  have hlen := le_antisymm h.bytes (Nat.le_of_not_lt hdone)
  have hstate := h.state
  obtain rfl := h.order
  obtain ⟨host, state, payloadSize, bytes, queue, pushed, received⟩ := t
  simp only at hstate h ⊢
  rcases hstate with rfl | rfl | rfl | rfl
  · obtain ⟨b, rfl⟩ := List.length_eq_one_iff.mp hlen
    by_cases hb : b = 0xAB
    · subst hb
      exact h.of_pending rfl (.inr (.inl rfl)) rfl rfl rfl fun more => rfl
    · have hresume : ReceiveThread.resume ⟨host, 0, payloadSize, [b], queue, pushed, received⟩ =
          ⟨host, 0, payloadSize, [], queue, pushed, received⟩ := by
        simp [ReceiveThread.resume, hb]
      rw [hresume]
      refine h.of_pending rfl (.inl rfl) rfl rfl rfl fun more => ?_
      exact congrArg (received ++ ·) ((receiveFormat host).pending_hunt hb more).symm
  · obtain ⟨b, rfl⟩ := List.length_eq_one_iff.mp hlen
    by_cases hsecond : b = 0xCD
    · subst hsecond
      exact h.of_pending rfl (.inr (.inr (.inl rfl))) rfl rfl rfl fun more => rfl
    by_cases hfirst : b = 0xAB
    · subst hfirst
      refine h.of_pending rfl (.inr (.inl rfl)) rfl rfl rfl fun more => ?_
      exact congrArg (received ++ ·) ((receiveFormat host).pending_marked_first more).symm
    · have hresume : ReceiveThread.resume ⟨host, 1, payloadSize, [b], queue, pushed, received⟩ =
          ⟨host, 0, payloadSize, [], queue, pushed, received⟩ := by
        simp [ReceiveThread.resume, hsecond, hfirst]
      rw [hresume]
      refine h.of_pending rfl (.inl rfl) rfl rfl rfl fun more => ?_
      exact congrArg (received ++ ·)
        ((receiveFormat host).pending_marked_other hfirst hsecond more).symm
  · have hsize : ReceiveThread.resume ⟨host, 2, payloadSize, bytes, queue, pushed, received⟩ =
        ⟨host, 3, host.value bytes, [], queue, pushed, received⟩ := by
      rw [← htonl_readUint32 hlen]
      rfl
    rw [hsize]
    refine h.of_pending rfl (.inr (.inr (.inr rfl))) rfl rfl rfl fun more => ?_
    exact congrArg (received ++ ·) ((receiveFormat host).pending_size_done hlen more).symm
  · refine h.of_pending rfl (.inl rfl) rfl rfl rfl fun more => ?_
    have hpayload := (receiveFormat host).pending_payload_done hlen more
    simp only [ReceiveThread.resume, List.append_assoc]
    exact congrArg (received ++ ·) hpayload.symm

theorem ReceiveThread.Inv.next {host : HostOrder} {t u : ReceiveThread} {a : ReceiveAction}
    (h : t.Inv host) (hn : t.next a = some u) : u.Inv host := by
  cases a with
  | pushBytes chunk =>
    cases hn
    refine ⟨h.order, h.state, h.bytes, fun more => ?_⟩
    have hframes := h.frames (chunk ++ more)
    simp only [List.append_assoc]
    exact hframes
  | step =>
    by_cases hlt : t.bytes.length < t.wanted
    · simp only [ReceiveThread.next, if_pos hlt] at hn
      obtain ⟨thost, state, payloadSize, bytes, queue, pushed, received⟩ := t
      cases queue with
      | nil => cases hn
      | cons b queue =>
        cases hn
        refine ⟨h.order, h.state, ?_, fun more => ?_⟩
        · simp only [List.length_append, List.length_singleton]
          exact hlt
        · have hframes := h.frames more
          simp only [List.append_assoc]
          exact hframes
    · simp only [ReceiveThread.next, if_neg hlt, Option.some.injEq] at hn
      exact hn ▸ h.resume hlt

/-- What the decoder has seen of the current frame once the bytes taken so far are counted in. -/
def ReceiveThread.reached (t : ReceiveThread) : Phase :=
  match t.state with
  | 0 => .hunt
  | 1 => .marked
  | 2 => .size t.bytes
  | _ => .payload t.payloadSize.toNat t.bytes

theorem ReceiveThread.Inv.reached {host : HostOrder} {t : ReceiveThread} (h : t.Inv host)
    (hlt : t.bytes.length < t.wanted) : (receiveFormat host).Unfinished t.reached ∧
      ∀ more, (receiveFormat host).pending t.phase (t.bytes ++ more) =
        (receiveFormat host).pending t.reached more := by
  obtain ⟨_, hstate, _, _⟩ := h
  obtain ⟨thost, state, payloadSize, bytes, queue, pushed, received⟩ := t
  simp only at hstate
  rcases hstate with rfl | rfl | rfl | rfl
  · obtain rfl := List.length_eq_zero_iff.mp (Nat.lt_one_iff.mp hlt)
    exact ⟨trivial, fun more => rfl⟩
  · obtain rfl := List.length_eq_zero_iff.mp (Nat.lt_one_iff.mp hlt)
    exact ⟨trivial, fun more => rfl⟩
  · exact ⟨hlt, fun more => rfl⟩
  · exact ⟨hlt, fun more => rfl⟩

theorem ReceiveThread.waiting_iff {t : ReceiveThread} :
    t.Waiting ↔ t.bytes.length < t.wanted ∧ t.queue = [] := by
  by_cases hlt : t.bytes.length < t.wanted
  · cases hq : t.queue <;> simp [ReceiveThread.Waiting, ReceiveThread.next, hlt, hq]
  · simp [ReceiveThread.Waiting, ReceiveThread.next, hlt]

theorem ReceiveThread.Inv.reachable {host : HostOrder} {t : ReceiveThread}
    (h : (ReceiveThread.system host).Reachable anyStep t) : t.Inv host := by
  refine h.invariant ?_ ?_
  · rintro t rfl
    exact ⟨rfl, .inl rfl, Nat.zero_le _, fun more => rfl⟩
  · exact fun t a u ht _ hn => ht.next hn

theorem ReceiveThread.frames_waiting {host : HostOrder} {t : ReceiveThread}
    (h : (ReceiveThread.system host).Reachable anyStep t) (hw : t.Waiting) (more : Bytes) :
    t.received ++ (receiveFormat host).pending t.reached more =
      (receiveFormat host).frames (t.pushed ++ more) := by
  have hinv := ReceiveThread.Inv.reachable h
  obtain ⟨hlt, hqueue⟩ := ReceiveThread.waiting_iff.mp hw
  have hframes := hinv.frames more
  rwa [hqueue, List.nil_append, (hinv.reached hlt).2] at hframes

/-- Whatever the chunks and the schedule, when the thread waits it has delivered the
payloads of the bytes pushed so far. -/
theorem ReceiveThread.received_eq {host : HostOrder} {t : ReceiveThread}
    (h : (ReceiveThread.system host).Reachable anyStep t) (hw : t.Waiting) :
    t.received = (receiveFormat host).frames t.pushed := by
  have hinv := ReceiveThread.Inv.reachable h
  have hreached := hinv.reached (ReceiveThread.waiting_iff.mp hw).1
  have hframes := ReceiveThread.frames_waiting h hw []
  rwa [(receiveFormat host).pending_nil _ hreached.1, List.append_nil, List.append_nil] at hframes

def ReceiveThread.effort (t : ReceiveThread) : Nat :=
  3 * t.queue.length + if t.bytes.length < t.wanted then 0 else if t.state = 3 then 1 else 2

theorem ReceiveThread.resume_bytes (t : ReceiveThread) :
    t.resume.bytes = [] ∧ t.resume.queue = t.queue ∧ t.resume.pushed = t.pushed := by
  unfold ReceiveThread.resume
  split <;> exact ⟨rfl, rfl, rfl⟩

theorem ReceiveThread.resume_state (t : ReceiveThread) :
    t.resume.state = 3 ∧ t.state ≠ 3 ∨ 1 ≤ t.resume.wanted := by
  unfold ReceiveThread.resume
  split
  · next h =>
    right
    split <;> simp [ReceiveThread.wanted, h]
  · right
    simp only
    split
    · simp [ReceiveThread.wanted]
    · split <;> simp [ReceiveThread.wanted]
  · next h => exact .inl ⟨rfl, by rw [h]; decide⟩
  · exact .inr (le_refl 1)
  · exact .inr (le_refl 1)

theorem ReceiveThread.resume_effort (t : ReceiveThread) (h : ¬ t.bytes.length < t.wanted) :
    t.resume.effort < t.effort := by
  obtain ⟨hbytes, hqueue, _⟩ := t.resume_bytes
  unfold ReceiveThread.effort
  rw [if_neg h, hqueue, hbytes]
  rcases t.resume_state with ⟨hthree, hother⟩ | hwanted
  · rw [if_neg hother, if_pos hthree]
    split <;> omega
  · rw [if_pos (by rw [List.length_nil]; omega)]
    split <;> omega

theorem ReceiveThread.take_effort {t u : ReceiveThread} (h : t.bytes.length < t.wanted)
    (hqueue : u.queue.length < t.queue.length) : u.effort < t.effort := by
  have hle : u.effort ≤ 3 * u.queue.length + 2 := by
    unfold ReceiveThread.effort
    split
    · omega
    · split <;> omega
  rw [ReceiveThread.effort.eq_1 t, if_pos h]
  omega

theorem ReceiveThread.step_effort {t u : ReceiveThread} (h : t.next .step = some u) :
    u.effort < t.effort ∧ u.pushed = t.pushed := by
  by_cases hlt : t.bytes.length < t.wanted
  · cases hq : t.queue with
    | nil => simp [ReceiveThread.next, hlt, hq] at h
    | cons b queue =>
      simp only [ReceiveThread.next, if_pos hlt, hq, Option.some.injEq] at h
      subst h
      exact ⟨ReceiveThread.take_effort hlt (by simp [hq]), rfl⟩
  · simp only [ReceiveThread.next, if_neg hlt, Option.some.injEq] at h
    subst h
    exact ⟨t.resume_effort hlt, t.resume_bytes.2.2⟩

/-- Left alone, the thread comes to wait. -/
theorem ReceiveThread.steps_to_waiting (t : ReceiveThread) (host : HostOrder) :
    ∃ n u, (ReceiveThread.system host).run anyStep t (List.replicate n .step) = some u ∧
      u.Waiting ∧ u.pushed = t.pushed := by
  obtain ⟨n, hn⟩ : ∃ n, t.effort = n := ⟨_, rfl⟩
  induction n using Nat.strongRecOn generalizing t with
  | ind n ih =>
    cases hstep : t.next .step with
    | none => exact ⟨0, t, rfl, hstep, rfl⟩
    | some v =>
      have hsmaller := ReceiveThread.step_effort hstep
      obtain ⟨k, u, hrun, hw, hpushed⟩ := ih _ (hn ▸ hsmaller.1) v rfl
      refine ⟨k + 1, u, ?_, hw, hpushed.trans hsmaller.2⟩
      rw [List.replicate_succ, System.run, List.foldlM_cons]
      simp only [anyStep]
      rw [show (ReceiveThread.system host).next t .step = some v from hstep]
      exact hrun

theorem ReceiveThread.exists_waiting {host : HostOrder} {t : ReceiveThread}
    (h : (ReceiveThread.system host).Reachable anyStep t) :
    ∃ u, (ReceiveThread.system host).Reachable anyStep u ∧ u.Waiting ∧ u.pushed = t.pushed := by
  obtain ⟨n, u, hrun, hw, hpushed⟩ := t.steps_to_waiting host
  exact ⟨u, h.run hrun, hw, hpushed⟩

end SensorForge.Transport
