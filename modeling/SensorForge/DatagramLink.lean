import SensorForge.RunningMaxima
import SensorForge.SentFrames

/-! Two bridges that are linked by UDP. Datagrams may be lost, repeated, overtaken by later ones
or garbled on the way. -/

namespace SensorForge

open ByteOrder Protocol RunningMaxima Transition

/-- `send_to` fails for more than this. -/
def kMaxDatagram : Nat := 65507

/-- `arrived` has the numbers of the sent frames in the order in which they have arrived, `garbled`
counts the datagrams that do not decode. -/
structure DatagramLink where
  sender : Sender
  receiver : NetworkBridge
  published : List Publication := []
  arrived : List Nat := []
  garbled : Nat := 0

inductive DatagramAction where
  | send (manager : Subscription) (nowNs : UInt64)
  | arrive (index : Nat)
  | garble (data : Bytes)

def DatagramLink.receive (z : Zstd) (l : DatagramLink) (data : Bytes) : DatagramLink :=
  { l with
    receiver := (l.receiver.receiveData z true true data).1
    published := l.published ++ (l.receiver.receiveData z true true data).2 }

/-- The interface is always ready. -/
def DatagramLink.next (z : Zstd) (l : DatagramLink) : DatagramAction → Option DatagramLink
  | .send manager nowNs => some { l with sender := (l.sender.send z true manager nowNs).1 }
  | .arrive index =>
    match l.sender.sent[index]? with
    | none => none
    | some x =>
      if x.frame.length ≤ kMaxDatagram then
        some { l.receive z x.frame with arrived := l.arrived ++ [index] }
      else none
  | .garble data => some { l.receive z data with garbled := l.garbled + 1 }

def DatagramLink.system (z : Zstd) (ns : Bytes) : System DatagramLink DatagramAction where
  start l := ∃ publishNamespace walWriter txWriter,
    l = { sender := { bridge := { publishNamespace, walWriter := txWriter } }
          receiver := { publishNamespace := ns, walWriter } }
  next := DatagramLink.next z

/-- What is garbled on the way does not pass for a frame. -/
def DatagramLink.Steady (l : DatagramLink) : DatagramAction → Prop
  | .send manager nowNs => l.sender.Steady manager nowNs
  | .arrive _ => True
  | .garble data => ∃ err, decodeHeader data = .error err

instance decideGarbled (data : Bytes) : Decidable (∃ err, decodeHeader data = .error err) :=
  decidable_of_iff ((decodeHeader data).toOption = none) (by
    cases decodeHeader data <;> simp [Except.toOption])

instance DatagramLink.decideSteady : ∀ (l : DatagramLink) (a : DatagramAction), Decidable (l.Steady a)
  | l, .send manager nowNs => inferInstanceAs (Decidable (l.sender.Steady manager nowNs))
  | _, .arrive _ => instDecidableTrue
  | _, .garble data => decideGarbled data

def DatagramLink.frames (l : DatagramLink) (indices : List Nat) : List Sent :=
  indices.filterMap (l.sender.sent[·]?)

structure DatagramLink.Inv (z : Zstd) (ns : Bytes) (l : DatagramLink) : Prop where
  sender : l.sender.Inv z
  valid : ∀ i ∈ l.arrived, i < l.sender.sent.length
  heard : l.receiver.HeardAll ns (l.frames (maxima l.arrived))
  published : l.published = publications ns ((l.frames (maxima l.arrived)).map (·.message))
  rejects : l.receiver.frameRejectCount =
    (l.arrived.length - (maxima l.arrived).length + l.garbled).toUInt64

section Invariant

variable {z : Zstd} {ns : Bytes} {l : DatagramLink}

theorem filterMap_getElem?_append {α : Type*} {xs : List α} (ys : List α) {is : List Nat}
    (h : ∀ i ∈ is, i < xs.length) :
    is.filterMap ((xs ++ ys)[·]?) = is.filterMap (xs[·]?) := by
  refine List.filterMap_congr fun i hi => ?_
  exact List.getElem?_append_left (h i hi)

theorem getLast?_filterMap_getElem? {α : Type*} {xs : List α} {is : List Nat}
    (h : ∀ i ∈ is, i < xs.length) :
    (is.filterMap (xs[·]?)).getLast? = is.getLast?.bind (xs[·]?) := by
  rcases List.eq_nil_or_concat is with rfl | ⟨is, i, rfl⟩
  · rfl
  · have hlt : i < xs.length := h i (by simp)
    simp [List.filterMap_append, List.getElem?_eq_getElem hlt]

theorem DatagramLink.Inv.valid_maxima (h : l.Inv z ns) :
    ∀ i ∈ maxima l.arrived, i < l.sender.sent.length :=
  fun i hi => h.valid i ((maxima_sublist _).subset hi)

/-- A frame is not behind the one that was accepted last exactly if it was not sent before it. -/
theorem DatagramLink.Inv.accepts_iff (h : l.Inv z ns) {index : Nat} {x : Sent}
    (hx : l.sender.sent[index]? = some x) :
    (∀ y ∈ (l.frames (maxima l.arrived)).getLast?,
      y.sequence ≤ x.sequence ∧ y.timestampNs ≤ x.timestampNs) ↔
        ∀ i ∈ (maxima l.arrived).getLast?, i ≤ index := by
  rw [DatagramLink.frames, getLast?_filterMap_getElem? h.valid_maxima]
  cases hlast : (maxima l.arrived).getLast? with
  | none => simp
  | some i =>
    have hi := h.valid_maxima i (List.mem_of_getLast? hlast)
    obtain ⟨hindex, rfl⟩ := List.getElem?_eq_some_iff.mp hx
    have hordered := List.pairwise_iff_getElem.mp h.sender.ordered
    simp only [Option.bind_some, List.getElem?_eq_getElem hi, Option.mem_some_iff, forall_eq']
    constructor
    · intro hle
      by_contra hlt
      exact absurd (hordered index i hindex hi (Nat.lt_of_not_le hlt)).1
        (UInt64.not_lt.mpr hle.1)
    · intro hle
      rcases Nat.lt_or_eq_of_le hle with hlt | rfl
      · have hbefore := hordered i index hi hindex hlt
        exact ⟨UInt64.le_of_lt hbefore.1, hbefore.2⟩
      · exact ⟨UInt64.le_refl _, UInt64.le_refl _⟩

theorem DatagramLink.Inv.send (hz : z.Inverts) (h : l.Inv z ns) {manager : Subscription}
    {nowNs : UInt64} (hsteady : l.sender.Steady manager nowNs) {t : DatagramLink}
    (hn : l.next z (.send manager nowNs) = some t) : t.Inv z ns := by
  rw [DatagramLink.next, Option.some.injEq] at hn
  subst hn
  have hsent : (l.sender.send z true manager nowNs).1.sent =
      l.sender.sent ++ (l.sender.send z true manager nowNs).2.toList := rfl
  have hframes : DatagramLink.frames
      { l with sender := (l.sender.send z true manager nowNs).1 } (maxima l.arrived) =
        l.frames (maxima l.arrived) := by
    rw [DatagramLink.frames, hsent]
    exact filterMap_getElem?_append _ h.valid_maxima
  refine ⟨h.sender.send hz hsteady, fun i hi => ?_, ?_, ?_, h.rejects⟩
  · rw [hsent, List.length_append]
    exact Nat.lt_add_right _ (h.valid i hi)
  · rw [hframes]
    exact h.heard
  · rw [hframes]
    exact h.published

theorem DatagramLink.Inv.arrive (h : l.Inv z ns) {index : Nat} {t : DatagramLink}
    (hn : l.next z (.arrive index) = some t) : t.Inv z ns := by
  cases hx : l.sender.sent[index]? with
  | none => simp [DatagramLink.next, hx] at hn
  | some x =>
    simp only [DatagramLink.next, hx] at hn
    obtain ⟨_, hn⟩ := Option.ite_none_right_eq_some.mp hn
    cases hn
    obtain ⟨hnamed, hframe⟩ := h.sender.framed x (List.mem_of_getElem? hx)
    have hvalid : ∀ i ∈ l.arrived ++ [index], i < l.sender.sent.length := by
      intro i hi
      rcases List.mem_append.mp hi with hi | hi
      · exact h.valid i hi
      · rw [List.mem_singleton.mp hi]
        exact (List.getElem?_eq_some_iff.mp hx).1
    have hlength := (maxima_sublist l.arrived).length_le
    by_cases hnewest : ∀ i ∈ (maxima l.arrived).getLast?, i ≤ index
    · obtain ⟨hheard, hrejects, hout⟩ :=
        h.heard.accept hnamed hframe ((h.accepts_iff hx).mpr hnewest)
      have hmaxima : maxima (l.arrived ++ [index]) = maxima l.arrived ++ [index] := by
        rw [maxima_append_singleton, step, if_pos hnewest]
      have hframes : l.frames (maxima (l.arrived ++ [index])) =
          l.frames (maxima l.arrived) ++ [x] := by
        rw [hmaxima]
        simp [DatagramLink.frames, List.filterMap_append, hx]
      rw [← hframes] at hheard hout
      rw [← h.published] at hout
      refine ⟨h.sender, hvalid, hheard, hout.symm, ?_⟩
      simp only [hmaxima, List.length_append, List.length_singleton, Nat.add_sub_add_right]
      exact hrejects.trans h.rejects
    · obtain ⟨hheard, hrejects, hout⟩ := h.heard.refuse hframe (mt (h.accepts_iff hx).mp hnewest)
      have hmaxima : maxima (l.arrived ++ [index]) = maxima l.arrived := by
        rw [maxima_append_singleton, step, if_neg hnewest]
      refine ⟨h.sender, hvalid, ?_, ?_, ?_⟩
      · simp only [hmaxima]
        exact hheard
      · simp only [hmaxima, DatagramLink.receive, hout, List.append_nil]
        exact h.published
      · simp only [hmaxima, List.length_append, List.length_singleton]
        rw [Nat.sub_add_comm hlength, Nat.add_right_comm, Nat.toUInt64_eq, UInt64.ofNat_add]
        exact hrejects.trans (congrArg (· + 1) h.rejects)

theorem DatagramLink.Inv.garble (h : l.Inv z ns) {data : Bytes} {err : FrameError}
    (hdata : decodeHeader data = .error err) {t : DatagramLink}
    (hn : l.next z (.garble data) = some t) : t.Inv z ns := by
  cases hn
  obtain ⟨hheard, hrejects, hout⟩ := h.heard.garbled (z := z) hdata
  refine ⟨h.sender, h.valid, hheard, ?_, ?_⟩
  · simp only [DatagramLink.receive, hout, List.append_nil]
    exact h.published
  · rw [← Nat.add_assoc, Nat.toUInt64_eq, UInt64.ofNat_add]
    exact hrejects.trans (congrArg (· + 1) h.rejects)

theorem DatagramLink.Inv.reachable (hz : z.Inverts)
    (h : (DatagramLink.system z ns).Reachable DatagramLink.Steady l) : l.Inv z ns := by
  refine h.invariant ?_ ?_
  · rintro l ⟨publishNamespace, walWriter, txWriter, rfl⟩
    refine ⟨⟨?_, .nil, ?_⟩, ?_, ⟨rfl, rfl, rfl⟩, rfl, rfl⟩
    · exact fun x hx => absurd hx List.not_mem_nil
    · exact fun x hx => absurd hx List.not_mem_nil
    · exact fun i hi => absurd hi List.not_mem_nil
  · intro l a t hl hsteady hn
    cases a with
    | send manager nowNs => exact hl.send hz hsteady hn
    | arrive index => exact hl.arrive hn
    | garble data =>
      obtain ⟨err, herr⟩ := hsteady
      exact hl.garble herr hn

end Invariant

end SensorForge
