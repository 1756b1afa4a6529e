import SensorForge.DatagramLink
import SensorForge.FaultBalance

/-! The bridges linked by UDP, with the fault engine of the sender before its socket. Whatever
its rules, the receiver sees no more than a link that loses, repeats, overtakes and garbles. -/

namespace SensorForge

open BitFlips ByteOrder Faults Protocol RunningMaxima Transition

variable {ω D : Type} [Double D]

/-- `link.sender` has a fault engine. `link.arrived` has the calls of `process` that the frames come
from which arrive unchanged. -/
structure FaultyLink (ω D : Type) [Double D] where
  link : DatagramLink
  engine : FaultEngine ω D

/-- `stream` is the topic, `tS` the age of the node; `step` is one of the engine's own. -/
inductive FaultyAction (D : Type) where
  | send (manager : Subscription) (nowNs : UInt64) (stream : String) (tS : D)
  | step (a : EngineAction D)
  | arrive (index : Nat)
  | garble (data : Bytes)

/-- What the write callback has been called with is what arrives, if it does. -/
def FaultyLink.arrive (z : Zstd) (l : FaultyLink ω D) (f : Frame) : FaultyLink ω D :=
  if (l.link.sender.sent[f.call]?).map (·.frame) = some f.data then
    { l with link := { l.link.receive z f.data with arrived := l.link.arrived ++ [f.call] } }
  else { l with link := { l.link.receive z f.data with garbled := l.link.garbled + 1 } }

def FaultyLink.next (z : Zstd) (W : World ω D) (l : FaultyLink ω D) :
    FaultyAction D → Option (FaultyLink ω D)
  | .send manager nowNs stream tS =>
    let link := { l.link with sender := (l.link.sender.send z true manager nowNs).1 }
    match (l.link.sender.send z true manager nowNs).2 with
    | none => some { l with link }
    | some x => (l.engine.next W (.process ⟨x.frame, tS, stream⟩)).map fun engine => { link, engine }
  | .step (.process _) => none
  | .step a => (l.engine.next W a).map fun engine => { l with engine }
  | .arrive index =>
    match l.engine.written[index]? with
    | none => none
    | some w => if w.frame.data.length ≤ kMaxDatagram then some (l.arrive z w.frame) else none
  | .garble data =>
    some { l with link := { l.link.receive z data with garbled := l.link.garbled + 1 } }

def FaultyLink.system (z : Zstd) (W : World ω D) (rules : List (FaultRule D)) (ns : Bytes) :
    System (FaultyLink ω D) (FaultyAction D) where
  start l := ∃ publishNamespace walWriter txWriter world,
    l = { link :=
            { sender := { bridge := { publishNamespace, walWriter := txWriter, faultEngine := true } }
              receiver := { publishNamespace := ns, walWriter } }
          engine := { rules, world } }
  next := FaultyLink.next z W

/-- What is garbled, by a rule of the engine or on the way, does not pass for a frame. -/
def FaultyLink.Steady (l : FaultyLink ω D) : FaultyAction D → Prop
  | .send manager nowNs _ _ => l.link.sender.Steady manager nowNs
  | .step _ => True
  | .arrive index => ∀ w ∈ l.engine.written[index]?,
    (l.link.sender.sent[w.frame.call]?).map (·.frame) = some w.frame.data ∨
      ∃ err, decodeHeader w.frame.data = .error err
  | .garble data => ∃ err, decodeHeader data = .error err

instance FaultyLink.decideSteady :
    ∀ (l : FaultyLink ω D) (a : FaultyAction D), Decidable (l.Steady a)
  | l, .send manager nowNs _ _ => inferInstanceAs (Decidable (l.link.sender.Steady manager nowNs))
  | _, .step _ => instDecidableTrue
  | l, .arrive index =>
    match hw : l.engine.written[index]? with
    | none => .isTrue fun w h => by
      rw [hw] at h
      cases h
    | some w =>
      decidable_of_iff ((l.link.sender.sent[w.frame.call]?).map (·.frame) = some w.frame.data ∨
        ∃ err, decodeHeader w.frame.data = .error err) (by simp [FaultyLink.Steady, hw])
  | _, .garble data => decideGarbled data

def Sender.plain (s : Sender) : Sender := { s with bridge := { s.bridge with faultEngine := false } }

/-- The link without the engine. -/
def FaultyLink.datagrams (l : FaultyLink ω D) : DatagramLink :=
  { l.link with sender := l.link.sender.plain }

theorem NetworkBridge.sendData_plain (z : Zstd) (b : NetworkBridge) (ready : Bool)
    (manager : Subscription) (nowNs : UInt64) :
    NetworkBridge.sendData z { b with faultEngine := false } ready manager nowNs =
      ({ (b.sendData z ready manager nowNs).1 with faultEngine := false },
        (b.sendData z ready manager nowNs).2.map fun out => .write out.frame) := by
  unfold NetworkBridge.sendData
  cases manager.hasData with
  | false => rfl
  | true =>
    cases ready with
    | false => rfl
    | true =>
      obtain ⟨data, isDataValid⟩ := manager.getData
      cases hdata : data.isEmpty || !isDataValid with
      | true =>
        simp only [hdata]
        rfl
      | false =>
        simp only [hdata]
        cases compress z (createHeader manager.topic manager.msgType ++ data)
            manager.zstdCompressionLevel with
        | none => rfl
        | some compressedData =>
          dsimp only
          cases encodeFrame .kControl b.txSequence nowNs kFlagCompressed compressedData with
          | error err => rfl
          | ok frame => cases b.faultEngine <;> rfl

theorem Sender.plain_send (z : Zstd) (s : Sender) (ready : Bool) (manager : Subscription)
    (nowNs : UInt64) : s.plain.send z ready manager nowNs =
      ((s.send z ready manager nowNs).1.plain, (s.send z ready manager nowNs).2) := by
  simp only [Sender.send, Sender.plain, NetworkBridge.sendData_plain, Option.map_map]
  rfl

variable {z : Zstd} {W : World ω D} {rules : List (FaultRule D)} {ns : Bytes} {l : FaultyLink ω D}

structure FaultyLink.Inv (z : Zstd) (ns : Bytes) (l : FaultyLink ω D) : Prop where
  plain : (DatagramLink.system z ns).Reachable DatagramLink.Steady l.datagrams
  calls : l.engine.calls.map ProcessCall.data = l.link.sender.sent.map (·.frame)

theorem FaultyLink.Inv.send (h : l.Inv z ns) {manager : Subscription} {nowNs : UInt64}
    {stream : String} {tS : D} (hsteady : l.link.sender.Steady manager nowNs) {t : FaultyLink ω D}
    (hn : l.next z W (.send manager nowNs stream tS) = some t) : t.Inv z ns := by
  have hplain : (DatagramLink.system z ns).Reachable DatagramLink.Steady
      { l.datagrams with sender := (l.datagrams.sender.send z true manager nowNs).1 } :=
    h.plain.step (a := DatagramAction.send manager nowNs)
      ⟨hsteady.clock, hsteady.sequence, hsteady.named⟩ rfl
  have hsender : (l.datagrams.sender.send z true manager nowNs).1 =
      (l.link.sender.send z true manager nowNs).1.plain :=
    congrArg Prod.fst (l.link.sender.plain_send z true manager nowNs)
  rw [hsender] at hplain
  have hsent : (l.link.sender.send z true manager nowNs).1.sent =
      l.link.sender.sent ++ (l.link.sender.send z true manager nowNs).2.toList := rfl
  rw [FaultyLink.next] at hn
  cases hout : (l.link.sender.send z true manager nowNs).2 with
  | none =>
    simp only [hout, Option.some.injEq] at hn
    subst hn
    refine ⟨hplain, ?_⟩
    simp only [hsent, hout, Option.toList_none, List.append_nil]
    exact h.calls
  | some x =>
    simp only [hout] at hn
    obtain ⟨engine, hengine, rfl⟩ := Option.map_eq_some_iff.mp hn
    refine ⟨hplain, ?_⟩
    cases next_step hengine
    simp only [hsent, hout, process_calls, List.map_append, h.calls]
    rfl

theorem FaultyLink.Inv.step (h : l.Inv z ns) {a : EngineAction D} {t : FaultyLink ω D}
    (hn : l.next z W (.step a) = some t) : t.Inv z ns := by
  have hother : ∀ c, a ≠ .process c := by
    rintro c rfl
    cases hn
  have hmap : (l.engine.next W a).map (fun engine => { l with engine }) = some t := by
    cases a with
    | process c => exact absurd rfl (hother c)
    | _ => exact hn
  obtain ⟨engine, hengine, rfl⟩ := Option.map_eq_some_iff.mp hmap
  exact ⟨h.plain, (congrArg _ (next_carries hengine hother).calls).trans h.calls⟩

theorem FaultyLink.Inv.arrive (h : l.Inv z ns) {index : Nat}
    (hsteady : l.Steady (FaultyAction.arrive index)) {t : FaultyLink ω D}
    (hn : l.next z W (.arrive index) = some t) : t.Inv z ns := by
  rw [FaultyLink.next] at hn
  cases hw : l.engine.written[index]? with
  | none => simp [hw] at hn
  | some w =>
    simp only [hw] at hn
    obtain ⟨hsize, hn⟩ := Option.ite_none_right_eq_some.mp hn
    cases hn
    unfold FaultyLink.arrive
    split
    · next hsame =>
      obtain ⟨x, hx, hframe⟩ := Option.map_eq_some_iff.mp hsame
      refine ⟨h.plain.step (a := DatagramAction.arrive w.frame.call) trivial ?_, h.calls⟩
      have hx' : l.datagrams.sender.sent[w.frame.call]? = some x := hx
      change DatagramLink.next z l.datagrams (.arrive w.frame.call) = _
      rw [DatagramLink.next, hx']
      simp only [hframe, if_pos hsize]
      rfl
    · next hother =>
      have hgarbled := (hsteady w hw).resolve_left hother
      exact ⟨h.plain.step (a := DatagramAction.garble w.frame.data) hgarbled rfl, h.calls⟩

theorem FaultyLink.Inv.reachable
    (h : (FaultyLink.system z W rules ns).Reachable FaultyLink.Steady l) : l.Inv z ns := by
  refine h.invariant ?_ ?_
  · rintro l ⟨publishNamespace, walWriter, txWriter, world, rfl⟩
    exact ⟨.start ⟨publishNamespace, walWriter, txWriter, rfl⟩, rfl⟩
  · intro l a t hl hsteady hn
    cases a with
    | send manager nowNs stream tS => exact hl.send hsteady hn
    | step a => exact hl.step hn
    | arrive index => exact hl.arrive (W := W) hsteady hn
    | garble data =>
      cases hn
      exact ⟨hl.plain.step (a := DatagramAction.garble data) hsteady rfl, hl.calls⟩

end SensorForge
