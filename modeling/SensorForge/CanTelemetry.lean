import SensorForge.StreamFaults

/-! The telemetry in the CAN frames: what the publisher puts in and what the reader of the
scenario runner takes out, over the truncated counter and the truncated clock. -/

namespace SensorForge.Scenarios

open Faults

/-- What `on_tick` finds: the steady clock in microseconds, and the bytes of the signal. -/
structure CanTick where
  us : Int
  signal : UInt8 × UInt8

/-- `count() & 0xFFFFFFFF`. -/
def lowUs (us : Int) : UInt32 := UInt32.ofInt us

def onTick (seq : UInt64) (t : CanTick) : CanFrame :=
  let seq16 := (seq &&& 0xFFFF).toUInt16
  let tsUs := lowUs t.us
  { data := #v[t.signal.1, t.signal.2,
      (seq16 &&& 0xFF).toUInt8, ((seq16 >>> 8) &&& 0xFF).toUInt8,
      (tsUs &&& 0xFF).toUInt8, ((tsUs >>> 8) &&& 0xFF).toUInt8,
      ((tsUs >>> 16) &&& 0xFF).toUInt8, ((tsUs >>> 24) &&& 0xFF).toUInt8] }

/-- `ticks` and `frames` are the history of the timer. -/
structure CanPublisher where
  seq : UInt64 := 0
  ticks : List CanTick := []
  frames : List CanFrame := []

def CanPublisher.tick (p : CanPublisher) (t : CanTick) : CanPublisher where
  seq := p.seq + 1
  ticks := p.ticks ++ [t]
  frames := p.frames ++ [onTick p.seq t]

/-- What the reader compares before it records a frame. -/
def CanReader.gap (c : CanReader) (f : CanFrame) : Bool :=
  c.havePrevSeq && f.seq != c.prevSeq + 1

/-- The frames missing between a received one and the next, when the loss shows. -/
def gapsBetween (ticks : List Nat) : List Bool :=
  List.zipWith (fun p q => decide ((q - p - 1) % 65536 ≠ 0)) ticks ticks.tail

theorem onTick_seq (seq : UInt64) (t : CanTick) : (onTick seq t).seq.toNat = seq.toNat % 65536 := by
  have hbytes : (onTick seq t).seq = getU16 (putU16 (seq &&& 0xFFFF).toUInt16 ++ []) := rfl
  rw [hbytes, getU16_putU16]
  simp [Nat.and_two_pow_sub_one_eq_mod _ 16]

theorem onTick_sentUs (seq : UInt64) (t : CanTick) : (onTick seq t).sentUs = lowUs t.us := by
  have hbytes : (onTick seq t).sentUs = getU32 (putU32 (lowUs t.us) ++ []) := rfl
  rw [hbytes, getU32_putU32]

theorem lowUs_sub (recvUs sentUs : Int) :
    ((lowUs recvUs - lowUs sentUs).toNat : Int) = (recvUs - sentUs) % 2 ^ 32 := by
  rw [lowUs, lowUs, UInt32.sub_eq_add_neg, ← UInt32.ofInt_neg, ← UInt32.ofInt_add,
    ← Int.sub_eq_add_neg, UInt32.ofInt, UInt32.toNat_ofNat']
  omega

/-- The sequence numbers follow each other exactly if a multiple of 65536 frames is missing. -/
theorem seq_follows_iff {p q : Nat} (hpq : p < q) {a b : UInt16} (ha : a.toNat = p % 65536)
    (hb : b.toNat = q % 65536) : b = a + 1 ↔ (q - p - 1) % 65536 = 0 := by
  rw [← UInt16.toNat_inj, UInt16.toNat_add, ha, hb]
  simp only [UInt16.reduceToNat]
  omega

theorem gapsBetween_append (ticks : List Nat) (p q : Nat) :
    gapsBetween (ticks ++ [p] ++ [q]) =
      gapsBetween (ticks ++ [p]) ++ [decide ((q - p - 1) % 65536 ≠ 0)] := by
  induction ticks with
  | nil => rfl
  | cons t ticks ih =>
    cases ticks with
    | nil => rfl
    | cons u ticks => simpa [gapsBetween] using ih

/-- The publisher's counter is the number of ticks, and every frame is made from its own. -/
structure CanPublisher.Counts (p : CanPublisher) : Prop where
  seq : p.seq = UInt64.ofNat p.ticks.length
  frames : p.frames = p.ticks.mapIdx fun i t => onTick (UInt64.ofNat i) t

theorem CanPublisher.Counts.tick {p : CanPublisher} (h : p.Counts) (t : CanTick) :
    (p.tick t).Counts where
  seq := by
    rw [CanPublisher.tick, h.seq, List.length_append, List.length_singleton]
    exact (UInt64.ofNat_add _ _).symm
  frames := by simp [CanPublisher.tick, h.frames, h.seq, List.mapIdx_append]

theorem CanPublisher.Counts.frame {p : CanPublisher} (h : p.Counts) {n : Nat} {f : CanFrame}
    (hf : p.frames[n]? = some f) :
    ∃ t, p.ticks[n]? = some t ∧ f.seq.toNat = n % 65536 ∧ f.sentUs = lowUs t.us := by
  rw [h.frames, List.getElem?_mapIdx] at hf
  obtain ⟨t, ht, rfl⟩ := Option.map_eq_some_iff.mp hf
  refine ⟨t, ht, ?_, onTick_sentUs _ t⟩
  rw [onTick_seq, UInt64.toNat_ofNat']
  omega

end SensorForge.Scenarios
