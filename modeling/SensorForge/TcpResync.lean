import SensorForge.TcpReassembler

/-! The reassembler on a stream with noise between the frames, started fresh or reset
at any point of an earlier stream. -/

namespace SensorForge.Transport

open Framing

/-- The bytes collected for a size and the counters survive. -/
def TcpReassembler.reset (r : TcpReassembler) : TcpReassembler :=
  { r with state := 0, sizeIdx := 0, payloadSize := 0, payload := [] }

inductive TcpReassembler.Call where
  | feed (data : Bytes)
  | reset

def TcpReassembler.call (r : TcpReassembler) : TcpReassembler.Call → TcpReassembler
  | .feed data => r.feed data
  | .reset => r.reset

def TcpReassembler.run (maxPayload : UInt32) (calls : List TcpReassembler.Call) :
    TcpReassembler :=
  calls.foldl TcpReassembler.call { maxPayload }

def bigEndian (n : UInt32) : Bytes :=
  [(n >>> 24).toUInt8, (n >>> 16).toUInt8, (n >>> 8).toUInt8, n.toUInt8]

def noisyStream (items : List (Bytes × Bytes)) : Bytes :=
  items.flatMap fun x => x.1 ++ [0xAB, 0xCD] ++ bigEndian x.2.length.toUInt32 ++ x.2

theorem and_ff_toUInt8 (v : UInt32) : (v &&& 0xFF).toUInt8 = v.toUInt8 := by
  apply UInt8.toNat_inj.mp
  simp [Nat.and_two_pow_sub_one_eq_mod _ 8]

theorem sizeOfBytes_bigEndian (n : UInt32) : sizeOfBytes (bigEndian n) = n := by
  have hput : putU32 n = [n.toUInt8, (n >>> 8).toUInt8, (n >>> 16).toUInt8, (n >>> 24).toUInt8] := by
    simp only [putU32, and_ff_toUInt8]
  have hread := getU32_putU32 n []
  rwa [List.append_nil, hput, ← sizeOfBytes_reverse] at hread

theorem noisyStream_eq (maxPayload : UInt32) (items : List (Bytes × Bytes)) :
    noisyStream items =
      (reassemblerFormat maxPayload).noisyWire (fun n => bigEndian n.toUInt32) items := by
  simp only [noisyStream, Format.noisyWire, List.append_assoc]
  rfl

/-- Fed or reset, a reassembler is in some phase of its automaton. -/
def TcpReassembler.Sound (maxPayload : UInt32) (r : TcpReassembler) : Prop :=
  r.maxPayload = maxPayload ∧ r.sizeBytes.length = 4 ∧ ∃ phase, r.In phase

theorem TcpReassembler.Sound.feed {maxPayload : UInt32} {r : TcpReassembler}
    (h : r.Sound maxPayload) (data : Bytes) : (r.feed data).Sound maxPayload := by
  induction data generalizing r with
  | nil => exact h
  | cons b data ih =>
    obtain ⟨hmax, hlen, phase, hin⟩ := h
    obtain ⟨phase', _, hin', _, hlen', hmax', _⟩ := hin.feedByte hlen b
    exact ih ⟨hmax'.trans hmax, hlen', phase', hin'⟩

theorem TcpReassembler.Sound.reset {maxPayload : UInt32} {r : TcpReassembler}
    (h : r.Sound maxPayload) : r.reset.Sound maxPayload :=
  ⟨h.1, h.2.1, .hunt, .hunt rfl⟩

theorem TcpReassembler.run_sound (maxPayload : UInt32) (calls : List TcpReassembler.Call) :
    (TcpReassembler.run maxPayload calls).Sound maxPayload := by
  induction calls using List.reverseRecOn with
  | nil => exact ⟨rfl, rfl, .hunt, .hunt rfl⟩
  | append_singleton calls c ih =>
    rw [TcpReassembler.run, List.foldl_append]
    cases c with
    | feed data => exact ih.feed data
    | reset => exact ih.reset

theorem TcpReassembler.reset_feedAll {maxPayload : UInt32} {r : TcpReassembler}
    (h : r.Sound maxPayload) (hstate : r.state = 0) (chunks : List Bytes) :
    (r.feedAll chunks).emitted =
      r.emitted ++ (reassemblerFormat maxPayload).frames chunks.flatten := by
  rw [TcpReassembler.feedAll_eq, TcpReassembler.In.feed (.hunt hstate) h.2.1, h.1]
  rfl

/-- However the stream is cut, exactly its payloads are emitted, after whatever was
emitted before the reset. -/
theorem reassembler_recovers (maxPayload : UInt32) {items : List (Bytes × Bytes)}
    (hnoise : ∀ x ∈ items, ¬ [0xAB, 0xCD] <:+: x.1)
    (hsize : ∀ x ∈ items, x.2.length ≤ maxPayload.toNat) {chunks : List Bytes}
    (hchunks : chunks.flatten = noisyStream items) {r : TcpReassembler}
    (hr : r = { maxPayload } ∨ ∃ calls, r = (TcpReassembler.run maxPayload calls).reset) :
    (r.feedAll chunks).emitted = r.emitted ++ items.map Prod.snd := by
  have hframes : (reassemblerFormat maxPayload).frames chunks.flatten = items.map Prod.snd := by
    rw [hchunks, noisyStream_eq maxPayload]
    refine Format.frames_noisyWire _ hnoise (fun _ _ => rfl)
      (fun x hx => decide_eq_true (hsize x hx)) fun x hx => ?_
    have hlt := lt_of_le_of_lt (hsize x hx) maxPayload.toNat_lt
    calc (sizeOfBytes (bigEndian x.2.length.toUInt32)).toNat = x.2.length.toUInt32.toNat := by
          rw [sizeOfBytes_bigEndian]
      _ = x.2.length := Nat.mod_eq_of_lt hlt
  rw [← hframes]
  rcases hr with rfl | ⟨calls, rfl⟩
  · exact TcpReassembler.reset_feedAll ⟨rfl, rfl, .hunt, .hunt rfl⟩ rfl chunks
  · exact TcpReassembler.reset_feedAll (TcpReassembler.run_sound maxPayload calls).reset rfl chunks

/-- Noise that ends in the marker's first byte, after a reset inside a payload. -/
theorem reassembler_recovers_reset :
    (((TcpReassembler.run 8 [.feed [0xAB, 0xCD, 0, 0, 0, 2, 5]]).reset).feedAll
      [[0xAB, 0xAB], [0xAB, 0xCD, 0, 0, 0, 1], [7]]).emitted = [[7]] :=
  reassembler_recovers 8 (show ∀ x ∈ [([0xAB, 0xAB], [7])], ¬ [0xAB, 0xCD] <:+: x.1 by decide)
    (by decide) (by decide) (Or.inr ⟨_, rfl⟩)

end SensorForge.Transport
