import SensorForge.RecoveryScan
import SensorForge.WalReopen

/-! A crash cuts the last segment at any byte. The reader resynchronizes inside the
record that is left incomplete, so what it finds there depends on that record's bytes. -/

namespace SensorForge.Replay

open StableSort

/-- The directory after a session whose last segment is cut. -/
def crashed (segmentBytes : Nat) (calls : List AppendCall) (cut : Nat) : Directory :=
  let s := WalWriter.session ∅ segmentBytes calls
  let path := segmentFilename s.1.currentSegmentId
  s.2.insert path (((s.2.lookup path).getD []).take cut)

def wholeBefore : Nat → List ReplayRecord → List ReplayRecord
  | _, [] => []
  | cut, r :: rs =>
    if r.bytes.length ≤ cut then r :: wholeBefore (cut - r.bytes.length) rs else []

/-- What is left of the record that the cut goes through. -/
def tornBytes : Nat → List ReplayRecord → Bytes
  | _, [] => []
  | cut, r :: rs =>
    if r.bytes.length ≤ cut then tornBytes (cut - r.bytes.length) rs else r.bytes.take cut

/-- The records that lie completely before the cut. -/
def survivors (segmentBytes : Nat) (calls : List AppendCall) (cut : Nat) : List ReplayRecord :=
  let l := layoutOf segmentBytes (appended calls)
  l.closed.flatten ++ wholeBefore cut l.current

def torn (segmentBytes : Nat) (calls : List AppendCall) (cut : Nat) : Bytes :=
  tornBytes cut (layoutOf segmentBytes (appended calls)).current

/-- No record can be decoded anywhere in the bytes. -/
def HoldsNoRecord (bytes : Bytes) : Prop :=
  ∀ p, p + kRecordHeaderSize ≤ bytes.length → ∀ h, decodeRecord (bytes.drop p) ≠ .ok h

theorem take_imageOf (cut : Nat) (rs : List ReplayRecord) :
    (imageOf rs).take cut = imageOf (wholeBefore cut rs) ++ tornBytes cut rs := by
  induction rs generalizing cut with
  | nil => simp [imageOf, wholeBefore, tornBytes]
  | cons r rs ih =>
    by_cases hle : r.bytes.length ≤ cut
    · rw [imageOf_cons, wholeBefore, if_pos hle, tornBytes, if_pos hle, imageOf_cons,
        List.append_assoc, ← ih, List.take_append, List.take_of_length_le hle]
    · rw [imageOf_cons, wholeBefore, if_neg hle, tornBytes, if_neg hle,
        List.take_append_of_le_length (Nat.le_of_not_le hle)]
      rfl

theorem wholeBefore_subset (cut : Nat) (rs : List ReplayRecord) : wholeBefore cut rs ⊆ rs := by
  induction rs generalizing cut with
  | nil => exact List.Subset.refl _
  | cons r rs ih =>
    unfold wholeBefore
    split
    · exact List.cons_subset_cons r (ih _)
    · exact List.nil_subset _

theorem acceptedFrom_eq_nil_iff {buf : Bytes} {pos : Nat} :
    acceptedFrom buf pos = [] ↔ HoldsNoRecord (buf.drop pos) := by
  constructor
  · intro hnil p hp h hok
    rw [List.length_drop] at hp
    rw [List.drop_drop] at hok
    have hun : Coverage.Uncovered (acceptedRanges buf pos) (pos + p) := by
      rw [acceptedRanges, hnil]
      exact fun r hr => absurd hr List.not_mem_nil
    rw [kRecordHeaderSize_eq] at hp
    have hfits : pos + p + kRecordHeaderSize ≤ buf.length := by
      rw [kRecordHeaderSize_eq]
      omega
    obtain ⟨err, herr⟩ := uncovered_fails (Nat.le_add_right pos p) hfits hun
    rw [hok] at herr
    cases herr
  · intro hnone
    refine List.eq_nil_iff_forall_not_mem.mpr fun a ha => ?_
    have hrange : (a.1, a.2.header.recordLength.toNat) ∈ acceptedRanges buf pos :=
      List.mem_map_of_mem ha
    have hpos := ((acceptedRanges_disposed buf pos).within _ hrange).1
    have hdec := (acceptedFrom_decodes ha).1
    have hend := decodeRecord_recordLength hdec
    simp only at hpos
    refine hnone (a.1 - pos) ?_ a.2.header ?_
    · rw [kRecordHeaderSize_eq, List.length_drop]
      omega
    · rw [List.drop_drop, Nat.add_sub_cancel' hpos]
      exact hdec

theorem crashed_entries {segmentBytes : Nat} {calls : List AppendCall}
    (hsegs : segmentCount segmentBytes calls < 2 ^ 32) (cut : Nat) :
    ∃ id : UInt32, id ≠ 0 ∧ (crashed segmentBytes calls cut).entries.Perm
      (⟨segmentFilename id, (imageOf (layoutOf segmentBytes (appended calls)).current).take cut⟩ ::
        (numbered 1 (layoutOf segmentBytes (appended calls)).closed).map Prod.snd) := by
  have hrealizes := WalWriter.session_realizes ∅ segmentBytes calls
  obtain ⟨l, hl⟩ : ∃ l, layoutOf segmentBytes (appended calls) = l := ⟨_, rfl⟩
  have hcount : l.closed.length + 1 < 2 ^ 32 := by
    have hlen : segmentCount segmentBytes calls = l.closed.length + 1 := by
      rw [segmentCount, hl, Layout.segments, List.length_append, List.length_singleton]
    omega
  rw [hl] at hrealizes ⊢
  have hid := hrealizes.currentSegmentId
  have hfiles := hrealizes.files
  rw [Layout.segments, Directory.writeSegments_concat, ← hid] at hfiles
  have htoNat : (WalWriter.session ∅ segmentBytes calls).1.currentSegmentId.toNat =
      1 + l.closed.length := by
    rw [hid]
    exact toNat_toUInt32 (by omega)
  have hbound : 1 + l.closed.length ≤ 2 ^ 32 := by omega
  have hempty : ∀ x ∈ numbered 1 l.closed, x.2.1 ∉ (∅ : Directory) :=
    fun x _ => AList.notMem_empty x.2.1
  have hearlier := Directory.writeSegments_entries hbound hempty
  rw [AList.empty_entries, List.append_nil] at hearlier
  have hfresh : segmentFilename (WalWriter.session ∅ segmentBytes calls).1.currentSegmentId ∉
      Directory.writeSegments ∅ 1 l.closed := by
    intro hmem
    rw [AList.mem_keys, AList.keys, List.mem_keys] at hmem
    obtain ⟨bytes, hmem⟩ := hmem
    obtain ⟨x, hx, hname⟩ := List.mem_map.mp (hearlier.mem_iff.mp hmem)
    obtain ⟨_, hhi, hxname⟩ := numbered_id hbound hx
    rw [hname] at hxname
    have hsame := segmentFilename_injective hxname
    rw [← hsame, htoNat] at hhi
    omega
  refine ⟨(WalWriter.session ∅ segmentBytes calls).1.currentSegmentId, ?_, ?_⟩
  · intro hzero
    rw [hzero] at htoNat
    exact absurd htoNat (by simp; omega)
  · rw [crashed, hfiles, AList.lookup_insert, Option.getD_some, AList.insert_insert,
      AList.entries_insert_of_notMem hfresh]
    exact hearlier.cons _

theorem numbered_fileRecords {first : Nat} {segs : List (List ReplayRecord)} (hfirst : 0 < first)
    (h : first + segs.length ≤ 2 ^ 32) (hv : ∀ s ∈ segs, ∀ rr ∈ s, rr.Valid) :
    ((numbered first segs).map Prod.snd).flatMap fileRecords = segs.flatten := by
  rw [← segmentFiles_records, segmentFiles_numbered hfirst h, numbered_records first hv]

/-- The reader finds the survivors, and what it takes for a record in the torn bytes. -/
theorem crashed_records {segmentBytes : Nat} {calls : List AppendCall}
    (hsegs : segmentCount segmentBytes calls < 2 ^ 32) (cut : Nat) {listing : List File}
    (hl : listing.Perm (crashed segmentBytes calls cut).entries) :
    ∃ found : List ReplayRecord,
      (WalReader.load listing).records.Perm (survivors segmentBytes calls cut ++ found) ∧
      (found = [] ↔ HoldsNoRecord (torn segmentBytes calls cut)) := by
  obtain ⟨id, hid, hentries⟩ := crashed_entries hsegs cut
  have hvalid := layoutOf_valid segmentBytes calls
  rw [survivors, torn]
  rw [segmentCount] at hsegs
  generalize layoutOf segmentBytes (appended calls) = l at hvalid hsegs hentries ⊢
  obtain ⟨closed, current⟩ := l
  simp only [Layout.segments, List.mem_append, List.mem_singleton, List.length_append,
    List.length_singleton] at hvalid hsegs hentries ⊢
  have hwhole : ∀ rr ∈ wholeBefore cut current, rr.Valid :=
    fun rr hrr => hvalid current (.inr rfl) rr (wholeBefore_subset cut current hrr)
  have hbuf : ((imageOf current).take cut).drop 0 =
      imageOf (wholeBefore cut current) ++ tornBytes cut current := take_imageOf cut current
  have hrest : ((imageOf current).take cut).drop (0 + (imageOf (wholeBefore cut current)).length) =
      tornBytes cut current := by
    rw [take_imageOf, Nat.zero_add, List.drop_left' rfl]
  refine ⟨(acceptedFrom ((imageOf current).take cut)
    (0 + (imageOf (wholeBefore cut current)).length)).map Prod.snd, ?_, ?_⟩
  · have hlast : fileRecords ⟨segmentFilename id, (imageOf current).take cut⟩ =
        wholeBefore cut current ++ (acceptedFrom ((imageOf current).take cut)
          (0 + (imageOf (wholeBefore cut current)).length)).map Prod.snd := by
      rw [fileRecords, segmentIdFromFilename_segmentFilename, if_pos hid]
      exact acceptedFrom_whole hwhole hbuf
    have hclosed := numbered_fileRecords one_pos (show 1 + closed.length ≤ 2 ^ 32 by omega)
      (fun s hs => hvalid s (.inl hs))
    refine (WalReader.load_perm listing).trans (((hl.trans hentries).flatMap_right _).trans ?_)
    rw [List.flatMap_cons, hlast, hclosed, List.append_assoc closed.flatten]
    exact List.perm_append_comm
  · rw [List.map_eq_nil_iff, acceptedFrom_eq_nil_iff, hrest]

/-- After a crash the reader returns exactly the records before the cut if and only if
nothing in the torn record's bytes decodes as a record. -/
theorem crash_consistent_iff (segmentBytes : Nat) (calls : List AppendCall)
    (hsegs : segmentCount segmentBytes calls < 2 ^ 32) (cut : Nat) (listing : List File)
    (hl : listing.Perm (crashed segmentBytes calls cut).entries) :
    (WalReader.load listing).records.Perm (survivors segmentBytes calls cut) ↔
      HoldsNoRecord (torn segmentBytes calls cut) := by
  obtain ⟨found, hperm, hfound⟩ := crashed_records hsegs cut hl
  rw [← hfound]
  constructor
  · intro hsame
    have hlen := (hsame.symm.trans hperm).length_eq
    rw [List.length_append] at hlen
    exact List.eq_nil_of_length_eq_zero (by omega)
  · rintro rfl
    rwa [List.append_nil] at hperm

def tornCalls : List AppendCall :=
  [lostCall, { timestampNs := 2, sensorType := .kCamera, sequence := 1, payload := [0xCD] }]

theorem crash_consistent_short :
    (WalReader.load (crashed 0 tornCalls 50).entries).records.Perm [lostCall.record] := by
  have hcount : segmentCount 0 tornCalls = 1 := by decide
  have hsurvivors : survivors 0 tornCalls 50 = [lostCall.record] := by decide +kernel
  have hshort : (torn 0 tornCalls 50).length = 15 := by decide +kernel
  have hh := (crash_consistent_iff 0 tornCalls (by rw [hcount]; decide) 50 _ (List.Perm.refl _)).mpr
    (fun p hp => absurd hp (by rw [hshort, kRecordHeaderSize_eq]; omega))
  rwa [hsurvivors] at hh

/-- The payload is itself an encoded record. -/
def nestedCall : AppendCall :=
  { timestampNs := 1, sensorType := .kLidar, sequence := 0
    payload := encodeRecord 7 .kCamera 9 [] }

theorem crash_invents_record :
    ¬ ∀ (segmentBytes : Nat) (calls : List AppendCall) (cut : Nat),
      (WalReader.load (crashed segmentBytes calls cut).entries).records.Perm
        (survivors segmentBytes calls cut) := by
  intro h
  have hcount : segmentCount 0 [nestedCall] = 1 := by decide +kernel
  obtain ⟨found, hperm, hfound⟩ := crashed_records
    (show segmentCount 0 [nestedCall] < 2 ^ 32 by rw [hcount]; decide) 64
    (List.Perm.refl (crashed 0 [nestedCall] 64).entries)
  have hlen := ((h 0 [nestedCall] 64).symm.trans hperm).length_eq
  rw [List.length_append] at hlen
  have hnone := hfound.mp (List.eq_nil_of_length_eq_zero (by omega))
  have hdec : decodeRecord ((torn 0 [nestedCall] 64).drop 30) = .ok (.of 7 .kCamera 9 []) := by
    decide +kernel
  exact hnone 30 (by decide +kernel) _ hdec

end SensorForge.Replay
