import SensorForge.Coverage
import SensorForge.WalRoundTrip

/-! What the reader's scan accepts and skips in arbitrary bytes, and what its counters
say of both. -/

namespace SensorForge.Replay

open Coverage StableSort Finset

def acceptedRanges (buf : Bytes) (pos : Nat) : List Range :=
  (acceptedFrom buf pos).map fun a => (a.1, a.2.header.recordLength.toNat)

/-- The positions outside every accepted record. -/
def Skipped (buf : Bytes) (p : Nat) : Prop := Uncovered (acceptedRanges buf 0) p

instance (buf : Bytes) : DecidablePred (Skipped buf) :=
  fun p => inferInstanceAs (Decidable (Uncovered _ p))

theorem decodeRecord_recordLength {buf : Bytes} {pos : Nat} {hdr : RecordHeader}
    (h : decodeRecord (buf.drop pos) = .ok hdr) :
    34 ≤ hdr.recordLength.toNat ∧ pos + hdr.recordLength.toNat ≤ buf.length := by
  obtain ⟨_, _, hlen, hle, _⟩ := decodeRecord_eq_ok_iff.mp h
  rw [kRecordOverhead_eq] at hlen hle
  rw [List.length_drop] at hle
  omega

theorem acceptedRanges_ok {buf : Bytes} {pos : Nat} {hdr : RecordHeader}
    (hle : pos + kRecordHeaderSize ≤ buf.length) (hok : decodeRecord (buf.drop pos) = .ok hdr) :
    acceptedRanges buf pos =
      (pos, hdr.recordLength.toNat) :: acceptedRanges buf (pos + hdr.recordLength.toNat) := by
  rw [acceptedRanges, acceptedFrom_ok hle hok, List.map_cons, acceptedRanges]

theorem acceptedRanges_error {buf : Bytes} {pos : Nat} {err : RecordError}
    (hle : pos + kRecordHeaderSize ≤ buf.length) (herr : decodeRecord (buf.drop pos) = .error err) :
    acceptedRanges buf pos = acceptedRanges buf (pos + 1) := by
  rw [acceptedRanges, acceptedFrom_error hle herr, acceptedRanges]

theorem acceptedRanges_disposed (buf : Bytes) (pos : Nat) :
    Disposed pos buf.length (acceptedRanges buf pos) := by
  fun_induction acceptedFrom buf pos with
  | case1 pos hle hdr hdec ih =>
    rw [acceptedRanges_ok hle hdec]
    exact Disposed.cons (le_refl _) (decodeRecord_recordLength hdec).2 ih
  | case2 pos hle err hdec ih =>
    rw [acceptedRanges_error hle hdec]
    exact ih.mono (Nat.le_succ pos)
  | case3 pos hle =>
    rw [acceptedRanges, acceptedFrom_end hle]
    exact Disposed.nil _ _

theorem acceptedFrom_decodes {buf : Bytes} {pos : Nat} {a : Nat × ReplayRecord}
    (ha : a ∈ acceptedFrom buf pos) :
    decodeRecord (buf.drop a.1) = .ok a.2.header ∧
      a.2.payload = recordPayload (buf.drop a.1) a.2.header := by
  fun_induction acceptedFrom buf pos with
  | case1 pos hle hdr hdec ih =>
    rcases List.mem_cons.mp ha with rfl | ha
    · exact ⟨hdec, rfl⟩
    · exact ih ha
  | case2 pos hle err hdec ih => exact ih ha
  | case3 pos hle => cases ha

theorem uncovered_fails {buf : Bytes} {pos p : Nat} (hpos : pos ≤ p)
    (hp : p + kRecordHeaderSize ≤ buf.length) (hun : Uncovered (acceptedRanges buf pos) p) :
    ∃ err, decodeRecord (buf.drop p) = .error err := by
  fun_induction acceptedFrom buf pos with
  | case1 pos hle hdr hdec ih =>
    rw [acceptedRanges_ok hle hdec] at hun
    by_cases hin : p < pos + hdr.recordLength.toNat
    · exact absurd ⟨hpos, hin⟩ (hun _ List.mem_cons_self)
    · exact ih (Nat.le_of_not_lt hin) fun r hr => hun r (List.mem_cons_of_mem _ hr)
  | case2 pos hle err hdec ih =>
    rw [acceptedRanges_error hle hdec] at hun
    rcases Nat.eq_or_lt_of_le hpos with rfl | hlt
    · exact ⟨err, hdec⟩
    · exact ih hlt hun
  | case3 pos hle => omega

/-- From `pos` on, `G` holds where nothing is accepted, and the run flag tells whether it
holds just before. -/
structure ScanState (buf : Bytes) (G : Nat → Prop) (pos : Nat) (run : Bool) : Prop where
  skipped : ∀ p, pos ≤ p → (G p ↔ Uncovered (acceptedRanges buf pos) p)
  flag : run = true ↔ pos ≠ 0 ∧ G (pos - 1)

theorem ScanState.ok {buf : Bytes} {G : Nat → Prop} {pos : Nat} {run : Bool} {hdr : RecordHeader}
    (h : ScanState buf G pos run) (hle : pos + kRecordHeaderSize ≤ buf.length)
    (hok : decodeRecord (buf.drop pos) = .ok hdr) :
    (∀ p, pos ≤ p → p < pos + hdr.recordLength.toNat → ¬ G p) ∧
      ScanState buf G (pos + hdr.recordLength.toNat) false := by
  have hlen := (decodeRecord_recordLength hok).1
  have hin : ∀ p, pos ≤ p → p < pos + hdr.recordLength.toNat → ¬ G p := by
    intro p hlo hhi hG
    have hun := (h.skipped p hlo).mp hG
    rw [acceptedRanges_ok hle hok] at hun
    exact hun _ List.mem_cons_self ⟨hlo, hhi⟩
  refine ⟨hin, fun p hp => ?_, ?_⟩
  · rw [h.skipped p (by omega), acceptedRanges_ok hle hok]
    exact uncovered_cons hp
  · simp only [Bool.false_eq_true, false_iff, not_and]
    exact fun _ => hin _ (by omega) (by omega)

theorem ScanState.error {buf : Bytes} {G : Nat → Prop} {pos : Nat} {run : Bool} {err : RecordError}
    (h : ScanState buf G pos run) (hle : pos + kRecordHeaderSize ≤ buf.length)
    (herr : decodeRecord (buf.drop pos) = .error err) :
    G pos ∧ ScanState buf G (pos + 1) true := by
  have hG : G pos := by
    rw [h.skipped pos (le_refl _), acceptedRanges_error hle herr]
    exact (acceptedRanges_disposed buf (pos + 1)).uncovered_of_lt (Nat.lt_succ_self pos)
  refine ⟨hG, fun p hp => ?_, ?_⟩
  · rw [h.skipped p (by omega), acceptedRanges_error hle herr]
  · simpa using hG

theorem ScanState.tail {buf : Bytes} {G : Nat → Prop} {pos : Nat} {run : Bool}
    (h : ScanState buf G pos run) (hle : ¬ pos + kRecordHeaderSize ≤ buf.length) :
    ∀ p, pos ≤ p → G p := by
  intro p hp
  rw [h.skipped p hp, acceptedRanges, acceptedFrom_end hle]
  exact fun r hr => absurd hr List.not_mem_nil

theorem ScanState.runStart_iff {buf : Bytes} {G : Nat → Prop} {pos : Nat} {run : Bool}
    (h : ScanState buf G pos run) (hG : G pos) : RunStart G pos ↔ run = false := by
  rw [← Bool.not_eq_true, h.flag, RunStart]
  rcases Nat.eq_zero_or_pos pos with rfl | hpos
  · simp [hG]
  · simp [hG, Nat.ne_of_gt hpos]

/-- The counters go up by what is found from `pos` on. -/
theorem WalReader.scan_stats (segId : UInt32) (buf : Bytes) (G : Nat → Prop) [DecidablePred G]
    (pos : Nat) (run : Bool) (r : WalReader) (hpos : pos ≤ buf.length)
    (h : ScanState buf G pos run) :
    (WalReader.scan segId buf pos run r).stats =
      { r.stats with
        recordsOk := r.stats.recordsOk + (acceptedFrom buf pos).length
        recordsCorruptSkipped :=
          r.stats.recordsCorruptSkipped + #{p ∈ Ico pos buf.length | RunStart G p}
        bytesSkipped := r.stats.bytesSkipped + #{p ∈ Ico pos buf.length | G p} } := by
  fun_induction WalReader.scan segId buf pos run r with
  | case1 pos run r hle hdr hdec rr ih =>
    have hend := (decodeRecord_recordLength hdec).2
    obtain ⟨hin, hnext⟩ := h.ok hle hdec
    have hstart : ∀ p, pos ≤ p → p < pos + hdr.recordLength.toNat → ¬ RunStart G p :=
      fun p hlo hhi hs => hin p hlo hhi hs.1
    rw [ih hend hnext, acceptedFrom_ok hle hdec,
      card_filter_Ico_add (Nat.le_add_right pos hdr.recordLength.toNat) hend,
      card_filter_Ico_none hstart,
      card_filter_Ico_add (P := G) (Nat.le_add_right pos hdr.recordLength.toNat) hend,
      card_filter_Ico_none hin]
    simp only [WalReader.accept, List.length_cons, Nat.zero_add, Nat.add_assoc, Nat.add_comm 1]
  | case2 pos run r hle err hdec ih =>
    have hlt : pos < buf.length := by
      rw [kRecordHeaderSize_eq] at hle
      omega
    obtain ⟨hG, hnext⟩ := h.error hle hdec
    have hstart := h.runStart_iff hG
    rw [ih hlt hnext, acceptedFrom_error hle hdec, card_filter_Ico_succ hlt,
      card_filter_Ico_succ (P := G) hlt, if_pos hG]
    cases run <;> simp [hstart, WalReader.skip, Nat.add_assoc]
  | case3 pos run r hle hlt =>
    have hall := h.tail hle
    have hstart := h.runStart_iff (hall pos (le_refl _))
    have hrest : ∀ p, pos + 1 ≤ p → p < buf.length → ¬ RunStart G p := by
      intro p hp _ hs
      rcases hs.2 with hzero | hbefore
      · omega
      · exact hbefore (hall _ (by omega))
    rw [acceptedFrom_end hle, card_filter_Ico_succ hlt, card_filter_Ico_none hrest,
      card_filter_Ico_all fun p hp _ => hall p hp]
    cases run <;> simp [hstart, WalReader.skip]
  | case4 pos run r hle hlt =>
    have hend : pos = buf.length := by omega
    rw [acceptedFrom_end hle, hend]
    simp

def indexEntry (segId : UInt32) (a : Nat × ReplayRecord) : IndexEntry :=
  { timestampNs := a.2.header.timestampNs, segmentId := segId, offset := a.1
    recordLength := a.2.header.recordLength }

def indexed (seg : UInt32 × File) : List IndexEntry :=
  (acceptedFrom seg.2.2 0).map (indexEntry seg.1)

def skippedBytes (buf : Bytes) : Nat := #{p ∈ Ico 0 buf.length | Skipped buf p}

def skippedRuns (buf : Bytes) : Nat := #(maximalRuns (Skipped buf) buf.length)

theorem WalReader.scan_index (segId : UInt32) (buf : Bytes) (pos : Nat) (run : Bool)
    (r : WalReader) :
    (WalReader.scan segId buf pos run r).index.entries =
      r.index.entries ++ (acceptedFrom buf pos).map (indexEntry segId) := by
  fun_induction WalReader.scan segId buf pos run r with
  | case1 pos run r hle hdr hdec rr ih =>
    rw [ih, acceptedFrom_ok hle hdec]
    simp [WalReader.accept, ReplayIndex.add, indexEntry, rr]
  | case2 pos run r hle err hdec ih =>
    rw [ih, acceptedFrom_error hle hdec]
    rfl
  | case3 pos run r hle hlt =>
    rw [acceptedFrom_end hle]
    simp [WalReader.skip]
  | case4 pos run r hle hlt =>
    rw [acceptedFrom_end hle]
    simp

theorem acceptedFrom_empty {buf : Bytes} (h : buf.length = 0) : acceptedFrom buf 0 = [] :=
  acceptedFrom_end (by rw [kRecordHeaderSize_eq]; omega)

theorem WalReader.readSegment_index (r : WalReader) (seg : UInt32 × File) :
    (r.readSegment seg).index.entries = r.index.entries ++ indexed seg := by
  simp only [WalReader.readSegment]
  split
  · next hempty => rw [indexed, acceptedFrom_empty hempty, List.map_nil, List.append_nil]
  · exact WalReader.scan_index _ _ _ _ _

theorem WalReader.readSegments_index (segs : List (UInt32 × File)) (r : WalReader) :
    (segs.foldl WalReader.readSegment r).index.entries =
      r.index.entries ++ segs.flatMap indexed :=
  WalReader.readSegments_append (f := fun r => r.index.entries) WalReader.readSegment_index segs r

theorem ReplayIndex.finalize_perm (index : ReplayIndex) :
    index.finalize.entries.Perm index.entries := by
  unfold ReplayIndex.finalize
  split
  · exact stableSort_perm _ _
  · exact List.Perm.refl _

theorem WalReader.readSegment_counts (r : WalReader) (seg : UInt32 × File) :
    (r.readSegment seg).stats =
      { recordsOk := r.stats.recordsOk + (segmentRecords seg).length
        recordsCorruptSkipped := r.stats.recordsCorruptSkipped + skippedRuns seg.2.2
        bytesSkipped := r.stats.bytesSkipped + skippedBytes seg.2.2
        segmentsRead := r.stats.segmentsRead + 1 } := by
  simp only [WalReader.readSegment]
  split
  · next hempty =>
    rw [segmentRecords, acceptedFrom_empty hempty, skippedRuns, card_maximalRuns, skippedBytes,
      hempty]
    simp
  · have hstate : ScanState seg.2.2 (Skipped seg.2.2) 0 false := ⟨fun p _ => Iff.rfl, by simp⟩
    rw [WalReader.scan_stats seg.1 seg.2.2 (Skipped seg.2.2) 0 false _ (Nat.zero_le _) hstate,
      skippedRuns, card_maximalRuns, segmentRecords, List.length_map]
    rfl

theorem WalReader.readSegments_counts (segs : List (UInt32 × File)) (r : WalReader) :
    (segs.foldl WalReader.readSegment r).stats =
      { recordsOk := r.stats.recordsOk + (segs.map fun seg => (segmentRecords seg).length).sum
        recordsCorruptSkipped :=
          r.stats.recordsCorruptSkipped + (segs.map fun seg => skippedRuns seg.2.2).sum
        bytesSkipped := r.stats.bytesSkipped + (segs.map fun seg => skippedBytes seg.2.2).sum
        segmentsRead := r.stats.segmentsRead + segs.length.toUInt32 } := by
  induction segs generalizing r with
  | nil => simp
  | cons seg segs ih =>
    rw [List.foldl_cons, ih, WalReader.readSegment_counts]
    have hcount : (segs.length + 1).toUInt32 = 1 + segs.length.toUInt32 :=
      (UInt32.ofNat_add segs.length 1).trans (UInt32.add_comm _ _)
    simp only [List.map_cons, List.sum_cons, List.length_cons, Nat.add_assoc, UInt32.add_assoc,
      hcount]

/-- A segment is divided into the records that are accepted, in the order of their
offsets, and the bytes that are skipped. -/
structure Accounted (buf : Bytes) : Prop where
  decodes : ∀ a ∈ acceptedFrom buf 0, decodeRecord (buf.drop a.1) = .ok a.2.header ∧
    a.2.payload = recordPayload (buf.drop a.1) a.2.header
  disposed : Disposed 0 buf.length (acceptedRanges buf 0)
  once : ∀ p < buf.length, Skipped buf p ∨ ∃! r, r ∈ acceptedRanges buf 0 ∧ r.Covers p
  missed : ∀ p, Skipped buf p → p + kRecordHeaderSize ≤ buf.length →
    ∃ err, decodeRecord (buf.drop p) = .error err

theorem accounted (buf : Bytes) : Accounted buf := by
  refine ⟨fun a ha => acceptedFrom_decodes ha, acceptedRanges_disposed buf 0, ?_, ?_⟩
  · intro p _
    by_cases hskip : Skipped buf p
    · exact .inl hskip
    · exact .inr ((acceptedRanges_disposed buf 0).covered_once hskip)
  · exact fun p hskip hp => uncovered_fails (Nat.zero_le p) hp hskip

theorem segment_length (seg : UInt32 × File) :
    ((segmentRecords seg).map fun rr => rr.header.recordLength.toNat).sum +
      skippedBytes seg.2.2 = seg.2.2.length := by
  have hsum := (acceptedRanges_disposed seg.2.2 0).sum_add_uncovered (Nat.zero_le _)
  rw [acceptedRanges, List.map_map] at hsum
  rw [segmentRecords, List.map_map]
  exact hsum

theorem segments_length (segs : List (UInt32 × File)) :
    ((segs.flatMap segmentRecords).map fun rr => rr.header.recordLength.toNat).sum +
      (segs.map fun seg => skippedBytes seg.2.2).sum =
        (segs.map fun seg => seg.2.2.length).sum := by
  induction segs with
  | nil => rfl
  | cons seg segs ih =>
    have hseg := segment_length seg
    simp only [List.flatMap_cons, List.map_append, List.sum_append, List.map_cons, List.sum_cons]
    omega

/-- Whatever the files hold, every byte that the reader goes through is in one accepted
record or skipped, nothing that decodes is skipped, and the counters say so. -/
theorem recovery_accounts (listing : List File) :
    (∀ seg ∈ orderedSegments listing, Accounted seg.2.2) ∧
    (WalReader.load listing).records.Perm ((orderedSegments listing).flatMap segmentRecords) ∧
    (WalReader.load listing).index.entries.Perm ((orderedSegments listing).flatMap indexed) ∧
    (WalReader.load listing).stats =
      { recordsOk := (WalReader.load listing).records.length
        recordsCorruptSkipped :=
          ((orderedSegments listing).map fun seg => skippedRuns seg.2.2).sum
        bytesSkipped := ((orderedSegments listing).map fun seg => skippedBytes seg.2.2).sum
        segmentsRead := (orderedSegments listing).length.toUInt32 } ∧
    ((WalReader.load listing).records.map fun rr => rr.header.recordLength.toNat).sum +
      (WalReader.load listing).stats.bytesSkipped =
        ((orderedSegments listing).map fun seg => seg.2.2.length).sum := by
  have hrecords : (WalReader.load listing).records.Perm
      ((orderedSegments listing).flatMap segmentRecords) := by
    rw [WalReader.load_records]
    exact stableSort_perm _ _
  have hcounts : (WalReader.load listing).stats = _ := WalReader.readSegments_counts _ {}
  refine ⟨fun seg _ => accounted seg.2.2, hrecords, ?_, ?_, ?_⟩
  · have hindex := WalReader.readSegments_index (orderedSegments listing) {}
    exact (ReplayIndex.finalize_perm _).trans (List.Perm.of_eq hindex)
  · rw [hcounts, hrecords.length_eq, List.length_flatMap]
    simp only [Nat.zero_add, UInt32.zero_add]
  · rw [hcounts, (hrecords.map _).sum_eq, ← segments_length]
    simp only [Nat.zero_add]

end SensorForge.Replay
