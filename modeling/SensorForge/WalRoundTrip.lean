import SensorForge.WalReader

/-! Reading a directory back: every file written by a session is found, in the order in
which it was opened, and scanned without a gap. -/

namespace SensorForge.Replay

open StableSort

/-- The files of consecutive segments, with the numbers they are found under. -/
def numbered : Nat → List (List ReplayRecord) → List (UInt32 × File)
  | _, [] => []
  | first, s :: rest =>
    (first.toUInt32, ⟨segmentFilename first.toUInt32, imageOf s⟩) :: numbered (first + 1) rest

def segmentRecords (seg : UInt32 × File) : List ReplayRecord :=
  (acceptedFrom seg.2.2 0).map Prod.snd

theorem WalReader.readSegment_records (r : WalReader) (seg : UInt32 × File) :
    (r.readSegment seg).records = r.records ++ segmentRecords seg := by
  simp only [WalReader.readSegment]
  split
  · next hempty =>
    have hnone : ¬ 0 + kRecordHeaderSize ≤ seg.2.2.length := by
      rw [kRecordHeaderSize_eq]
      omega
    rw [segmentRecords, acceptedFrom_end hnone, List.map_nil, List.append_nil]
  · exact WalReader.scan_records _ _ _ _ _

/-- What every segment adds to a list of the reader, all of them add in their order. -/
theorem WalReader.readSegments_append {β : Type} {f : WalReader → List β}
    {g : UInt32 × File → List β} (h : ∀ r seg, f (r.readSegment seg) = f r ++ g seg)
    (segs : List (UInt32 × File)) (r : WalReader) :
    f (segs.foldl WalReader.readSegment r) = f r ++ segs.flatMap g := by
  induction segs generalizing r with
  | nil => simp
  | cons seg segs ih => rw [List.foldl_cons, ih, h, List.append_assoc, List.flatMap_cons]

theorem WalReader.readSegments_records (segs : List (UInt32 × File)) (r : WalReader) :
    (segs.foldl WalReader.readSegment r).records = r.records ++ segs.flatMap segmentRecords :=
  WalReader.readSegments_append WalReader.readSegment_records segs r

theorem WalReader.load_records (listing : List File) :
    (WalReader.load listing).records =
      stableSort recordLt ((orderedSegments listing).flatMap segmentRecords) := by
  rw [WalReader.load, WalReader.readSegments_records, List.nil_append]

theorem numbered_records (first : Nat) {segs : List (List ReplayRecord)}
    (hv : ∀ s ∈ segs, ∀ rr ∈ s, rr.Valid) :
    (numbered first segs).flatMap segmentRecords = segs.flatten := by
  induction segs generalizing first with
  | nil => rfl
  | cons s rest ih =>
    rw [numbered, List.flatMap_cons, ih (first + 1) (fun t ht => hv t (List.mem_cons_of_mem s ht)),
      segmentRecords, acceptedFrom_image (hv s List.mem_cons_self), List.flatten_cons]

theorem WalReader.readSegment_stats (r : WalReader) (id : UInt32) (name : String)
    {s : List ReplayRecord} (hv : ∀ rr ∈ s, rr.Valid) :
    (r.readSegment (id, ⟨name, imageOf s⟩)).stats =
      { r.stats with
        recordsOk := r.stats.recordsOk + s.length
        segmentsRead := r.stats.segmentsRead + 1 } := by
  simp only [WalReader.readSegment]
  split
  · next hempty =>
    have hs : s = [] := imageOf_eq_nil.mp (List.length_eq_zero_iff.mp hempty)
    simp [hs]
  · exact WalReader.scan_image_stats id hv List.drop_zero false _

theorem WalReader.readSegments_stats (first : Nat) {segs : List (List ReplayRecord)}
    (hv : ∀ s ∈ segs, ∀ rr ∈ s, rr.Valid) (r : WalReader) :
    ((numbered first segs).foldl WalReader.readSegment r).stats =
      { r.stats with
        recordsOk := r.stats.recordsOk + segs.flatten.length
        segmentsRead := r.stats.segmentsRead + segs.length.toUInt32 } := by
  induction segs generalizing first r with
  | nil => simp [numbered]
  | cons s rest ih =>
    rw [numbered, List.foldl_cons, ih (first + 1) (fun t ht => hv t (List.mem_cons_of_mem s ht)),
      WalReader.readSegment_stats r _ _ (hv s List.mem_cons_self)]
    simp [Nat.add_assoc, UInt32.add_assoc, UInt32.add_comm 1]

theorem toNat_toUInt32 {n : Nat} (h : n < 2 ^ 32) : n.toUInt32.toNat = n :=
  Nat.mod_eq_of_lt h

theorem numbered_id {first : Nat} {segs : List (List ReplayRecord)}
    (h : first + segs.length ≤ 2 ^ 32) {x : UInt32 × File} (hx : x ∈ numbered first segs) :
    first ≤ x.1.toNat ∧ x.1.toNat < first + segs.length ∧ x.2.1 = segmentFilename x.1 := by
  induction segs generalizing first with
  | nil => cases hx
  | cons s rest ih =>
    rw [List.length_cons] at h ⊢
    rcases List.mem_cons.mp hx with rfl | hx
    · rw [toNat_toUInt32 (by omega)]
      exact ⟨le_refl _, by omega, rfl⟩
    · obtain ⟨hlo, hhi, hname⟩ := ih (by omega) hx
      exact ⟨by omega, by omega, hname⟩

theorem numbered_pairwise {first : Nat} {segs : List (List ReplayRecord)}
    (h : first + segs.length ≤ 2 ^ 32) :
    (numbered first segs).Pairwise fun a b => a.1.toNat < b.1.toNat := by
  induction segs generalizing first with
  | nil => exact List.Pairwise.nil
  | cons s rest ih =>
    rw [List.length_cons] at h
    refine List.Pairwise.cons ?_ (ih (by omega))
    intro b hb
    have hlen : first + 1 + rest.length ≤ 2 ^ 32 := by omega
    have hlo := (numbered_id hlen hb).1
    rw [toNat_toUInt32 (by omega)]
    omega

theorem segmentFiles_numbered {first : Nat} {segs : List (List ReplayRecord)}
    (hfirst : 0 < first) (h : first + segs.length ≤ 2 ^ 32) :
    segmentFiles ((numbered first segs).map Prod.snd) = numbered first segs := by
  rw [segmentFiles, List.filterMap_map]
  refine (List.filterMap_congr ?_).trans List.filterMap_some
  intro x hx
  obtain ⟨hlo, _, hname⟩ := numbered_id h hx
  have hid : segmentIdFromFilename x.2.1 = x.1 := by
    rw [hname, segmentIdFromFilename_segmentFilename]
  have hne : x.1 ≠ 0 := by
    intro h0
    rw [h0] at hlo
    exact absurd hlo (by simp; omega)
  simp [hid, hne]

theorem segmentLt_iff (a b : UInt32 × File) :
    segmentLt a b = true ↔ toLex (a.1.toNat, a.2.1) < toLex (b.1.toNat, b.2.1) := by
  rw [Prod.Lex.toLex_lt_toLex, segmentLt]
  simp only [Bool.or_eq_true, Bool.and_eq_true, Bool.not_eq_true', decide_eq_true_eq,
    decide_eq_false_iff_not, UInt32.lt_iff_toNat_lt]
  constructor
  · rintro (h | ⟨h, hn⟩)
    · exact .inl h
    · by_cases hab : a.1.toNat < b.1.toNat
      · exact .inl hab
      · exact .inr ⟨by omega, hn⟩
  · rintro (h | ⟨h, hn⟩)
    · exact .inl h
    · exact .inr ⟨by omega, hn⟩

theorem orderedSegments_numbered {first : Nat} {segs : List (List ReplayRecord)}
    (hfirst : 0 < first) (h : first + segs.length ≤ 2 ^ 32) {listing : List File}
    (hl : listing.Perm ((numbered first segs).map Prod.snd)) :
    orderedSegments listing = numbered first segs := by
  have hperm : (segmentFiles listing).Perm (numbered first segs) := by
    rw [← segmentFiles_numbered hfirst h]
    exact hl.filterMap _
  refine stableSort_eq_of_perm segmentLt_iff hperm ((numbered_pairwise h).imp ?_)
  intro a b hab
  exact Prod.Lex.toLex_lt_toLex.mpr (.inl hab)

theorem Directory.writeSegments_entries {first : Nat} {segs : List (List ReplayRecord)}
    (h : first + segs.length ≤ 2 ^ 32) {dir : Directory}
    (hfree : ∀ x ∈ numbered first segs, x.2.1 ∉ dir) :
    (dir.writeSegments first segs).entries.Perm
      ((numbered first segs).map Prod.snd ++ dir.entries) := by
  induction segs generalizing first dir with
  | nil => exact List.Perm.refl _
  | cons s rest ih =>
    rw [List.length_cons] at h
    have hfresh : segmentFilename first.toUInt32 ∉ dir := hfree _ List.mem_cons_self
    have hrest : ∀ x ∈ numbered (first + 1) rest,
        x.2.1 ∉ dir.insert (segmentFilename first.toUInt32) (imageOf s) := by
      intro x hx hmem
      obtain ⟨hlo, _, hname⟩ := numbered_id (by omega) hx
      rcases AList.mem_insert _ |>.mp hmem with heq | hmem
      · have hid := segmentFilename_injective (hname.symm.trans heq)
        rw [hid, toNat_toUInt32 (by omega)] at hlo
        omega
      · exact hfree x (List.mem_cons_of_mem _ hx) hmem
    have hh := ih (by omega) hrest
    rw [AList.entries_insert_of_notMem hfresh] at hh
    exact hh.trans List.perm_middle

theorem WalReader.load_segments {segs : List (List ReplayRecord)} (h : segs.length < 2 ^ 32)
    (hv : ∀ s ∈ segs, ∀ rr ∈ s, rr.Valid) {listing : List File}
    (hl : listing.Perm (Directory.writeSegments ∅ 1 segs).entries) :
    (WalReader.load listing).records = stableSort recordLt segs.flatten ∧
      (WalReader.load listing).stats =
        { recordsOk := segs.flatten.length, segmentsRead := segs.length.toUInt32 } := by
  have hbound : 1 + segs.length ≤ 2 ^ 32 := by omega
  have hfree : ∀ x ∈ numbered 1 segs, x.2.1 ∉ (∅ : Directory) := fun x _ => AList.notMem_empty _
  have hentries := Directory.writeSegments_entries hbound hfree
  have hordered : orderedSegments listing = numbered 1 segs := by
    refine orderedSegments_numbered one_pos hbound (hl.trans ?_)
    simpa using hentries
  refine ⟨?_, ?_⟩
  · rw [WalReader.load_records, hordered, numbered_records 1 hv]
  · have hstats := WalReader.readSegments_stats 1 hv {}
    simp only [WalReader.load, hordered, hstats]
    simp

theorem layoutOf_valid (segmentBytes : Nat) (calls : List AppendCall) :
    ∀ s ∈ (layoutOf segmentBytes (appended calls)).segments, ∀ rr ∈ s, rr.Valid := by
  intro s hs rr hrr
  have hmem : rr ∈ (layoutOf segmentBytes (appended calls)).segments.flatten :=
    List.mem_flatten.mpr ⟨s, hs, hrr⟩
  rw [layoutOf_flatten] at hmem
  exact appended_valid calls rr hmem

theorem recordLt_iff (a b : ReplayRecord) :
    recordLt a b = true ↔
      toLex (a.header.timestampNs.toNat, a.header.sequence.toNat) <
        toLex (b.header.timestampNs.toNat, b.header.sequence.toNat) := by
  rw [Prod.Lex.toLex_lt_toLex, recordLt]
  by_cases heq : a.header.timestampNs = b.header.timestampNs
  · simp [heq, UInt64.lt_iff_toNat_lt]
  · have hne : a.header.timestampNs.toNat ≠ b.header.timestampNs.toNat :=
      fun he => heq (UInt64.toNat_inj.mp he)
    simp [heq, hne, UInt64.lt_iff_toNat_lt]

theorem WalReader.replay_sorted {r : WalReader} {rs : List ReplayRecord}
    (hr : r.records = stableSort recordLt rs) (startNs : UInt64) :
    r.replay startNs =
      (r.records.filter (fun rr => startNs ≤ rr.header.timestampNs),
        (r.records.filter (fun rr => startNs ≤ rr.header.timestampNs)).length) := by
  have hsorted : r.records.Pairwise
      fun a b => a.header.timestampNs.toNat ≤ b.header.timestampNs.toNat := by
    rw [hr]
    refine (stableSort_sorted recordLt_iff rs).imp ?_
    intro a b hab
    rcases Prod.Lex.toLex_le_toLex.mp hab with h | h
    · exact le_of_lt h
    · exact le_of_eq h.1
  have hdrop := drop_lowerBound (fun rr : ReplayRecord => rr.header.timestampNs.toNat)
    startNs.toNat hsorted
  simp only [← UInt64.lt_iff_toNat_lt, ← UInt64.le_iff_toNat_le] at hdrop
  simp only [WalReader.replay, hdrop]

/-- Writing any sequence of records to a fresh directory and reading it back gives the
stable sort of the records, with nothing skipped, and replays deliver it from any
start time. -/
theorem wal_round_trip (segmentBytes : Nat) (calls : List AppendCall)
    (hsegs : segmentCount segmentBytes calls < 2 ^ 32) (listing : List File)
    (hl : listing.Perm (WalWriter.session ∅ segmentBytes calls).2.entries) :
    (WalReader.load listing).records = stableSort recordLt (appended calls) ∧
      (WalReader.load listing).stats.recordsCorruptSkipped = 0 ∧
      (WalReader.load listing).stats.bytesSkipped = 0 ∧
      ∀ startNs, (WalReader.load listing).replay startNs =
        ((stableSort recordLt (appended calls)).filter fun rr => startNs ≤ rr.header.timestampNs,
          ((stableSort recordLt (appended calls)).filter
            fun rr => startNs ≤ rr.header.timestampNs).length) := by
  rw [(WalWriter.session_realizes ∅ segmentBytes calls).files] at hl
  obtain ⟨hrecords, hstats⟩ := WalReader.load_segments hsegs (layoutOf_valid segmentBytes calls) hl
  rw [layoutOf_flatten] at hrecords
  refine ⟨hrecords, by rw [hstats], by rw [hstats], ?_⟩
  intro startNs
  rw [WalReader.replay_sorted hrecords, hrecords]

def reversedCalls : List AppendCall :=
  [{ timestampNs := 9, sensorType := .kLidar, sequence := 0, payload := [0xAB] },
    { timestampNs := 5, sensorType := .kCamera, sequence := 1, payload := [] }]

theorem wal_round_trip_reversed :
    segmentCount 1 reversedCalls = 2 ∧
      (WalReader.load (WalWriter.session ∅ 1 reversedCalls).2.entries).records =
        stableSort recordLt (appended reversedCalls) := by
  have hcount : segmentCount 1 reversedCalls = 2 := by decide
  exact ⟨hcount, (wal_round_trip 1 reversedCalls (by rw [hcount]; decide) _ (List.Perm.refl _)).1⟩

end SensorForge.Replay
