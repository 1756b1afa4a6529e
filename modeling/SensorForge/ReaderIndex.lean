import SensorForge.RecoveryScan

/-! When the index that the reader builds lists its entries in the order of the records:
the two are filled together and sorted apart. -/

namespace SensorForge.Replay

open StableSort

/-- The record in the form in which a writer appends it. -/
def ReplayRecord.encoded (rr : ReplayRecord) : Bytes :=
  encodeRecord rr.header.timestampNs rr.header.sensorType rr.header.sequence rr.payload

/-- The segment that the entry names holds `bytes`, and nothing longer or shorter, at the
entry's offset. -/
structure IndexEntry.Holds (listing : List File) (e : IndexEntry) (bytes : Bytes) : Prop where
  segment : ∃ seg ∈ orderedSegments listing, seg.1 = e.segmentId
  stored : ∀ seg ∈ orderedSegments listing, seg.1 = e.segmentId →
    (seg.2.2.drop e.offset).take e.recordLength.toNat = bytes
  length : e.recordLength.toNat = bytes.length

structure IndexMatches (listing : List File) : Prop where
  count : (WalReader.load listing).index.entries.length = (WalReader.load listing).records.length
  stored : ∀ i (he : i < (WalReader.load listing).index.entries.length)
    (hr : i < (WalReader.load listing).records.length),
    ((WalReader.load listing).index.entries[i]).Holds listing
      ((WalReader.load listing).records[i]).encoded
  seek : ∀ t, (WalReader.load listing).index.lowerBound t =
    StableSort.lowerBound (fun rr => rr.header.timestampNs < t) (WalReader.load listing).records

/-- The records that the scan accepts, with the number of their segment and their offset. -/
def located (listing : List File) : List (UInt32 × Nat × ReplayRecord) :=
  (orderedSegments listing).flatMap fun seg => (acceptedFrom seg.2.2 0).map fun a => (seg.1, a)

/-- Among records of one timestamp, the scan meets no sequence after a larger one. -/
def TiesInOrder (listing : List File) : Prop :=
  (located listing).Pairwise fun a b =>
    a.2.2.header.timestampNs = b.2.2.header.timestampNs →
      a.2.2.header.sequence ≤ b.2.2.header.sequence

/-- Files of one number hold the same bytes wherever a record of one of them is. -/
def NumbersAgree (listing : List File) : Prop :=
  ∀ a ∈ located listing, ∀ seg ∈ orderedSegments listing, seg.1 = a.1 →
    (seg.2.2.drop a.2.1).take a.2.2.header.recordLength.toNat = a.2.2.bytes

def locatedLt (a b : UInt32 × Nat × ReplayRecord) : Bool :=
  a.2.2.header.timestampNs < b.2.2.header.timestampNs

theorem locatedLt_iff (a b : UInt32 × Nat × ReplayRecord) :
    locatedLt a b = true ↔
      a.2.2.header.timestampNs.toNat < b.2.2.header.timestampNs.toNat := by
  rw [locatedLt, decide_eq_true_eq, UInt64.lt_iff_toNat_lt]

theorem WalReader.scan_flag (segId : UInt32) (buf : Bytes) (pos : Nat) (run : Bool)
    (r : WalReader) (h : r.index.FlagTrue) :
    (WalReader.scan segId buf pos run r).index.FlagTrue := by
  fun_induction WalReader.scan segId buf pos run r with
  | case1 pos run r hle hdr hdec rr ih => exact ih (h.add _ _ _ _)
  | case2 pos run r hle err hdec ih => exact ih h
  | case3 pos run r hle hlt => exact h
  | case4 pos run r hle hlt => exact h

theorem WalReader.readSegments_flag (segs : List (UInt32 × File)) (r : WalReader)
    (h : r.index.FlagTrue) : (segs.foldl WalReader.readSegment r).index.FlagTrue := by
  induction segs generalizing r with
  | nil => exact h
  | cons seg segs ih =>
    refine ih _ ?_
    simp only [WalReader.readSegment]
    split
    · exact h
    · exact WalReader.scan_flag _ _ _ _ _ h

def locatedEntry (a : UInt32 × Nat × ReplayRecord) : IndexEntry := indexEntry a.1 a.2

theorem load_entries (listing : List File) :
    (WalReader.load listing).index.entries =
      (stableSort locatedLt (located listing)).map locatedEntry := by
  have hflag := WalReader.readSegments_flag (orderedSegments listing) {}
    (fun _ => List.Pairwise.nil)
  have hlist : (orderedSegments listing).flatMap indexed = (located listing).map locatedEntry := by
    rw [located, List.map_flatMap]
    simp only [List.map_map]
    rfl
  rw [WalReader.load, ReplayIndex.finalize_entries hflag, WalReader.readSegments_index,
    List.nil_append, hlist]
  exact stableSort_map (fun a b => rfl) _

theorem located_records (listing : List File) :
    (located listing).map (fun a => a.2.2) =
      (orderedSegments listing).flatMap segmentRecords := by
  rw [located, List.map_flatMap]
  simp only [List.map_map]
  rfl

theorem load_records_located (listing : List File) :
    (WalReader.load listing).records =
      stableSort recordLt ((located listing).map fun a => a.2.2) := by
  rw [WalReader.load_records, located_records]

theorem accepted_stored {buf : Bytes} {a : Nat × ReplayRecord} (ha : a ∈ acceptedFrom buf 0) :
    a.2.Valid ∧ (buf.drop a.1).take a.2.header.recordLength.toNat = a.2.bytes := by
  obtain ⟨hdec, hpay⟩ := acceptedFrom_decodes ha
  obtain ⟨hdesc, himage⟩ := decodeRecord_ok hdec
  rw [← hpay] at hdesc himage
  refine ⟨hdesc, ?_⟩
  rw [himage, ReplayRecord.bytes]
  refine List.take_left' ?_
  rw [RecordHeader.record_length, hdesc.recordLength, kRecordOverhead_eq]

theorem located_stored {listing : List File} {a : UInt32 × Nat × ReplayRecord}
    (ha : a ∈ located listing) :
    a.2.2.Valid ∧ ∃ seg ∈ orderedSegments listing, seg.1 = a.1 ∧
      (seg.2.2.drop a.2.1).take a.2.2.header.recordLength.toNat = a.2.2.bytes := by
  obtain ⟨seg, hseg, hmem⟩ := List.mem_flatMap.mp ha
  obtain ⟨b, hb, rfl⟩ := List.mem_map.mp hmem
  obtain ⟨hv, hbytes⟩ := accepted_stored hb
  exact ⟨hv, seg, hseg, rfl, hbytes⟩

theorem ReplayRecord.Valid.encoded_eq {rr : ReplayRecord} (hv : rr.Valid) :
    rr.encoded = rr.bytes := by
  have hd : rr.header.Describes rr.payload := hv
  have hlen : rr.header.recordLength = (kRecordOverhead + rr.payload.length).toUInt32 := by
    rw [← hd.recordLength]
    simp
  have hsize : rr.header.payloadSize = rr.payload.length.toUInt32 := by
    rw [← hd.payloadSize]
    simp
  have hheader : rr.header = RecordHeader.of rr.header.timestampNs rr.header.sensorType
      rr.header.sequence rr.payload := by
    rw [RecordHeader.of, ← hlen, ← hsize, ← hd.payloadCrc]
  rw [ReplayRecord.encoded, encodeRecord_eq, ← hheader]
  rfl

theorem ReplayRecord.Valid.bytes_inj {rr rr' : ReplayRecord} (hv : rr.Valid) (hv' : rr'.Valid)
    (h : rr.bytes = rr'.bytes) : rr = rr' := by
  have hheader : rr.header = rr'.header := by
    have hh := congrArg RecordHeader.read h
    simpa [ReplayRecord.bytes, RecordHeader.record, List.append_assoc] using hh
  have hpayload : rr.payload = rr'.payload := by
    have hh := congrArg (fun bytes => recordPayload (bytes ++ []) rr.header) h
    simp only [ReplayRecord.bytes] at hh
    rw [recordPayload_record hv, hheader, recordPayload_record hv'] at hh
    exact hh
  cases rr
  cases rr'
  simp_all

def timestampLt (a b : ReplayRecord) : Bool := a.header.timestampNs < b.header.timestampNs

theorem timestampLt_iff (a b : ReplayRecord) : timestampLt a b = true ↔
    a.header.timestampNs.toNat < b.header.timestampNs.toNat := by
  rw [timestampLt, decide_eq_true_eq, UInt64.lt_iff_toNat_lt]

theorem indexOrder_records (listing : List File) :
    (stableSort locatedLt (located listing)).map (fun a => a.2.2) =
      stableSort timestampLt ((located listing).map fun a => a.2.2) := by
  have h : ∀ a b : UInt32 × Nat × ReplayRecord, timestampLt a.2.2 b.2.2 = locatedLt a b :=
    fun _ _ => rfl
  exact (stableSort_map h _).symm

theorem tiesInOrder_iff (listing : List File) :
    TiesInOrder listing ↔
      (WalReader.load listing).records =
        (stableSort locatedLt (located listing)).map fun a => a.2.2 := by
  rw [load_records_located, indexOrder_records, stableSort_lex_eq_iff timestampLt_iff recordLt_iff,
    List.pairwise_map, TiesInOrder]
  simp only [UInt64.toNat_inj, ← UInt64.le_iff_toNat_le]

theorem load_records_valid {listing : List File} {rr : ReplayRecord}
    (hrr : rr ∈ (WalReader.load listing).records) : rr.Valid := by
  rw [load_records_located, (stableSort_perm _ _).mem_iff] at hrr
  obtain ⟨a, ha, rfl⟩ := List.mem_map.mp hrr
  exact (located_stored ha).1

theorem load_count (listing : List File) :
    (WalReader.load listing).index.entries.length = (WalReader.load listing).records.length := by
  rw [load_entries, load_records_located, List.length_map, (stableSort_perm _ _).length_eq,
    (stableSort_perm _ _).length_eq, List.length_map]

/-- Apart from the order among equal timestamps, both sequences are sorted alike. -/
theorem load_timestamps (listing : List File) :
    (WalReader.load listing).index.entries.map (fun e => e.timestampNs.toNat) =
      (WalReader.load listing).records.map fun rr => rr.header.timestampNs.toNat := by
  have hentries := stableSort_sorted locatedLt_iff (located listing)
  have hrecords := stableSort_sorted recordLt_iff ((located listing).map fun a => a.2.2)
  rw [load_entries, load_records_located, List.map_map]
  have hantisymm : ∀ a b : Nat, a ≤ b → b ≤ a → a = b := fun _ _ => le_antisymm
  refine List.Perm.eq_of_pairwise (fun a b _ _ => hantisymm a b) ?_ ?_ ?_
  · exact List.pairwise_map.mpr hentries
  · refine List.pairwise_map.mpr (hrecords.imp ?_)
    intro a b hab
    rcases Prod.Lex.toLex_le_toLex.mp hab with h | h
    · exact le_of_lt h
    · exact le_of_eq h.1
  · have hperm := (stableSort_perm recordLt ((located listing).map fun a => a.2.2)).map
      fun rr => rr.header.timestampNs.toNat
    rw [List.map_map] at hperm
    exact ((stableSort_perm _ _).map _).trans hperm.symm

theorem load_seek (listing : List File) (t : UInt64) :
    (WalReader.load listing).index.lowerBound t =
      StableSort.lowerBound (fun rr => rr.header.timestampNs < t)
        (WalReader.load listing).records := by
  have h := congrArg (StableSort.lowerBound fun n => decide (n < t.toNat)) (load_timestamps listing)
  rw [lowerBound_map, lowerBound_map] at h
  simpa only [ReplayIndex.lowerBound, UInt64.lt_iff_toNat_lt] using h

theorem mem_indexOrder {listing : List File} {a : UInt32 × Nat × ReplayRecord} :
    a ∈ stableSort locatedLt (located listing) ↔ a ∈ located listing :=
  (stableSort_perm _ _).mem_iff

theorem records_of_holds {listing : List File}
    (h : ∀ i (he : i < (WalReader.load listing).index.entries.length)
      (hr : i < (WalReader.load listing).records.length),
      ((WalReader.load listing).index.entries[i]).Holds listing
        ((WalReader.load listing).records[i]).encoded) :
    (WalReader.load listing).records =
      (stableSort locatedLt (located listing)).map fun a => a.2.2 := by
  have hentries := load_entries listing
  have hcount := load_count listing
  refine List.ext_getElem ?_ fun i hr hs => ?_
  · rw [← hcount, hentries, List.length_map, List.length_map]
  · rw [List.length_map] at hs
    have ha := mem_indexOrder.mp (List.getElem_mem hs)
    obtain ⟨hv, seg, hseg, hid, hbytes⟩ := located_stored ha
    have hi := h i (by rw [hcount]; exact hr) hr
    simp only [hentries, List.getElem_map] at hi
    have hvr := load_records_valid (List.getElem_mem hr)
    rw [hvr.encoded_eq] at hi
    rw [List.getElem_map]
    exact hvr.bytes_inj hv ((hi.stored seg hseg hid).symm.trans hbytes)

/-- The entry in each place describes the record in that place exactly when records of
one timestamp are scanned in the order of their sequences and no two files disagree on
what their common number stands for. -/
theorem index_matches_iff (listing : List File) :
    IndexMatches listing ↔ TiesInOrder listing ∧ NumbersAgree listing := by
  have hentries := load_entries listing
  rw [tiesInOrder_iff]
  constructor
  · intro h
    have hrecords := records_of_holds h.stored
    refine ⟨hrecords, fun a ha seg hseg hid => ?_⟩
    obtain ⟨i, hi, rfl⟩ := List.getElem_of_mem (mem_indexOrder.mpr ha)
    have hv := (located_stored ha).1
    have he : i < (WalReader.load listing).index.entries.length := by
      rwa [hentries, List.length_map]
    have hstored := h.stored i he (by rwa [← h.count])
    simp only [hentries, hrecords, List.getElem_map] at hstored
    rw [hv.encoded_eq] at hstored
    exact hstored.stored seg hseg hid
  · rintro ⟨hrecords, hnumbers⟩
    refine ⟨load_count listing, fun i he hr => ?_, load_seek listing⟩
    have hs : i < (stableSort locatedLt (located listing)).length := by
      rwa [hentries, List.length_map] at he
    have ha := mem_indexOrder.mp (List.getElem_mem hs)
    obtain ⟨hv, seg, hseg, hid, hbytes⟩ := located_stored ha
    have hd : RecordHeader.Describes _ _ := hv
    simp only [hentries, hrecords, List.getElem_map]
    rw [hv.encoded_eq]
    refine ⟨⟨seg, hseg, hid⟩, hnumbers _ ha, ?_⟩
    rw [ReplayRecord.bytes, RecordHeader.record_length, ← kRecordOverhead_eq]
    exact hd.recordLength

def tiedRecord (sequence : UInt64) : ReplayRecord :=
  { header := RecordHeader.of 7 .kImu sequence [], payload := [] }

/-- One file, in which the record of the later sequence comes first. -/
def tiedListing : List File :=
  [⟨"segment-000001.sflog", (tiedRecord 1).encoded ++ (tiedRecord 0).encoded⟩]

theorem tiedRecord_valid (sequence : UInt64) : (tiedRecord sequence).Valid :=
  RecordHeader.of_describes _ _ _ (by simp)

theorem tiedListing_records :
    (orderedSegments tiedListing).flatMap segmentRecords = [tiedRecord 1, tiedRecord 0] := by
  have hid : segmentIdFromFilename "segment-000001.sflog" = 1 := by decide
  have hbytes : (tiedRecord 1).encoded ++ (tiedRecord 0).encoded =
      imageOf [tiedRecord 1, tiedRecord 0] := by
    rw [(tiedRecord_valid 1).encoded_eq, (tiedRecord_valid 0).encoded_eq]
    simp [imageOf]
  have hv : ∀ rr ∈ [tiedRecord 1, tiedRecord 0], rr.Valid := by
    simp [tiedRecord_valid]
  have hfiles : orderedSegments tiedListing =
      [(1, ⟨"segment-000001.sflog", imageOf [tiedRecord 1, tiedRecord 0]⟩)] := by
    simp [orderedSegments, segmentFiles, tiedListing, hid, hbytes, stableSort]
  rw [hfiles, List.flatMap_singleton, segmentRecords, acceptedFrom_image hv]

theorem tied_index_swapped : ¬ ∀ listing, IndexMatches listing := by
  intro h
  have hties := (tiesInOrder_iff tiedListing).mpr (records_of_holds (h tiedListing).stored)
  have hrecords : (located tiedListing).map (fun a => a.2.2) = [tiedRecord 1, tiedRecord 0] := by
    rw [located_records, tiedListing_records]
  have hpair : [tiedRecord 1, tiedRecord 0].Pairwise fun a b =>
      a.header.timestampNs = b.header.timestampNs → a.header.sequence ≤ b.header.sequence := by
    rw [← hrecords, List.pairwise_map]
    exact hties
  simp [tiedRecord, RecordHeader.of] at hpair

end SensorForge.Replay
