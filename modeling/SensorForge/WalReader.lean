import SensorForge.WalWriter

/-! The reader: segments in numeric order, the resynchronizing scan of each, and the
stable sort by timestamp and sequence. -/

namespace SensorForge.Replay

open StableSort

abbrev File := (_ : String) × Bytes

structure ReplayStats where
  recordsOk : Nat := 0
  recordsCorruptSkipped : Nat := 0
  bytesSkipped : Nat := 0
  segmentsRead : UInt32 := 0
  deriving DecidableEq, Repr

structure WalReader where
  records : List ReplayRecord := []
  index : ReplayIndex := {}
  stats : ReplayStats := {}

def WalReader.accept (r : WalReader) (segId : UInt32) (pos : Nat) (rr : ReplayRecord) : WalReader :=
  { records := r.records ++ [rr]
    index := r.index.add rr.header.timestampNs segId pos rr.header.recordLength
    stats := { r.stats with recordsOk := r.stats.recordsOk + 1 } }

def WalReader.skip (r : WalReader) (inSkipRun : Bool) (n : Nat) : WalReader :=
  { r with stats :=
    { r.stats with
      recordsCorruptSkipped := r.stats.recordsCorruptSkipped + if inSkipRun then 0 else 1
      bytesSkipped := r.stats.bytesSkipped + n } }

/-- The scan loop: on a clean record advance by its length, on any error resync one
byte further on. -/
def WalReader.scan (segId : UInt32) (buf : Bytes) (pos : Nat) (inSkipRun : Bool) (r : WalReader) :
    WalReader :=
  if _h : pos + kRecordHeaderSize ≤ buf.length then
    match hdec : decodeRecord (buf.drop pos) with
    | .ok hdr =>
      let rr : ReplayRecord := { header := hdr, payload := recordPayload (buf.drop pos) hdr }
      WalReader.scan segId buf (pos + hdr.recordLength.toNat) false (r.accept segId pos rr)
    | .error _ => WalReader.scan segId buf (pos + 1) true (r.skip inSkipRun 1)
  else if pos < buf.length then r.skip inSkipRun (buf.length - pos)
  else r
termination_by buf.length - pos
decreasing_by
  · have hlen := (decodeRecord_eq_ok_iff.mp hdec).2.2.1
    rw [kRecordOverhead_eq] at hlen
    rw [kRecordHeaderSize_eq] at _h
    omega
  · rw [kRecordHeaderSize_eq] at _h
    omega

def segmentFiles (listing : List File) : List (UInt32 × File) :=
  listing.filterMap fun f =>
    let id := segmentIdFromFilename f.1
    if id ≠ 0 then some (id, f) else none

def segmentLt (a b : UInt32 × File) : Bool :=
  a.1 < b.1 || (!(b.1 < a.1) && decide (a.2.1 < b.2.1))

def orderedSegments (listing : List File) : List (UInt32 × File) :=
  stableSort segmentLt (segmentFiles listing)

def WalReader.readSegment (r : WalReader) (seg : UInt32 × File) : WalReader :=
  let buf := seg.2.2
  let r := { r with stats := { r.stats with segmentsRead := r.stats.segmentsRead + 1 } }
  if buf.length = 0 then r else WalReader.scan seg.1 buf 0 false r

def recordLt (a b : ReplayRecord) : Bool :=
  if a.header.timestampNs ≠ b.header.timestampNs then
    a.header.timestampNs < b.header.timestampNs
  else a.header.sequence < b.header.sequence

/-- What a reader of the directory holds. `listing` has the entries in the order in
which the directory iterator yields them; a missing directory yields none. -/
def WalReader.load (listing : List File) : WalReader :=
  let r := (orderedSegments listing).foldl WalReader.readSegment {}
  { r with records := stableSort recordLt r.records, index := r.index.finalize }

/-- The records that a replay hands to its callback, and the count it returns. The
other modes deliver the same records at later times. -/
def WalReader.replay (r : WalReader) (startNs : UInt64) : List ReplayRecord × Nat :=
  let first := lowerBound (fun rr => rr.header.timestampNs < startNs) r.records
  let delivered := r.records.drop first
  (delivered, delivered.length)

theorem WalReader.scan_ok (segId : UInt32) {buf : Bytes} {pos : Nat} {hdr : RecordHeader}
    (hle : pos + kRecordHeaderSize ≤ buf.length) (hok : decodeRecord (buf.drop pos) = .ok hdr)
    (run : Bool) (r : WalReader) :
    WalReader.scan segId buf pos run r =
      WalReader.scan segId buf (pos + hdr.recordLength.toNat) false
        (r.accept segId pos { header := hdr, payload := recordPayload (buf.drop pos) hdr }) := by
  rw [WalReader.scan, dif_pos hle]
  split
  · rename_i hdr' hdec
    rw [hok, Except.ok.injEq] at hdec
    rw [hdec]
  · rename_i hdec
    rw [hok] at hdec
    cases hdec

def acceptedFrom (buf : Bytes) (pos : Nat) : List (Nat × ReplayRecord) :=
  if _h : pos + kRecordHeaderSize ≤ buf.length then
    match hdec : decodeRecord (buf.drop pos) with
    | .ok hdr =>
      (pos, { header := hdr, payload := recordPayload (buf.drop pos) hdr }) ::
        acceptedFrom buf (pos + hdr.recordLength.toNat)
    | .error _ => acceptedFrom buf (pos + 1)
  else []
termination_by buf.length - pos
decreasing_by
  · have hlen := (decodeRecord_eq_ok_iff.mp hdec).2.2.1
    rw [kRecordOverhead_eq] at hlen
    rw [kRecordHeaderSize_eq] at _h
    omega
  · rw [kRecordHeaderSize_eq] at _h
    omega

theorem acceptedFrom_ok {buf : Bytes} {pos : Nat} {hdr : RecordHeader}
    (hle : pos + kRecordHeaderSize ≤ buf.length) (hok : decodeRecord (buf.drop pos) = .ok hdr) :
    acceptedFrom buf pos =
      (pos, { header := hdr, payload := recordPayload (buf.drop pos) hdr }) ::
        acceptedFrom buf (pos + hdr.recordLength.toNat) := by
  rw [acceptedFrom, dif_pos hle]
  split
  · rename_i hdr' hdec
    rw [hok, Except.ok.injEq] at hdec
    rw [hdec]
  · rename_i hdec
    rw [hok] at hdec
    cases hdec

theorem acceptedFrom_error {buf : Bytes} {pos : Nat} {err : RecordError}
    (hle : pos + kRecordHeaderSize ≤ buf.length) (herr : decodeRecord (buf.drop pos) = .error err) :
    acceptedFrom buf pos = acceptedFrom buf (pos + 1) := by
  rw [acceptedFrom, dif_pos hle]
  split
  · rename_i hdec
    rw [herr] at hdec
    cases hdec
  · rfl

theorem acceptedFrom_end {buf : Bytes} {pos : Nat}
    (hle : ¬ pos + kRecordHeaderSize ≤ buf.length) : acceptedFrom buf pos = [] := by
  rw [acceptedFrom, dif_neg hle]

theorem WalReader.scan_records (segId : UInt32) (buf : Bytes) (pos : Nat) (run : Bool)
    (r : WalReader) :
    (WalReader.scan segId buf pos run r).records =
      r.records ++ (acceptedFrom buf pos).map Prod.snd := by
  fun_induction WalReader.scan segId buf pos run r with
  | case1 pos run r hle hdr hdec rr ih =>
    rw [ih, acceptedFrom_ok hle hdec]
    simp [WalReader.accept, rr]
  | case2 pos run r hle err hdec ih =>
    rw [ih, acceptedFrom_error hle hdec]
    rfl
  | case3 pos run r hle hlt =>
    rw [acceptedFrom_end hle]
    simp [WalReader.skip]
  | case4 pos run r hle hlt =>
    rw [acceptedFrom_end hle]
    simp

/-- A whole record at `pos` is read and stepped over. -/
theorem record_at {rr : ReplayRecord} (hv : rr.Valid) {buf rest : Bytes} {pos : Nat}
    (hb : buf.drop pos = rr.bytes ++ rest) :
    pos + kRecordHeaderSize ≤ buf.length ∧ decodeRecord (buf.drop pos) = .ok rr.header ∧
      recordPayload (buf.drop pos) rr.header = rr.payload ∧
        buf.drop (pos + rr.header.recordLength.toNat) = rest := by
  have hd : rr.header.Describes rr.payload := hv
  have himage : buf.drop pos = rr.header.record rr.payload ++ rest := hb
  refine ⟨?_, ?_, ?_, ?_⟩
  · have hl := congrArg List.length himage
    simp only [List.length_drop, List.length_append, RecordHeader.record_length] at hl
    rw [kRecordHeaderSize_eq]
    omega
  · rw [himage]
    exact decodeRecord_record hd _
  · rw [himage, recordPayload_record hd]
  · rw [← List.drop_drop, himage, hd.recordLength]
    exact List.drop_left' (by simp)

theorem acceptedFrom_whole {rs : List ReplayRecord} (hv : ∀ rr ∈ rs, rr.Valid) {buf tail : Bytes}
    {pos : Nat} (hb : buf.drop pos = imageOf rs ++ tail) :
    (acceptedFrom buf pos).map Prod.snd =
      rs ++ (acceptedFrom buf (pos + (imageOf rs).length)).map Prod.snd := by
  induction rs generalizing pos with
  | nil => rfl
  | cons rr rs ih =>
    have hrr : rr.Valid := hv rr List.mem_cons_self
    rw [imageOf_cons, List.append_assoc] at hb
    obtain ⟨hle, hok, hpay, hnext⟩ := record_at hrr hb
    have hlen : rr.bytes.length = rr.header.recordLength.toNat := by
      rw [hrr.recordLength]
      exact RecordHeader.record_length _ _
    have hh := ih (fun x hx => hv x (List.mem_cons_of_mem rr hx)) hnext
    rw [acceptedFrom_ok hle hok, List.map_cons, hh, hpay, imageOf_cons, List.length_append, hlen,
      Nat.add_assoc]
    rfl

theorem acceptedFrom_image {rs : List ReplayRecord} (hv : ∀ rr ∈ rs, rr.Valid) :
    (acceptedFrom (imageOf rs) 0).map Prod.snd = rs := by
  have himage : (imageOf rs).drop 0 = imageOf rs ++ [] := by simp
  have hend : ¬ 0 + (imageOf rs).length + kRecordHeaderSize ≤ (imageOf rs).length := by
    rw [kRecordHeaderSize_eq]
    omega
  rw [acceptedFrom_whole hv himage, acceptedFrom_end hend, List.map_nil, List.append_nil]

theorem WalReader.scan_image_stats (segId : UInt32) {buf : Bytes} {rs : List ReplayRecord}
    (hv : ∀ rr ∈ rs, rr.Valid) {pos : Nat} (hb : buf.drop pos = imageOf rs) (run : Bool)
    (r : WalReader) :
    (WalReader.scan segId buf pos run r).stats =
      { r.stats with recordsOk := r.stats.recordsOk + rs.length } := by
  induction rs generalizing pos run r with
  | nil =>
    have hlen : buf.length ≤ pos := by simpa [imageOf] using hb
    rw [WalReader.scan, dif_neg (by rw [kRecordHeaderSize_eq]; omega), if_neg (by omega)]
    rfl
  | cons rr rs ih =>
    rw [imageOf_cons] at hb
    obtain ⟨hle, hok, hpay, hnext⟩ := record_at (hv rr List.mem_cons_self) hb
    have hh := ih (fun x hx => hv x (List.mem_cons_of_mem rr hx)) hnext false
      (r.accept segId pos rr)
    rw [WalReader.scan_ok segId hle hok, hpay, hh]
    simp [WalReader.accept, Nat.add_assoc, Nat.add_comm 1]

end SensorForge.Replay
