import SensorForge.RecordCodec
import SensorForge.ReplayIndex
import SensorForge.Segment

/-! The segmented writer over a directory of files, and the layout it realizes: the
appended records cut into consecutive groups, one file each. File operations succeed,
and what is written to a segment is in its file. -/

namespace SensorForge.Replay

open Protocol (SensorType)

/-- A directory maps the names of its regular files to their bytes. -/
abbrev Directory := AList (fun _ : String => Bytes)

def Directory.appendTo (dir : Directory) (name : String) (bytes : Bytes) : Directory :=
  dir.insert name ((dir.lookup name).getD [] ++ bytes)

structure WalWriter where
  segmentBytes : Nat
  out : Option String := none
  currentSegmentId : UInt32 := 0
  currentSegmentOffset : Nat := 0
  recordsWritten : Nat := 0
  index : ReplayIndex := {}

/-- The file is opened with `std::ios::trunc`, whether or not it exists. -/
def WalWriter.openNewSegment (w : WalWriter) (dir : Directory) : WalWriter × Directory :=
  let id := w.currentSegmentId + 1
  let path := segmentFilename id
  ({ w with out := some path, currentSegmentId := id, currentSegmentOffset := 0 },
    dir.insert path [])

def WalWriter.create (dir : Directory) (segmentBytes : Nat) : WalWriter × Directory :=
  WalWriter.openNewSegment
    { segmentBytes := if segmentBytes = 0 then kDefaultSegmentBytes else segmentBytes } dir

structure AppendCall where
  timestampNs : UInt64
  sensorType : SensorType
  sequence : UInt64
  payload : Bytes

def WalWriter.append (w : WalWriter) (dir : Directory) (c : AppendCall) :
    (WalWriter × Directory) × Bool :=
  if c.payload.length > kMaxRecordPayload.toNat then ((w, dir), false) else
  let bytes := encodeRecord c.timestampNs c.sensorType c.sequence c.payload
  let (w, dir) :=
    if w.currentSegmentOffset > 0 ∧ w.currentSegmentOffset + bytes.length > w.segmentBytes then
      w.openNewSegment dir
    else (w, dir)
  match w.out with
  | none => ((w, dir), false)
  | some path =>
    let offset := w.currentSegmentOffset
    (({ w with
        index := w.index.add c.timestampNs w.currentSegmentId offset bytes.length.toUInt32
        currentSegmentOffset := offset + bytes.length
        recordsWritten := w.recordsWritten + 1 },
      dir.appendTo path bytes), true)

def WalWriter.close (w : WalWriter) : WalWriter := { w with out := none }

/-- A writer's lifetime on a directory: construction, then the appends in order. -/
def WalWriter.session (dir : Directory) (segmentBytes : Nat) (calls : List AppendCall) :
    WalWriter × Directory :=
  calls.foldl (fun s c => (s.1.append s.2 c).1) (WalWriter.create dir segmentBytes)

structure ReplayRecord where
  header : RecordHeader
  payload : Bytes
  deriving DecidableEq, Repr

def ReplayRecord.bytes (r : ReplayRecord) : Bytes := r.header.record r.payload

def ReplayRecord.Valid (r : ReplayRecord) : Prop := r.header.Describes r.payload

def AppendCall.record (c : AppendCall) : ReplayRecord :=
  { header := .of c.timestampNs c.sensorType c.sequence c.payload, payload := c.payload }

def AppendCall.fits (c : AppendCall) : Bool := c.payload.length ≤ kMaxRecordPayload.toNat

def appended (calls : List AppendCall) : List ReplayRecord :=
  (calls.filter AppendCall.fits).map AppendCall.record

def imageOf (records : List ReplayRecord) : Bytes := records.flatMap ReplayRecord.bytes

structure Layout where
  closed : List (List ReplayRecord) := []
  current : List ReplayRecord := []

def Layout.segments (l : Layout) : List (List ReplayRecord) := l.closed ++ [l.current]

/-- A record goes to the open segment unless that is non-empty and would outgrow the
limit. -/
def Layout.place (limit : Nat) (l : Layout) (r : ReplayRecord) : Layout :=
  if (imageOf l.current).length > 0 ∧ (imageOf l.current).length + r.bytes.length > limit then
    { closed := l.closed ++ [l.current], current := [r] }
  else { closed := l.closed, current := l.current ++ [r] }

def layoutOf (segmentBytes : Nat) (records : List ReplayRecord) : Layout :=
  records.foldl (Layout.place (if segmentBytes = 0 then kDefaultSegmentBytes else segmentBytes)) {}

def segmentCount (segmentBytes : Nat) (calls : List AppendCall) : Nat :=
  (layoutOf segmentBytes (appended calls)).segments.length

def Directory.writeSegments (dir : Directory) (first : Nat) :
    List (List ReplayRecord) → Directory
  | [] => dir
  | s :: rest =>
    Directory.writeSegments (dir.insert (segmentFilename first.toUInt32) (imageOf s)) (first + 1) rest

theorem AppendCall.fits_iff {c : AppendCall} :
    c.fits = true ↔ c.payload.length ≤ kMaxRecordPayload.toNat := decide_eq_true_iff

theorem AppendCall.record_valid {c : AppendCall} (h : c.fits = true) : c.record.Valid :=
  RecordHeader.of_describes _ _ _ (AppendCall.fits_iff.mp h)

theorem appended_valid (calls : List AppendCall) : ∀ r ∈ appended calls, r.Valid := by
  intro r hr
  simp only [appended, List.mem_map, List.mem_filter] at hr
  obtain ⟨c, ⟨_, hc⟩, rfl⟩ := hr
  exact AppendCall.record_valid hc

@[simp] theorem imageOf_append (as bs : List ReplayRecord) :
    imageOf (as ++ bs) = imageOf as ++ imageOf bs := by
  simp [imageOf]

theorem imageOf_cons (rr : ReplayRecord) (rs : List ReplayRecord) :
    imageOf (rr :: rs) = rr.bytes ++ imageOf rs := rfl

@[simp] theorem imageOf_singleton (r : ReplayRecord) : imageOf [r] = r.bytes := by
  simp [imageOf]

theorem ReplayRecord.bytes_length_pos (r : ReplayRecord) : 0 < r.bytes.length := by
  rw [ReplayRecord.bytes, RecordHeader.record_length]
  omega

theorem imageOf_eq_nil {records : List ReplayRecord} : imageOf records = [] ↔ records = [] := by
  cases records with
  | nil => simp [imageOf]
  | cons r rs =>
    have := r.bytes_length_pos
    simp only [imageOf, List.flatMap_cons, List.append_eq_nil_iff, reduceCtorEq, iff_false, not_and]
    intro h
    simp [h] at this

theorem Directory.writeSegments_append (dir : Directory) (first : Nat)
    (as bs : List (List ReplayRecord)) :
    dir.writeSegments first (as ++ bs) =
      (dir.writeSegments first as).writeSegments (first + as.length) bs := by
  induction as generalizing dir first with
  | nil => rfl
  | cons s as ih =>
    simp only [List.cons_append, Directory.writeSegments, ih, List.length_cons]
    congr 1
    omega

theorem Directory.writeSegments_concat (dir : Directory) (first : Nat)
    (as : List (List ReplayRecord)) (s : List ReplayRecord) :
    dir.writeSegments first (as ++ [s]) =
      (dir.writeSegments first as).insert (segmentFilename (first + as.length).toUInt32)
        (imageOf s) := by
  rw [Directory.writeSegments_append]
  rfl

theorem toUInt32_succ (n : Nat) : (n + 1).toUInt32 = n.toUInt32 + 1 := UInt32.ofNat_add n 1

theorem Layout.place_flatten (limit : Nat) (l : Layout) (r : ReplayRecord) :
    (l.place limit r).segments.flatten = l.segments.flatten ++ [r] := by
  unfold Layout.place
  split <;> simp [Layout.segments]

theorem layoutOf_append_singleton (segmentBytes : Nat) (records : List ReplayRecord)
    (r : ReplayRecord) :
    layoutOf segmentBytes (records ++ [r]) =
      (layoutOf segmentBytes records).place
        (if segmentBytes = 0 then kDefaultSegmentBytes else segmentBytes) r := by
  simp [layoutOf, List.foldl_append]

theorem layoutOf_flatten (segmentBytes : Nat) (records : List ReplayRecord) :
    (layoutOf segmentBytes records).segments.flatten = records := by
  induction records using List.reverseRecOn with
  | nil => rfl
  | append_singleton records r ih => rw [layoutOf_append_singleton, Layout.place_flatten, ih]

theorem Layout.place_ne_nil {l : Layout} (h : ∀ s ∈ l.closed, s ≠ []) (limit : Nat)
    (r : ReplayRecord) : ∀ s ∈ (l.place limit r).segments, s ≠ [] := by
  intro s hs
  unfold Layout.place at hs
  split at hs
  · next hroll =>
    simp only [Layout.segments, List.mem_append, List.mem_singleton] at hs
    rcases hs with (hs | rfl) | rfl
    · exact h s hs
    · rintro hnil
      simp [imageOf, hnil] at hroll
    · simp
  · simp only [Layout.segments, List.mem_append, List.mem_singleton] at hs
    rcases hs with hs | rfl
    · exact h s hs
    · simp

theorem layoutOf_ne_nil (segmentBytes : Nat) {records : List ReplayRecord} (h : records ≠ []) :
    ∀ s ∈ (layoutOf segmentBytes records).segments, s ≠ [] := by
  induction records using List.reverseRecOn with
  | nil => exact absurd rfl h
  | append_singleton records r ih =>
    rw [layoutOf_append_singleton]
    refine Layout.place_ne_nil ?_ _ r
    by_cases hrecords : records = []
    · simp [hrecords, layoutOf]
    · exact fun s hs => ih hrecords s (List.mem_append_left _ hs)

/-- What the writer and its directory hold once a layout has been written over `base`. -/
structure WalWriter.Realizes (base : Directory) (limit : Nat) (s : WalWriter × Directory)
    (l : Layout) : Prop where
  segmentBytes : s.1.segmentBytes = limit
  out : s.1.out = some (segmentFilename s.1.currentSegmentId)
  currentSegmentId : s.1.currentSegmentId = (1 + l.closed.length).toUInt32
  currentSegmentOffset : s.1.currentSegmentOffset = (imageOf l.current).length
  files : s.2 = base.writeSegments 1 l.segments

theorem WalWriter.create_realizes (base : Directory) (segmentBytes : Nat) :
    WalWriter.Realizes base (if segmentBytes = 0 then kDefaultSegmentBytes else segmentBytes)
      (WalWriter.create base segmentBytes) {} :=
  ⟨rfl, rfl, rfl, rfl, rfl⟩

theorem WalWriter.Realizes.append {base : Directory} {limit : Nat} {s : WalWriter × Directory}
    {l : Layout} (h : WalWriter.Realizes base limit s l) {c : AppendCall} (hc : c.fits = true) :
    WalWriter.Realizes base limit (s.1.append s.2 c).1 (l.place limit c.record) := by
  obtain ⟨w, dir⟩ := s
  obtain ⟨hlimit, hout, hid, hoff, hfiles⟩ := h
  have hfit : ¬ c.payload.length > kMaxRecordPayload.toNat :=
    Nat.not_lt.mpr (AppendCall.fits_iff.mp hc)
  have hbytes : encodeRecord c.timestampNs c.sensorType c.sequence c.payload = c.record.bytes :=
    encodeRecord_eq _ _ _ _
  simp only at hlimit hout hid hoff hfiles
  by_cases hroll : (imageOf l.current).length > 0 ∧
      (imageOf l.current).length + c.record.bytes.length > limit
  · have hstep : (w.append dir c).1 =
        ({ (w.openNewSegment dir).1 with
            index := w.index.add c.timestampNs (w.currentSegmentId + 1) 0
              c.record.bytes.length.toUInt32
            currentSegmentOffset := c.record.bytes.length
            recordsWritten := w.recordsWritten + 1 },
          (w.openNewSegment dir).2.appendTo (segmentFilename (w.currentSegmentId + 1))
            c.record.bytes) := by
      simp only [WalWriter.append, if_neg hfit, hbytes]
      rw [if_pos (by rw [hoff, hlimit]; exact hroll)]
      simp [WalWriter.openNewSegment]
    have hnext : w.currentSegmentId + 1 = (1 + (l.closed ++ [l.current]).length).toUInt32 := by
      rw [hid, List.length_append, List.length_singleton, ← Nat.add_assoc, toUInt32_succ]
    rw [hstep, Layout.place, if_pos hroll]
    refine ⟨hlimit, rfl, hnext, ?_, ?_⟩
    · simp
    · simp only [Directory.appendTo, WalWriter.openNewSegment, AList.lookup_insert,
        Option.getD_some, List.nil_append, AList.insert_insert, Layout.segments]
      rw [Directory.writeSegments_concat, hnext, hfiles, Layout.segments, imageOf_singleton]
  · have hstep : (w.append dir c).1 =
        ({ w with
            index := w.index.add c.timestampNs w.currentSegmentId w.currentSegmentOffset
              c.record.bytes.length.toUInt32
            currentSegmentOffset := w.currentSegmentOffset + c.record.bytes.length
            recordsWritten := w.recordsWritten + 1 },
          dir.appendTo (segmentFilename w.currentSegmentId) c.record.bytes) := by
      simp only [WalWriter.append, if_neg hfit, hbytes]
      rw [if_neg (by rw [hoff, hlimit]; exact hroll)]
      simp only [hout]
    rw [hstep, Layout.place, if_neg hroll]
    refine ⟨hlimit, hout, hid, ?_, ?_⟩
    · simp [hoff]
    · simp only [Directory.appendTo, Layout.segments, Directory.writeSegments_concat, ← hid,
        imageOf_append, imageOf_singleton] at hfiles ⊢
      rw [hfiles, AList.lookup_insert, AList.insert_insert, Option.getD_some]

theorem WalWriter.append_refused (w : WalWriter) (dir : Directory) {c : AppendCall}
    (hc : c.fits = false) : w.append dir c = ((w, dir), false) := by
  have hfit : c.payload.length > kMaxRecordPayload.toNat :=
    Nat.lt_of_not_le (fun h => Bool.eq_false_iff.mp hc (AppendCall.fits_iff.mpr h))
  rw [WalWriter.append, if_pos hfit]

theorem WalWriter.session_realizes (base : Directory) (segmentBytes : Nat)
    (calls : List AppendCall) :
    WalWriter.Realizes base (if segmentBytes = 0 then kDefaultSegmentBytes else segmentBytes)
      (WalWriter.session base segmentBytes calls) (layoutOf segmentBytes (appended calls)) := by
  induction calls using List.reverseRecOn with
  | nil => exact WalWriter.create_realizes base segmentBytes
  | append_singleton calls c ih =>
    have hsession : WalWriter.session base segmentBytes (calls ++ [c]) =
        ((WalWriter.session base segmentBytes calls).1.append
          (WalWriter.session base segmentBytes calls).2 c).1 := by
      simp [WalWriter.session, List.foldl_append]
    rw [hsession]
    by_cases hc : c.fits = true
    · have happ : appended (calls ++ [c]) = appended calls ++ [c.record] := by
        simp [appended, List.filter_append, hc]
      rw [happ, layoutOf_append_singleton]
      exact ih.append hc
    · have hc' := Bool.eq_false_iff.mpr hc
      have happ : appended (calls ++ [c]) = appended calls := by
        simp [appended, List.filter_append, hc']
      rw [happ, WalWriter.append_refused _ _ hc']
      exact ih

end SensorForge.Replay
