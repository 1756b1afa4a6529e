import SensorForge.ReadTrace
import SensorForge.WalRoundTrip

/-! The index that the writer keeps while it appends: where it says each record lies, and
how its entries fill the segment files. -/

namespace SensorForge.Replay

open ReadTrace

def AppendCall.encoded (c : AppendCall) : Bytes :=
  encodeRecord c.timestampNs c.sensorType c.sequence c.payload

def IndexEntry.bytesIn (e : IndexEntry) (dir : Directory) : Option Bytes :=
  (dir.lookup (segmentFilename e.segmentId)).map fun file =>
    slice file e.offset e.recordLength.toNat

/-- The entries cover the positions from `start` to `stop`, each beginning where the one
before it ends. -/
def Tiles : Nat → List IndexEntry → Nat → Prop
  | start, [], stop => start = stop
  | start, e :: es, stop => e.offset = start ∧ Tiles (start + e.recordLength.toNat) es stop

def ReplayIndex.ofSegment (index : ReplayIndex) (id : UInt32) : List IndexEntry :=
  index.entries.filter fun e => e.segmentId = id

def limitOf (segmentBytes : Nat) : Nat :=
  if segmentBytes = 0 then kDefaultSegmentBytes else segmentBytes

structure WellIndexed (limit : Nat) (calls : List AppendCall) (s : WalWriter × Directory) :
    Prop where
  located : s.1.index.entries.map
      (fun e => (e.timestampNs, e.recordLength.toNat, e.bytesIn s.2)) =
    (calls.filter AppendCall.fits).map fun c => (c.timestampNs, c.encoded.length, some c.encoded)
  tiled : ∀ e ∈ s.1.index.entries, ∃ file,
    s.2.lookup (segmentFilename e.segmentId) = some file ∧
      Tiles 0 (s.1.index.ofSegment e.segmentId) file.length
  ordered : s.1.index.entries.Pairwise fun a b => a.segmentId ≤ b.segmentId
  bounded : ∀ id file, s.2.lookup (segmentFilename id) = some file →
    2 ≤ (s.1.index.ofSegment id).length → file.length ≤ limit
  refused : ∀ c : AppendCall, c.payload.length > kMaxRecordPayload.toNat →
    s.1.append s.2 c = (s, false)

/-- The entries of records that lie one behind the other in a segment. -/
def segmentEntries (id : UInt32) : Nat → List ReplayRecord → List IndexEntry
  | _, [] => []
  | start, r :: rs =>
    { timestampNs := r.header.timestampNs, segmentId := id, offset := start
      recordLength := r.bytes.length.toUInt32 } :: segmentEntries id (start + r.bytes.length) rs

def layoutEntries : Nat → List (List ReplayRecord) → List IndexEntry
  | _, [] => []
  | first, s :: rest => segmentEntries first.toUInt32 0 s ++ layoutEntries (first + 1) rest

theorem segmentEntries_append (id : UInt32) (start : Nat) (as bs : List ReplayRecord) :
    segmentEntries id start (as ++ bs) =
      segmentEntries id start as ++ segmentEntries id (start + (imageOf as).length) bs := by
  induction as generalizing start with
  | nil => rfl
  | cons r as ih =>
    rw [List.cons_append, segmentEntries, ih, segmentEntries, imageOf_cons, List.length_append,
      Nat.add_assoc, List.cons_append]

theorem layoutEntries_append (first : Nat) (as bs : List (List ReplayRecord)) :
    layoutEntries first (as ++ bs) =
      layoutEntries first as ++ layoutEntries (first + as.length) bs := by
  induction as generalizing first with
  | nil => rfl
  | cons s as ih =>
    have hnext : first + 1 + as.length = first + (s :: as).length := by
      rw [List.length_cons]
      omega
    rw [List.cons_append, layoutEntries, ih, layoutEntries, hnext, List.append_assoc]

theorem layoutEntries_place (limit : Nat) (l : Layout) (r : ReplayRecord) :
    layoutEntries 1 (l.place limit r).segments = layoutEntries 1 l.segments ++
      [if (imageOf l.current).length > 0 ∧ (imageOf l.current).length + r.bytes.length > limit then
        { timestampNs := r.header.timestampNs, segmentId := (1 + l.closed.length + 1).toUInt32
          offset := 0, recordLength := r.bytes.length.toUInt32 }
      else
        { timestampNs := r.header.timestampNs, segmentId := (1 + l.closed.length).toUInt32
          offset := (imageOf l.current).length, recordLength := r.bytes.length.toUInt32 }] := by
  by_cases hroll : (imageOf l.current).length > 0 ∧
      (imageOf l.current).length + r.bytes.length > limit
  · rw [Layout.place, if_pos hroll, if_pos hroll]
    simp only [Layout.segments, layoutEntries_append, List.length_append, List.length_singleton]
    rfl
  · rw [Layout.place, if_neg hroll, if_neg hroll]
    simp only [Layout.segments, layoutEntries_append, layoutEntries, segmentEntries_append,
      List.append_nil, List.append_assoc, Nat.zero_add]
    rfl

theorem WalWriter.append_index {w : WalWriter} {path : String} (hout : w.out = some path)
    (dir : Directory) {c : AppendCall} (hc : c.fits = true) :
    (w.append dir c).1.1.index =
      if w.currentSegmentOffset > 0 ∧
          w.currentSegmentOffset + c.record.bytes.length > w.segmentBytes then
        w.index.add c.timestampNs (w.currentSegmentId + 1) 0 c.record.bytes.length.toUInt32
      else
        w.index.add c.timestampNs w.currentSegmentId w.currentSegmentOffset
          c.record.bytes.length.toUInt32 := by
  have hfit : ¬ c.payload.length > kMaxRecordPayload.toNat :=
    Nat.not_lt.mpr (AppendCall.fits_iff.mp hc)
  have hbytes : encodeRecord c.timestampNs c.sensorType c.sequence c.payload = c.record.bytes :=
    encodeRecord_eq _ _ _ _
  simp only [WalWriter.append, if_neg hfit, hbytes]
  by_cases hroll : w.currentSegmentOffset > 0 ∧
      w.currentSegmentOffset + c.record.bytes.length > w.segmentBytes
  · rw [if_pos hroll, if_pos hroll]
    rfl
  · rw [if_neg hroll, if_neg hroll]
    simp only [hout]

theorem WalWriter.session_append (base : Directory) (segmentBytes : Nat)
    (calls : List AppendCall) (c : AppendCall) :
    WalWriter.session base segmentBytes (calls ++ [c]) =
      ((WalWriter.session base segmentBytes calls).1.append
        (WalWriter.session base segmentBytes calls).2 c).1 := by
  rw [WalWriter.session, List.foldl_append]
  rfl

theorem appended_append (calls : List AppendCall) (c : AppendCall) :
    appended (calls ++ [c]) = appended calls ++ if c.fits then [c.record] else [] := by
  cases hc : c.fits <;> simp [appended, hc]

/-- The index holds the entries of the layout, in the order of the appends. -/
theorem WalWriter.session_entries (base : Directory) (segmentBytes : Nat)
    (calls : List AppendCall) :
    (WalWriter.session base segmentBytes calls).1.index.entries =
      layoutEntries 1 (layoutOf segmentBytes (appended calls)).segments := by
  induction calls using List.reverseRecOn with
  | nil => rfl
  | append_singleton calls c ih =>
    have hs := WalWriter.session_realizes base segmentBytes calls
    rw [WalWriter.session_append, appended_append]
    cases hc : c.fits with
    | false =>
      rw [WalWriter.append_refused _ _ hc, if_neg (by simp), List.append_nil]
      exact ih
    | true =>
      rw [WalWriter.append_index hs.out _ hc, if_pos rfl, layoutOf_append_singleton,
        layoutEntries_place, ← ih, hs.currentSegmentOffset, hs.segmentBytes, hs.currentSegmentId,
        ← toUInt32_succ]
      generalize (if segmentBytes = 0 then kDefaultSegmentBytes else segmentBytes) = limit
      split <;> rfl

theorem Directory.writeSegments_lookup_other {first : Nat} {segs : List (List ReplayRecord)}
    {name : String} (h : ∀ k < segs.length, name ≠ segmentFilename (first + k).toUInt32)
    (dir : Directory) : (dir.writeSegments first segs).lookup name = dir.lookup name := by
  induction segs generalizing first dir with
  | nil => rfl
  | cons s rest ih =>
    have hrest : ∀ k < rest.length, name ≠ segmentFilename (first + 1 + k).toUInt32 := by
      intro k hk
      have hname := h (k + 1) (by rw [List.length_cons]; omega)
      rwa [← Nat.add_assoc, Nat.add_right_comm] at hname
    have hfirst : name ≠ segmentFilename first.toUInt32 := h 0 (Nat.succ_pos _)
    rw [Directory.writeSegments, ih hrest, AList.lookup_insert_ne hfirst]

theorem toUInt32_ne {m n : Nat} (hm : m < 2 ^ 32) (hn : n < 2 ^ 32) (h : m ≠ n) :
    m.toUInt32 ≠ n.toUInt32 := by
  intro heq
  apply h
  rw [← toNat_toUInt32 hm, heq, toNat_toUInt32 hn]

theorem Directory.writeSegments_lookup {first : Nat} {segs : List (List ReplayRecord)}
    (h : first + segs.length ≤ 2 ^ 32) (dir : Directory) {k : Nat} {s : List ReplayRecord}
    (hk : segs[k]? = some s) :
    (dir.writeSegments first segs).lookup (segmentFilename (first + k).toUInt32) =
      some (imageOf s) := by
  induction segs generalizing first dir k with
  | nil => cases hk
  | cons t rest ih =>
    rw [List.length_cons] at h
    cases k with
    | zero =>
      rw [List.getElem?_cons_zero, Option.some.injEq] at hk
      have hother : ∀ k < rest.length,
          segmentFilename first.toUInt32 ≠ segmentFilename (first + 1 + k).toUInt32 := by
        intro k hk heq
        exact toUInt32_ne (by omega) (by omega) (by omega) (segmentFilename_injective heq)
      rw [Nat.add_zero, Directory.writeSegments, Directory.writeSegments_lookup_other hother,
        AList.lookup_insert, hk]
    | succ k =>
      rw [List.getElem?_cons_succ] at hk
      rw [Nat.add_comm k 1, ← Nat.add_assoc]
      exact ih (by omega) _ hk

theorem mem_segmentEntries {id : UInt32} {start : Nat} {rs : List ReplayRecord} {e : IndexEntry}
    (h : e ∈ segmentEntries id start rs) : e.segmentId = id := by
  induction rs generalizing start with
  | nil => cases h
  | cons r rs ih =>
    rcases List.mem_cons.mp h with rfl | h
    · rfl
    · exact ih h

theorem segmentEntries_length (id : UInt32) (start : Nat) (rs : List ReplayRecord) :
    (segmentEntries id start rs).length = rs.length := by
  induction rs generalizing start with
  | nil => rfl
  | cons r rs ih => rw [segmentEntries, List.length_cons, List.length_cons, ih]

theorem mem_layoutEntries {first : Nat} {segs : List (List ReplayRecord)} {e : IndexEntry}
    (h : e ∈ layoutEntries first segs) :
    ∃ k s, segs[k]? = some s ∧ e.segmentId = (first + k).toUInt32 := by
  induction segs generalizing first with
  | nil => cases h
  | cons s rest ih =>
    rcases List.mem_append.mp h with h | h
    · exact ⟨0, s, rfl, mem_segmentEntries h⟩
    · obtain ⟨k, t, hk, hid⟩ := ih h
      exact ⟨k + 1, t, hk, by rw [hid, Nat.add_right_comm, Nat.add_assoc]⟩

theorem segmentEntries_filter_same (id : UInt32) (start : Nat) (rs : List ReplayRecord) :
    ((segmentEntries id start rs).filter fun e => e.segmentId = id) =
      segmentEntries id start rs := by
  rw [List.filter_eq_self]
  intro e he
  exact decide_eq_true (mem_segmentEntries he)

/-- The numbers of a layout tell its segments apart as long as they do not wrap. -/
theorem layoutEntries_filter {first : Nat} {segs : List (List ReplayRecord)}
    (h : first + segs.length ≤ 2 ^ 32) {k : Nat} {s : List ReplayRecord}
    (hk : segs[k]? = some s) :
    ((layoutEntries first segs).filter fun e => e.segmentId = (first + k).toUInt32) =
      segmentEntries (first + k).toUInt32 0 s := by
  induction segs generalizing first k with
  | nil => cases hk
  | cons t rest ih =>
    rw [List.length_cons] at h
    rw [layoutEntries, List.filter_append]
    cases k with
    | zero =>
      rw [List.getElem?_cons_zero, Option.some.injEq] at hk
      have hrest : ((layoutEntries (first + 1) rest).filter
          fun e => e.segmentId = (first + 0).toUInt32) = [] := by
        rw [List.filter_eq_nil_iff]
        intro e he
        obtain ⟨j, u, hj, hid⟩ := mem_layoutEntries he
        have hlt := (List.getElem?_eq_some_iff.mp hj).1
        rw [hid, decide_eq_true_eq]
        exact toUInt32_ne (by omega) (by omega) (by omega)
      rw [hrest, List.append_nil, hk]
      exact segmentEntries_filter_same _ 0 s
    | succ k =>
      rw [List.getElem?_cons_succ] at hk
      have hlt := (List.getElem?_eq_some_iff.mp hk).1
      have hhead : ((segmentEntries first.toUInt32 0 t).filter
          fun e => e.segmentId = (first + (k + 1)).toUInt32) = [] := by
        rw [List.filter_eq_nil_iff]
        intro e he
        rw [mem_segmentEntries he, decide_eq_true_eq]
        exact toUInt32_ne (by omega) (by omega) (by omega)
      rw [hhead, List.nil_append, Nat.add_comm k 1, ← Nat.add_assoc]
      exact ih (by omega) hk

theorem ReplayRecord.Valid.bytes_toUInt32 {r : ReplayRecord} (h : r.Valid) :
    r.bytes.length.toUInt32.toNat = r.bytes.length := by
  have hbound := RecordHeader.Describes.payloadBound h
  rw [kMaxRecordPayload_toNat] at hbound
  refine toNat_toUInt32 ?_
  rw [ReplayRecord.bytes, RecordHeader.record_length]
  omega

theorem segmentEntries_tiles (id : UInt32) (start : Nat) {rs : List ReplayRecord}
    (hv : ∀ r ∈ rs, r.Valid) :
    Tiles start (segmentEntries id start rs) (start + (imageOf rs).length) := by
  induction rs generalizing start with
  | nil => rfl
  | cons r rs ih =>
    have htail := ih (start + r.bytes.length) fun q hq => hv q (List.mem_cons_of_mem r hq)
    rw [segmentEntries, Tiles, (hv r List.mem_cons_self).bytes_toUInt32]
    rw [imageOf_cons, List.length_append, ← Nat.add_assoc]
    exact ⟨rfl, htail⟩

theorem segmentEntries_located {id : UInt32} {dir : Directory} {file : Bytes}
    (hfile : dir.lookup (segmentFilename id) = some file) {start : Nat} {rs : List ReplayRecord}
    (hv : ∀ r ∈ rs, r.Valid) (himage : file.drop start = imageOf rs) :
    (segmentEntries id start rs).map
        (fun e => (e.timestampNs, e.recordLength.toNat, e.bytesIn dir)) =
      rs.map fun r => (r.header.timestampNs, r.bytes.length, some r.bytes) := by
  induction rs generalizing start with
  | nil => rfl
  | cons r rs ih =>
    rw [imageOf_cons] at himage
    have htail : file.drop (start + r.bytes.length) = imageOf rs := by
      rw [← List.drop_drop, himage, List.drop_left' rfl]
    have hslice : slice file start r.bytes.length = r.bytes := by
      rw [slice, himage, List.take_left' rfl]
    rw [segmentEntries, List.map_cons, ih (fun q hq => hv q (List.mem_cons_of_mem r hq)) htail,
      List.map_cons, IndexEntry.bytesIn, hfile, Option.map_some,
      (hv r List.mem_cons_self).bytes_toUInt32, hslice]

theorem layoutEntries_located {first : Nat} {segs : List (List ReplayRecord)} {dir : Directory}
    (hfiles : ∀ k s, segs[k]? = some s →
      dir.lookup (segmentFilename (first + k).toUInt32) = some (imageOf s))
    (hv : ∀ s ∈ segs, ∀ r ∈ s, r.Valid) :
    (layoutEntries first segs).map
        (fun e => (e.timestampNs, e.recordLength.toNat, e.bytesIn dir)) =
      segs.flatten.map fun r => (r.header.timestampNs, r.bytes.length, some r.bytes) := by
  induction segs generalizing first with
  | nil => rfl
  | cons s rest ih =>
    have hrest : ∀ k t, rest[k]? = some t →
        dir.lookup (segmentFilename (first + 1 + k).toUInt32) = some (imageOf t) := by
      intro k t hk
      rw [Nat.add_assoc, Nat.add_comm 1]
      exact hfiles (k + 1) t hk
    have hfirst : dir.lookup (segmentFilename first.toUInt32) = some (imageOf s) := hfiles 0 s rfl
    rw [layoutEntries, List.map_append, List.flatten_cons, List.map_append,
      ih hrest fun t ht => hv t (List.mem_cons_of_mem s ht),
      segmentEntries_located hfirst (hv s List.mem_cons_self) List.drop_zero]

theorem layoutEntries_ordered {first : Nat} {segs : List (List ReplayRecord)}
    (h : first + segs.length ≤ 2 ^ 32) :
    (layoutEntries first segs).Pairwise fun a b => a.segmentId ≤ b.segmentId := by
  induction segs generalizing first with
  | nil => exact List.Pairwise.nil
  | cons s rest ih =>
    rw [List.length_cons] at h
    rw [layoutEntries, List.pairwise_append]
    refine ⟨List.pairwise_of_forall_mem_list fun a ha b hb => ?_, ih (by omega), ?_⟩
    · rw [mem_segmentEntries ha, mem_segmentEntries hb]
      exact UInt32.le_refl _
    · intro a ha b hb
      obtain ⟨k, t, hk, hid⟩ := mem_layoutEntries hb
      have hlt := (List.getElem?_eq_some_iff.mp hk).1
      rw [mem_segmentEntries ha, hid, UInt32.le_iff_toNat_le, toNat_toUInt32 (by omega),
        toNat_toUInt32 (by omega)]
      omega

section

variable {first : Nat} {segs : List (List ReplayRecord)} {dir : Directory}
  (hbound : first + segs.length ≤ 2 ^ 32)
  (hfiles : ∀ k s, segs[k]? = some s →
    dir.lookup (segmentFilename (first + k).toUInt32) = some (imageOf s))

include hbound hfiles

theorem layoutEntries_tiled (hv : ∀ s ∈ segs, ∀ r ∈ s, r.Valid) {e : IndexEntry}
    (he : e ∈ layoutEntries first segs) :
    ∃ file, dir.lookup (segmentFilename e.segmentId) = some file ∧
      Tiles 0 ((layoutEntries first segs).filter fun e' => e'.segmentId = e.segmentId)
        file.length := by
  obtain ⟨k, s, hk, hid⟩ := mem_layoutEntries he
  have htiles := segmentEntries_tiles (first + k).toUInt32 0 (hv s (List.mem_of_getElem? hk))
  rw [Nat.zero_add] at htiles
  rw [hid, layoutEntries_filter hbound hk]
  exact ⟨imageOf s, hfiles k s hk, htiles⟩

theorem layoutEntries_bounded {limit : Nat}
    (hlimit : ∀ s ∈ segs, 2 ≤ s.length → (imageOf s).length ≤ limit) {id : UInt32} {file : Bytes}
    (hfile : dir.lookup (segmentFilename id) = some file)
    (htwo : 2 ≤ ((layoutEntries first segs).filter fun e => e.segmentId = id).length) :
    file.length ≤ limit := by
  obtain ⟨e, he⟩ := List.exists_mem_of_length_pos (Nat.lt_of_lt_of_le two_pos htwo)
  obtain ⟨hmem, hid⟩ := List.mem_filter.mp he
  obtain ⟨k, s, hk, hseg⟩ := mem_layoutEntries hmem
  obtain rfl : (first + k).toUInt32 = id := hseg.symm.trans (of_decide_eq_true hid)
  rw [layoutEntries_filter hbound hk, segmentEntries_length] at htwo
  rw [hfiles k s hk, Option.some.injEq] at hfile
  rw [← hfile]
  exact hlimit s (List.mem_of_getElem? hk) htwo

end

theorem Layout.place_bounded {limit : Nat} {l : Layout}
    (h : ∀ s ∈ l.segments, 2 ≤ s.length → (imageOf s).length ≤ limit) (r : ReplayRecord) :
    ∀ s ∈ (l.place limit r).segments, 2 ≤ s.length → (imageOf s).length ≤ limit := by
  intro s hs htwo
  unfold Layout.place at hs
  split at hs
  · rcases List.mem_append.mp hs with hs | hs
    · exact h s hs htwo
    · rw [List.mem_singleton.mp hs] at htwo
      exact absurd htwo (by simp)
  · next hstay =>
    rcases List.mem_append.mp hs with hs | hs
    · exact h s (List.mem_append_left _ hs) htwo
    · rw [List.mem_singleton.mp hs] at htwo ⊢
      have hne : l.current ≠ [] := by
        intro hnil
        rw [hnil] at htwo
        exact absurd htwo (by simp)
      have hpos := List.length_pos_of_ne_nil (fun hnil => hne (imageOf_eq_nil.mp hnil))
      rw [imageOf_append, List.length_append, imageOf_singleton]
      omega

theorem layoutOf_bounded (segmentBytes : Nat) (records : List ReplayRecord) :
    ∀ s ∈ (layoutOf segmentBytes records).segments, 2 ≤ s.length →
      (imageOf s).length ≤ if segmentBytes = 0 then kDefaultSegmentBytes else segmentBytes := by
  induction records using List.reverseRecOn with
  | nil => simp [layoutOf, Layout.segments]
  | append_singleton records r ih =>
    rw [layoutOf_append_singleton]
    exact Layout.place_bounded ih r

theorem wellIndexed_of_count (base : Directory) {segmentBytes : Nat} {calls : List AppendCall}
    (h : segmentCount segmentBytes calls < 2 ^ 32) :
    WellIndexed (limitOf segmentBytes) calls (WalWriter.session base segmentBytes calls) := by
  have hentries := WalWriter.session_entries base segmentBytes calls
  have hfiles := (WalWriter.session_realizes base segmentBytes calls).files
  have hvalid := layoutOf_valid segmentBytes calls
  have hlimit := layoutOf_bounded segmentBytes (appended calls)
  have hflat := layoutOf_flatten segmentBytes (appended calls)
  rw [segmentCount] at h
  generalize (layoutOf segmentBytes (appended calls)).segments = segs at *
  have hbound : 1 + segs.length ≤ 2 ^ 32 := by omega
  have hlookup : ∀ k s, segs[k]? = some s →
      (WalWriter.session base segmentBytes calls).2.lookup (segmentFilename (1 + k).toUInt32) =
        some (imageOf s) := by
    intro k s hk
    rw [hfiles]
    exact Directory.writeSegments_lookup hbound base hk
  refine ⟨?_, ?_, ?_, ?_, ?_⟩
  · rw [hentries, layoutEntries_located hlookup hvalid, hflat, appended, List.map_map]
    refine List.map_congr_left fun c _ => ?_
    have hbytes : c.encoded = c.record.bytes := encodeRecord_eq _ _ _ _
    rw [hbytes]
    rfl
  · intro e he
    rw [hentries] at he
    rw [ReplayIndex.ofSegment, hentries]
    exact layoutEntries_tiled hbound hlookup hvalid he
  · rw [hentries]
    exact layoutEntries_ordered hbound
  · intro id file hfile htwo
    rw [ReplayIndex.ofSegment, hentries] at htwo
    exact layoutEntries_bounded hbound hlookup hlimit hfile htwo
  · intro c hc
    refine WalWriter.append_refused _ _ (Bool.eq_false_iff.mpr fun hfits => ?_)
    exact absurd (AppendCall.fits_iff.mp hfits) (Nat.not_le.mpr hc)

theorem layoutOf_segments_nonempty {segmentBytes : Nat} {records : List ReplayRecord}
    (h : 1 < (layoutOf segmentBytes records).segments.length) :
    ∀ s ∈ (layoutOf segmentBytes records).segments, s ≠ [] := by
  refine layoutOf_ne_nil segmentBytes fun hnil => ?_
  rw [hnil] at h
  exact absurd h (Nat.lt_irrefl 1)

theorem mem_layoutEntries_of_ne_nil (first : Nat) {segs : List (List ReplayRecord)} {k : Nat}
    {s : List ReplayRecord} (hk : segs[k]? = some s) (hne : s ≠ []) :
    ∃ e ∈ layoutEntries first segs, e.segmentId = (first + k).toUInt32 := by
  induction segs generalizing first k with
  | nil => cases hk
  | cons t rest ih =>
    cases k with
    | zero =>
      rw [List.getElem?_cons_zero, Option.some.injEq] at hk
      subst hk
      obtain ⟨e, he⟩ := List.exists_mem_of_length_pos (l := segmentEntries first.toUInt32 0 t)
        (by rw [segmentEntries_length]; exact List.length_pos_of_ne_nil hne)
      exact ⟨e, List.mem_append_left _ he, mem_segmentEntries he⟩
    | succ k =>
      rw [List.getElem?_cons_succ] at hk
      obtain ⟨e, he, hid⟩ := ih (first + 1) hk
      exact ⟨e, List.mem_append_right _ he, by rw [hid, Nat.add_assoc, Nat.add_comm 1]⟩

/-- With the segment whose number has wrapped to 0, the order of the numbers is lost. -/
theorem count_of_wellIndexed {base : Directory} {segmentBytes : Nat} {calls : List AppendCall}
    (h : WellIndexed (limitOf segmentBytes) calls (WalWriter.session base segmentBytes calls)) :
    segmentCount segmentBytes calls < 2 ^ 32 := by
  by_contra hcount
  rw [segmentCount] at hcount
  have hordered := h.ordered
  rw [WalWriter.session_entries] at hordered
  have hnonempty := @layoutOf_segments_nonempty segmentBytes (appended calls) (by omega)
  generalize (layoutOf segmentBytes (appended calls)).segments = segs at *
  have hsplit : segs = segs.take (2 ^ 32 - 1) ++ segs.drop (2 ^ 32 - 1) :=
    (List.take_append_drop _ segs).symm
  have htake : (segs.take (2 ^ 32 - 1)).length = 2 ^ 32 - 1 := by
    rw [List.length_take]
    omega
  have hpos : 0 < (segs.take (2 ^ 32 - 1)).length := by omega
  have hlate : 0 < (segs.drop (2 ^ 32 - 1)).length := by
    rw [List.length_drop]
    omega
  obtain ⟨a, ha, hida⟩ := mem_layoutEntries_of_ne_nil 1 (List.getElem?_eq_getElem hpos)
    (hnonempty _ (List.mem_of_mem_take (List.getElem_mem hpos)))
  obtain ⟨b, hb, hidb⟩ := mem_layoutEntries_of_ne_nil (1 + (2 ^ 32 - 1))
    (List.getElem?_eq_getElem hlate) (hnonempty _ (List.mem_of_mem_drop (List.getElem_mem hlate)))
  rw [hsplit, layoutEntries_append, htake, List.pairwise_append] at hordered
  have hle := hordered.2.2 a ha b hb
  rw [hida, hidb] at hle
  exact absurd hle (by decide)

/-- On every directory, with every limit and every sequence of appends: the index
describes the files exactly if the segment numbers have not wrapped. -/
theorem wellIndexed_iff (base : Directory) (segmentBytes : Nat) (calls : List AppendCall) :
    WellIndexed (limitOf segmentBytes) calls (WalWriter.session base segmentBytes calls) ↔
      segmentCount segmentBytes calls < 2 ^ 32 :=
  ⟨count_of_wellIndexed, wellIndexed_of_count base⟩

theorem layoutOf_replicate (r : ReplayRecord) (n : Nat) :
    layoutOf 1 (List.replicate (n + 1) r) =
      { closed := List.replicate n [r], current := [r] } := by
  have hpos := r.bytes_length_pos
  have hlimit : (if (1 : Nat) = 0 then kDefaultSegmentBytes else 1) = 1 := rfl
  induction n with
  | zero => rfl
  | succ n ih =>
    have hroll : (imageOf [r]).length > 0 ∧ (imageOf [r]).length + r.bytes.length > 1 := by
      rw [imageOf_singleton]
      omega
    rw [List.replicate_succ', layoutOf_append_singleton, ih, hlimit, Layout.place,
      if_pos hroll, ← List.replicate_succ']

def tinyCall : AppendCall :=
  { timestampNs := 1, sensorType := .kLidar, sequence := 0, payload := [] }

theorem segmentCount_replicate (n : Nat) :
    segmentCount 1 (List.replicate (n + 1) tinyCall) = n + 1 := by
  have happended : appended (List.replicate (n + 1) tinyCall) =
      List.replicate (n + 1) tinyCall.record := by
    have hfits : tinyCall.fits = true := by decide
    rw [appended, List.filter_replicate, if_pos hfits, List.map_replicate]
  rw [segmentCount, happended, layoutOf_replicate, Layout.segments, List.length_append,
    List.length_replicate, List.length_singleton]

/-- One record to a segment, until the 32-bit segment number wraps. -/
theorem segment_number_wraps :
    ¬ ∀ base segmentBytes calls,
      WellIndexed (limitOf segmentBytes) calls (WalWriter.session base segmentBytes calls) := by
  intro h
  have hcount := count_of_wellIndexed (h ∅ 1 (List.replicate (2 ^ 32 - 1 + 1) tinyCall))
  rw [segmentCount_replicate] at hcount
  exact absurd hcount (by decide)

end SensorForge.Replay
