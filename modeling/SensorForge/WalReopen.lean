import SensorForge.WalRoundTrip

/-! A second writer on a directory that an earlier one has left. Its first segment has
the name of the earlier writer's first segment, so the readable records are counted file
by file. -/

namespace SensorForge.Replay

open StableSort

def fileRecords (f : File) : List ReplayRecord :=
  if segmentIdFromFilename f.1 ≠ 0 then (acceptedFrom f.2 0).map Prod.snd else []

def Directory.total (dir : Directory) (g : File → Nat) : Nat := (dir.entries.map g).sum

def exceptName (name : String) (g : File → Nat) (f : File) : Nat := if f.1 = name then 0 else g f

def recordCount (f : File) : Nat := (fileRecords f).length

theorem exceptName_le (name : String) (g : File → Nat) (f : File) : exceptName name g f ≤ g f := by
  unfold exceptName
  split <;> omega

theorem segmentFiles_records (listing : List File) :
    (segmentFiles listing).flatMap segmentRecords = listing.flatMap fileRecords := by
  induction listing with
  | nil => rfl
  | cons f listing ih =>
    by_cases hid : segmentIdFromFilename f.1 = 0
    · simpa [segmentFiles, fileRecords, hid] using ih
    · simpa [segmentFiles, fileRecords, segmentRecords, hid] using ih

theorem WalReader.load_perm (listing : List File) :
    (WalReader.load listing).records.Perm (listing.flatMap fileRecords) := by
  rw [WalReader.load_records, ← segmentFiles_records]
  exact (stableSort_perm _ _).trans ((stableSort_perm _ _).flatMap_right _)

theorem WalReader.load_length {dir : Directory} {listing : List File}
    (hl : listing.Perm dir.entries) :
    (WalReader.load listing).records.length = dir.total recordCount := by
  rw [(WalReader.load_perm listing).length_eq, List.length_flatMap, Directory.total]
  exact (hl.map _).sum_eq

theorem Directory.total_insert_le (dir : Directory) (g : File → Nat) (name : String)
    (bytes : Bytes) :
    Directory.total (dir.insert name bytes) g ≤
      g ⟨name, bytes⟩ + dir.total (exceptName name g) := by
  have hkeys : ∀ f ∈ dir.entries.kerase name, g f = exceptName name g f := by
    intro f hf
    have hne : f.1 ≠ name := by
      rintro rfl
      exact List.notMem_keys_kerase _ dir.nodupKeys (List.mem_keys_of_mem hf)
    rw [exceptName, if_neg hne]
  have hsub : ((dir.entries.kerase name).map (exceptName name g)).sum ≤
      (dir.entries.map (exceptName name g)).sum :=
    ((List.kerase_sublist name dir.entries).map _).sum_le_sum (fun _ _ => Nat.zero_le _)
  rw [Directory.total, AList.entries_insert, List.map_cons, List.sum_cons, List.map_congr_left hkeys]
  exact Nat.add_le_add_left hsub _

theorem Directory.total_mono (dir : Directory) {g g' : File → Nat} (h : ∀ f, g f ≤ g' f) :
    dir.total g ≤ dir.total g' :=
  List.sum_le_sum fun f _ => h f

theorem Directory.total_writeSegments_le (dir : Directory) (g : File → Nat) (first : Nat)
    (segs : List (List ReplayRecord)) :
    (dir.writeSegments first segs).total g ≤
      dir.total g + ((numbered first segs).map fun x => g x.2).sum := by
  induction segs generalizing dir first with
  | nil => simp [Directory.writeSegments, numbered]
  | cons s rest ih =>
    have hrest := ih (dir.insert (segmentFilename first.toUInt32) (imageOf s)) (first + 1)
    have hinsert := dir.total_insert_le g (segmentFilename first.toUInt32) (imageOf s)
    have hmono := dir.total_mono (exceptName_le (segmentFilename first.toUInt32) g)
    simp only [Directory.writeSegments, numbered, List.map_cons, List.sum_cons]
    omega

theorem recordCount_image (id : UInt32) {s : List ReplayRecord} (hv : ∀ rr ∈ s, rr.Valid) :
    recordCount ⟨segmentFilename id, imageOf s⟩ = if id ≠ 0 then s.length else 0 := by
  unfold recordCount fileRecords
  rw [segmentIdFromFilename_segmentFilename, acceptedFrom_image hv]
  split <;> rfl

theorem numbered_count_le {g : File → Nat} (hg : ∀ f, g f ≤ recordCount f) (first : Nat)
    {segs : List (List ReplayRecord)} (hv : ∀ s ∈ segs, ∀ rr ∈ s, rr.Valid) :
    ((numbered first segs).map fun x => g x.2).sum ≤ segs.flatten.length := by
  induction segs generalizing first with
  | nil => simp [numbered]
  | cons s rest ih =>
    have hrest := ih (first + 1) (fun t ht => hv t (List.mem_cons_of_mem s ht))
    have hs := hg ⟨segmentFilename first.toUInt32, imageOf s⟩
    rw [recordCount_image _ (hv s List.mem_cons_self)] at hs
    simp only [numbered, List.map_cons, List.sum_cons, List.flatten_cons, List.length_append]
    split at hs <;> omega

theorem numbered_append (first : Nat) (as bs : List (List ReplayRecord)) :
    numbered first (as ++ bs) = numbered first as ++ numbered (first + as.length) bs := by
  induction as generalizing first with
  | nil => rfl
  | cons s as ih =>
    simp only [List.cons_append, numbered, ih, List.length_cons]
    rw [Nat.add_right_comm, Nat.add_assoc]

theorem numbered_count_lt {segs : List (List ReplayRecord)} (hv : ∀ s ∈ segs, ∀ rr ∈ s, rr.Valid)
    (hne : ∀ s ∈ segs, s ≠ []) (hlen : 2 ^ 32 ≤ segs.length) :
    ((numbered 1 segs).map fun x => recordCount x.2).sum < segs.flatten.length := by
  obtain ⟨as, s, bs, rfl, has⟩ : ∃ as s bs, segs = as ++ s :: bs ∧ as.length = 2 ^ 32 - 1 := by
    have hlt : 2 ^ 32 - 1 < segs.length := by omega
    refine ⟨segs.take (2 ^ 32 - 1), segs[2 ^ 32 - 1], segs.drop (2 ^ 32 - 1 + 1), ?_, ?_⟩
    · rw [← List.drop_eq_getElem_cons hlt, List.take_append_drop]
    · rw [List.length_take]
      omega
  simp only [List.mem_append, List.mem_cons] at hv hne
  have hbefore := numbered_count_le (fun _ => le_refl _) 1 (fun t ht => hv t (.inl ht))
  have hafter := numbered_count_le (fun _ => le_refl _) (1 + as.length + 1)
    (fun t ht => hv t (.inr (.inr ht)))
  have hwrapped : recordCount ⟨segmentFilename (1 + as.length).toUInt32, imageOf s⟩ = 0 := by
    rw [recordCount_image _ (hv s (.inr (.inl rfl))), has]
    rfl
  have hs : 0 < s.length := List.length_pos_of_ne_nil (hne s (.inr (.inl rfl)))
  simp only [numbered_append, numbered, List.map_append, List.sum_append, List.map_cons,
    List.sum_cons, List.flatten_append, List.flatten_cons, List.length_append, hwrapped]
  omega

theorem layoutOf_segments_cons (segmentBytes : Nat) (records : List ReplayRecord) :
    ∃ s rest, (layoutOf segmentBytes records).segments = s :: rest := by
  refine List.exists_cons_of_ne_nil ?_
  simp [Layout.segments]

def reopened (limit₁ : Nat) (calls₁ : List AppendCall) (limit₂ : Nat) (calls₂ : List AppendCall) :
    Directory :=
  (WalWriter.session (WalWriter.session ∅ limit₁ calls₁).2 limit₂ calls₂).2

theorem reopened_eq (limit₁ : Nat) (calls₁ : List AppendCall) (limit₂ : Nat)
    (calls₂ : List AppendCall) :
    reopened limit₁ calls₁ limit₂ calls₂ =
      (Directory.writeSegments ∅ 1 (layoutOf limit₁ (appended calls₁)).segments).writeSegments 1
        (layoutOf limit₂ (appended calls₂)).segments := by
  rw [reopened, (WalWriter.session_realizes _ limit₂ calls₂).files,
    (WalWriter.session_realizes _ limit₁ calls₁).files]

theorem reopened_of_nil {calls₁ : List AppendCall} (h : appended calls₁ = [])
    (limit₁ limit₂ : Nat) (calls₂ : List AppendCall) :
    reopened limit₁ calls₁ limit₂ calls₂ =
      Directory.writeSegments ∅ 1 (layoutOf limit₂ (appended calls₂)).segments := by
  obtain ⟨s, rest, hsegs⟩ := layoutOf_segments_cons limit₂ (appended calls₂)
  rw [reopened_eq, h, hsegs]
  simp only [layoutOf, List.foldl_nil, Layout.segments, List.nil_append, Directory.writeSegments,
    AList.insert_insert]

theorem reopened_count_lt {calls₁ : List AppendCall} (h : appended calls₁ ≠ [])
    (limit₁ limit₂ : Nat) (calls₂ : List AppendCall) :
    (reopened limit₁ calls₁ limit₂ calls₂).total recordCount <
      (appended calls₁ ++ appended calls₂).length := by
  have hv₁ := layoutOf_valid limit₁ calls₁
  have hv₂ := layoutOf_valid limit₂ calls₂
  have hne₁ := layoutOf_ne_nil limit₁ h
  have hflat₁ := layoutOf_flatten limit₁ (appended calls₁)
  have hflat₂ := layoutOf_flatten limit₂ (appended calls₂)
  obtain ⟨s₁, rest₁, hsegs₁⟩ := layoutOf_segments_cons limit₁ (appended calls₁)
  obtain ⟨s₂, rest₂, hsegs₂⟩ := layoutOf_segments_cons limit₂ (appended calls₂)
  rw [hsegs₁] at hv₁ hne₁ hflat₁
  rw [hsegs₂] at hv₂ hflat₂
  rw [reopened_eq, hsegs₁, hsegs₂, Directory.writeSegments, ← hflat₁, ← hflat₂]
  generalize hname : segmentFilename (1 : Nat).toUInt32 = name
  have hearlier : (Directory.writeSegments ∅ 1 (s₁ :: rest₁)).total (exceptName name recordCount) ≤
      rest₁.flatten.length := by
    have hfirst : Directory.total (AList.insert name (imageOf s₁) ∅)
        (exceptName name recordCount) = 0 := by
      rw [Directory.total, AList.entries_insert_of_notMem (AList.notMem_empty _)]
      simp [exceptName]
    have hrest := numbered_count_le (exceptName_le name recordCount) (1 + 1)
      (fun t ht => hv₁ t (List.mem_cons_of_mem s₁ ht))
    have hle := Directory.total_writeSegments_le (AList.insert name (imageOf s₁) ∅)
      (exceptName name recordCount) (1 + 1) rest₁
    rw [Directory.writeSegments, hname]
    omega
  have hinsert := Directory.total_insert_le (Directory.writeSegments ∅ 1 (s₁ :: rest₁))
    recordCount name (imageOf s₂)
  have hs₂ : recordCount ⟨name, imageOf s₂⟩ ≤ s₂.length := by
    rw [← hname, recordCount_image _ (hv₂ s₂ List.mem_cons_self)]
    split <;> omega
  have hrest₂ := numbered_count_le (fun _ => le_refl _) (1 + 1)
    (fun t ht => hv₂ t (List.mem_cons_of_mem s₂ ht))
  have hlater := Directory.total_writeSegments_le
    ((Directory.writeSegments ∅ 1 (s₁ :: rest₁)).insert name (imageOf s₂)) recordCount (1 + 1) rest₂
  have hs₁ : 0 < s₁.length := List.length_pos_of_ne_nil (hne₁ s₁ List.mem_cons_self)
  simp only [List.flatten_cons, List.length_append]
  omega

/-- Reopening keeps the records of both sessions exactly when the earlier one had none
and the later one does not wrap its segment counter. -/
theorem reopen_preserves_iff (limit₁ limit₂ : Nat) (calls₁ calls₂ : List AppendCall)
    (listing : List File) (hl : listing.Perm (reopened limit₁ calls₁ limit₂ calls₂).entries) :
    (WalReader.load listing).records.Perm (appended calls₁ ++ appended calls₂) ↔
      appended calls₁ = [] ∧ segmentCount limit₂ calls₂ < 2 ^ 32 := by
  have hlen := WalReader.load_length hl
  constructor
  · intro hperm
    rw [hperm.length_eq] at hlen
    have hnil : appended calls₁ = [] := by
      by_contra hne
      have hlt := reopened_count_lt hne limit₁ limit₂ calls₂
      omega
    refine ⟨hnil, ?_⟩
    by_contra hwrap
    have hwrap' : 2 ^ 32 ≤ (layoutOf limit₂ (appended calls₂)).segments.length :=
      Nat.le_of_not_lt hwrap
    have hsome : appended calls₂ ≠ [] := by
      intro h
      rw [h] at hwrap'
      exact absurd hwrap' (show ¬ 2 ^ 32 ≤ 1 by decide)
    have hlt := numbered_count_lt (layoutOf_valid limit₂ calls₂) (layoutOf_ne_nil limit₂ hsome)
      hwrap'
    have hle := Directory.total_writeSegments_le ∅ recordCount 1
      (layoutOf limit₂ (appended calls₂)).segments
    rw [layoutOf_flatten] at hlt
    rw [reopened_of_nil hnil, hnil, List.nil_append] at hlen
    simp only [Directory.total, AList.empty_entries, List.map_nil, List.sum_nil] at hle hlen
    omega
  · rintro ⟨hnil, hsegs⟩
    rw [reopened_of_nil hnil] at hl
    have hrecords := (WalReader.load_segments hsegs (layoutOf_valid limit₂ calls₂) hl).1
    rw [hrecords, layoutOf_flatten, hnil, List.nil_append]
    exact stableSort_perm _ _

def lostCall : AppendCall :=
  { timestampNs := 1, sensorType := .kLidar, sequence := 0, payload := [0xAB] }

theorem reopen_preserves_unused :
    (WalReader.load (reopened 0 [] 0 [lostCall]).entries).records.Perm [lostCall.record] := by
  have hcount : segmentCount 0 [lostCall] = 1 := by decide
  exact (reopen_preserves_iff 0 0 [] [lostCall] _ (List.Perm.refl _)).mpr
    ⟨rfl, by rw [hcount]; decide⟩

theorem reopen_loses_record :
    ¬ ∀ (limit₁ limit₂ : Nat) (calls₁ calls₂ : List AppendCall),
      (WalReader.load (reopened limit₁ calls₁ limit₂ calls₂).entries).records.Perm
        (appended calls₁ ++ appended calls₂) := by
  intro h
  have hperm := h 0 0 [lostCall] []
  have hrecorded : appended [lostCall] ≠ [] := by decide
  have hlt := reopened_count_lt hrecorded 0 0 []
  rw [← WalReader.load_length (List.Perm.refl _), hperm.length_eq] at hlt
  exact absurd hlt (lt_irrefl _)

end SensorForge.Replay
