import SensorForge.StableSort

/-! The in-memory index from timestamps to record positions. -/

namespace SensorForge.Replay

open StableSort

structure IndexEntry where
  timestampNs : UInt64 := 0
  segmentId : UInt32 := 0
  offset : Nat := 0
  recordLength : UInt32 := 0
  deriving DecidableEq, Repr

structure ReplayIndex where
  entries : List IndexEntry := []
  sorted : Bool := true
  deriving Repr

def ReplayIndex.add (index : ReplayIndex) (timestampNs : UInt64) (segmentId : UInt32)
    (offset : Nat) (recordLength : UInt32) : ReplayIndex :=
  { entries := index.entries ++ [{ timestampNs, segmentId, offset, recordLength }]
    sorted := match index.entries.getLast? with
      | some prev => if timestampNs < prev.timestampNs then false else index.sorted
      | none => index.sorted }

def ReplayIndex.finalize (index : ReplayIndex) : ReplayIndex :=
  if !index.sorted then
    { entries := stableSort (fun a b => a.timestampNs < b.timestampNs) index.entries
      sorted := true }
  else index

def ReplayIndex.lowerBound (index : ReplayIndex) (startNs : UInt64) : Nat :=
  StableSort.lowerBound (fun e => e.timestampNs < startNs) index.entries

def ReplayIndex.clear (_ : ReplayIndex) : ReplayIndex := {}

def entryLt (a b : IndexEntry) : Bool := a.timestampNs < b.timestampNs

theorem entryLt_iff (a b : IndexEntry) :
    entryLt a b = true ↔ a.timestampNs.toNat < b.timestampNs.toNat := by
  rw [entryLt, decide_eq_true_eq, UInt64.lt_iff_toNat_lt]

/-- The flag stands only while the timestamps have not gone down. -/
def ReplayIndex.FlagTrue (index : ReplayIndex) : Prop :=
  index.sorted = true →
    index.entries.Pairwise fun a b => a.timestampNs.toNat ≤ b.timestampNs.toNat

theorem ReplayIndex.FlagTrue.add {index : ReplayIndex} (h : index.FlagTrue) (timestampNs : UInt64)
    (segmentId : UInt32) (offset : Nat) (recordLength : UInt32) :
    (index.add timestampNs segmentId offset recordLength).FlagTrue := by
  intro hflag
  simp only [ReplayIndex.add] at hflag ⊢
  rcases List.eq_nil_or_concat index.entries with hnil | ⟨front, last, hlast⟩
  · rw [hnil]
    exact List.pairwise_singleton _ _
  · have hend : ¬ timestampNs < last.timestampNs := by
      intro hlt
      simp [hlast, hlt] at hflag
    have hsorted := h (by simpa [hlast, hend] using hflag)
    rw [UInt64.lt_iff_toNat_lt] at hend
    rw [hlast, List.concat_eq_append] at hsorted ⊢
    refine List.pairwise_append.mpr ⟨hsorted, List.pairwise_singleton _ _, ?_⟩
    intro a ha b hb
    rw [List.mem_singleton.mp hb]
    have hle : last.timestampNs.toNat ≤ timestampNs.toNat := by omega
    rcases List.mem_append.mp ha with ha | ha
    · exact ((List.pairwise_append.mp hsorted).2.2 a ha last List.mem_cons_self).trans hle
    · rw [List.mem_singleton.mp ha]
      exact hle

theorem ReplayIndex.finalize_entries {index : ReplayIndex} (h : index.FlagTrue) :
    index.finalize.entries = stableSort entryLt index.entries := by
  unfold ReplayIndex.finalize
  split
  · rfl
  · next hflag =>
    refine (stableSort_of_sorted entryLt_iff (h ?_)).symm
    simpa using hflag

inductive IndexCall
  | add (timestampNs : UInt64) (segmentId : UInt32) (offset : Nat) (recordLength : UInt32)
  | finalize
  | clear

def ReplayIndex.call (index : ReplayIndex) : IndexCall → ReplayIndex
  | .add timestampNs segmentId offset recordLength =>
    index.add timestampNs segmentId offset recordLength
  | .finalize => index.finalize
  | .clear => index.clear

def indexAfter (calls : List IndexCall) : ReplayIndex := calls.foldl ReplayIndex.call {}

/-- The entries since the last `clear`, in the order of their addition. -/
def addedAfter (calls : List IndexCall) : List IndexEntry :=
  calls.foldl (fun added c =>
    match c with
    | .add timestampNs segmentId offset recordLength =>
      added ++ [{ timestampNs, segmentId, offset, recordLength }]
    | .finalize => added
    | .clear => []) []

structure ReplayIndex.Inv (index : ReplayIndex) (added : List IndexEntry) : Prop where
  flag : index.FlagTrue
  sorts : stableSort entryLt index.entries = stableSort entryLt added

theorem ReplayIndex.Inv.add {index : ReplayIndex} {added : List IndexEntry}
    (h : index.Inv added) (e : IndexEntry) :
    (index.add e.timestampNs e.segmentId e.offset e.recordLength).Inv (added ++ [e]) where
  flag := h.flag.add _ _ _ _
  sorts := by
    have hh := stableSort_append entryLt_iff index.entries [e]
    rw [h.sorts, stableSort_append entryLt_iff] at hh
    exact hh.symm

theorem ReplayIndex.Inv.finalize_entries {index : ReplayIndex} {added : List IndexEntry}
    (h : index.Inv added) : index.finalize.entries = stableSort entryLt added := by
  rw [ReplayIndex.finalize_entries h.flag, h.sorts]

theorem ReplayIndex.Inv.finalize {index : ReplayIndex} {added : List IndexEntry}
    (h : index.Inv added) : index.finalize.Inv added where
  flag _ := by
    rw [h.finalize_entries]
    exact stableSort_sorted entryLt_iff added
  sorts := by
    rw [h.finalize_entries]
    exact stableSort_of_sorted entryLt_iff (stableSort_sorted entryLt_iff added)

theorem indexAfter_inv (calls : List IndexCall) : (indexAfter calls).Inv (addedAfter calls) := by
  induction calls using List.reverseRecOn with
  | nil => exact ⟨fun _ => .nil, rfl⟩
  | append_singleton calls c ih =>
    rw [indexAfter, addedAfter, List.foldl_append, List.foldl_append]
    cases c with
    | add timestampNs segmentId offset recordLength =>
      exact ih.add { timestampNs, segmentId, offset, recordLength }
    | finalize => exact ih.finalize
    | clear => exact ⟨fun _ => .nil, rfl⟩

/-- Whatever calls come before, the flag tells the truth, and `finalize` leaves the stable
sort of all that was added, in which `lower_bound` counts the earlier entries. -/
theorem replayIndex_ordered (calls : List IndexCall) :
    ((indexAfter calls).sorted = true →
      (indexAfter calls).entries.Pairwise fun a b => a.timestampNs ≤ b.timestampNs) ∧
    StableSorted (fun e : IndexEntry => e.timestampNs.toNat) (addedAfter (calls ++ [.finalize]))
      (indexAfter (calls ++ [.finalize])).entries ∧
    ∀ t, (indexAfter (calls ++ [.finalize])).lowerBound t =
      (indexAfter (calls ++ [.finalize])).entries.countP fun e => e.timestampNs < t := by
  have hinv := indexAfter_inv calls
  have hafter : indexAfter (calls ++ [.finalize]) = (indexAfter calls).finalize := by
    rw [indexAfter, List.foldl_append]
    rfl
  have hadded : addedAfter (calls ++ [.finalize]) = addedAfter calls := by
    rw [addedAfter, List.foldl_append]
    rfl
  have hsorts := (stableSorted_iff entryLt_iff).mpr hinv.finalize_entries
  rw [hafter, hadded]
  refine ⟨hinv.flag, hsorts, fun t => ?_⟩
  simpa only [ReplayIndex.lowerBound, UInt64.lt_iff_toNat_lt] using
    lowerBound_eq_countP (fun e : IndexEntry => e.timestampNs.toNat) t.toNat hsorts.sorted

end SensorForge.Replay
