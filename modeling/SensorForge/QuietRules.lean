import SensorForge.FaultBalance

/-! Runs of `process` calls, and the stages of a call that find no rule of their kind. -/

namespace SensorForge.Faults

open Double (ofInt)

variable {ω D : Type} [Double D] {W : World ω D}

/-- The engine of `rules` after the calls, one after the other. -/
def processed (W : World ω D) (rules : List (FaultRule D)) (world : ω)
    (calls : List (ProcessCall D)) : FaultEngine ω D :=
  calls.foldl (FaultEngine.process W) { rules := rules, world := world }

theorem processed_append (rules : List (FaultRule D)) (world : ω) (calls : List (ProcessCall D))
    (c : ProcessCall D) :
    processed W rules world (calls ++ [c]) = (processed W rules world calls).process W c := by
  rw [processed, List.foldl_append]
  rfl

theorem processed_rules (rules : List (FaultRule D)) (world : ω) (calls : List (ProcessCall D)) :
    (processed W rules world calls).rules = rules := by
  induction calls using List.reverseRecOn with
  | nil => rfl
  | append_singleton calls c ih => rw [processed_append, process_rules, ih]

theorem processed_calls (rules : List (FaultRule D)) (world : ω) (calls : List (ProcessCall D)) :
    (processed W rules world calls).calls = calls := by
  induction calls using List.reverseRecOn with
  | nil => rfl
  | append_singleton calls c ih => rw [processed_append, process_calls, ih]

theorem processed_fromCalls (rules : List (FaultRule D)) (world : ω)
    (calls : List (ProcessCall D)) : (processed W rules world calls).FromCalls := by
  induction calls using List.reverseRecOn with
  | nil => simp [processed, FaultEngine.FromCalls, FaultEngine.frames, FaultEngine.waiting]
  | append_singleton calls c ih =>
    rw [processed_append]
    exact ih.process c

theorem written_call_lt {e : FaultEngine ω D} (hfrom : e.FromCalls) :
    ∀ f ∈ e.written.map Written.frame, f.call < e.calls.length := by
  intro f hf
  obtain ⟨c, hc⟩ := hfrom f (Multiset.mem_add.mpr (.inr hf))
  exact (List.getElem?_eq_some_iff.mp hc.call).1

def reorderActive (rules : List (FaultRule D)) (c : ProcessCall D) : Bool :=
  rules.any fun r => r.matchesStream c.stream && r.activeAt c.tS && r.kind = .kReorder

theorem active_any_reorder (e : FaultEngine ω D) (c : ProcessCall D) :
    ((e.active c.tS c.stream).any fun r => r.kind = .kReorder) = reorderActive e.rules c := by
  rw [FaultEngine.active, List.any_filter]
  rfl

theorem mem_active {e : FaultEngine ω D} {tS : D} {stream : String} {r : FaultRule D}
    (h : r ∈ e.active tS stream) : r ∈ e.rules := (List.mem_filter.mp h).1

theorem suppressed_quiet {rs : List (FaultRule D)}
    (h : ∀ r ∈ rs, r.kind ≠ .kEcuDisconnect ∧ r.kind ≠ .kBurstLoss) : suppressed rs = false := by
  rw [suppressed, List.any_eq_false]
  intro r hr
  simp [h r hr]

theorem dropLoop_quiet (e : FaultEngine ω D) {rs : List (FaultRule D)}
    (h : ∀ r ∈ rs, r.kind ≠ .kDrop) : e.dropLoop W rs = (e, false) := by
  induction rs with
  | nil => rfl
  | cons r rs ih =>
    rw [FaultEngine.dropLoop, if_neg fun hr => h r (by simp) hr.1]
    exact ih fun r' hr' => h r' (by simp [hr'])

theorem bandwidthLoop_quiet (size : D) (e : FaultEngine ω D) {rs : List (FaultRule D)}
    (h : ∀ r ∈ rs, r.kind ≠ .kBandwidthLimit) : e.bandwidthLoop W size rs = (e, false) := by
  induction rs with
  | nil => rfl
  | cons r rs ih =>
    rw [FaultEngine.bandwidthLoop, if_neg fun hr => h r (by simp) hr.1]
    exact ih fun r' hr' => h r' (by simp [hr'])

theorem corruptLoop_quiet (e : FaultEngine ω D) (f : Frame) {rs : List (FaultRule D)}
    (h : ∀ r ∈ rs, r.kind ≠ .kCorrupt) : e.corruptLoop W f rs = (e, f) := by
  induction rs with
  | nil => rfl
  | cons r rs ih =>
    rw [FaultEngine.corruptLoop, if_neg fun hr => h r (by simp) hr.1]
    exact ih fun r' hr' => h r' (by simp [hr'])

theorem delayOf_quiet {rs : List (FaultRule D)} (h : ∀ r ∈ rs, r.kind ≠ .kDelay) :
    delayOf rs = ofInt 0 := by
  suffices hfold : ∀ ms : D,
      rs.foldl (fun ms r => if r.kind = .kDelay then maxD ms r.delayMs else ms) ms = ms from hfold _
  intro ms
  induction rs generalizing ms with
  | nil => rfl
  | cons r rs ih =>
    rw [List.foldl_cons, if_neg (h r (by simp))]
    exact ih (fun r' hr' => h r' (by simp [hr'])) ms

theorem emit_written (e : FaultEngine ω D) (f : Frame) :
    (e.emit W f).written.map Written.frame = e.written.map Written.frame ++ [f] := by
  simp [FaultEngine.emit]

/-- Without a delay a frame is written at once. -/
theorem dispatch_quiet (hzero : (ofInt 0 : D) ≤ ofInt 0) (e : FaultEngine ω D)
    {active : List (FaultRule D)} (h : ∀ r ∈ active, r.kind ≠ .kDelay) (f : Frame) :
    e.dispatchOrDelay W active f = e.emit W f := by
  rw [FaultEngine.dispatchOrDelay, delayOf_quiet h, if_pos hzero]

theorem duplicates_quiet (active : List (FaultRule D)) (f : Frame) (e : FaultEngine ω D)
    {rs : List (FaultRule D)} (h : ∀ r ∈ rs, r.kind ≠ .kDuplicate) :
    rs.foldl (FaultEngine.duplicate W active f) e = e := by
  induction rs with
  | nil => rfl
  | cons r rs ih =>
    rw [List.foldl_cons, FaultEngine.duplicate, if_neg (h r (by simp))]
    exact ih fun r' hr' => h r' (by simp [hr'])

end SensorForge.Faults
