import SensorForge.EdgeLatch
import SensorForge.FaultBalance

/-! The calls of the restart hook. The memory of a stream is set while a restart rule is
active, but only a call that finds no rule at all clears it. -/

namespace SensorForge.Faults

open EdgeLatch Transition

variable {ω D : Type} [Double D] {W : World ω D}

def restartActive (rules : List (FaultRule D)) (c : ProcessCall D) : Bool :=
  rules.any fun r => r.matchesStream c.stream && r.activeAt c.tS && r.kind = .kProcessRestart

def noneActive (rules : List (FaultRule D)) (c : ProcessCall D) : Bool :=
  !rules.any fun r => r.matchesStream c.stream && r.activeAt c.tS

def callsOn (stream : String) (calls : List (ProcessCall D)) : List (ProcessCall D) :=
  calls.filter fun c => c.stream = stream

/-- The memory of a stream, and the calls of the hook for it. -/
def FaultEngine.restartLatch (e : FaultEngine ω D) (stream : String) : Latch where
  set := stream ∈ e.restartedThisWindow
  fired := e.restarts.count stream

theorem Onwards.restartLatch {e e' : FaultEngine ω D} (h : Onwards e e') (s : String) :
    e'.restartLatch s = e.restartLatch s := by
  rw [FaultEngine.restartLatch, h.restartedThisWindow, h.restarts]
  rfl

theorem restart_latch (stream : String) (e : FaultEngine ω D) (r : FaultRule D) (s : String) :
    (e.restart stream r).restartLatch s =
      if stream = s ∧ r.kind = .kProcessRestart then (e.restartLatch s).mark else e.restartLatch s := by
  unfold FaultEngine.restart
  by_cases hs : stream = s
  · subst hs
    by_cases hmem : stream ∈ e.restartedThisWindow <;>
      by_cases hkind : r.kind = .kProcessRestart <;>
      simp [FaultEngine.restartLatch, Latch.mark, hmem, hkind]
  · by_cases hfire : r.kind = .kProcessRestart ∧ stream ∉ e.restartedThisWindow
    · simp [FaultEngine.restartLatch, hfire, hs, Ne.symm hs]
    · simp [hfire, hs]

/-- The first of several restart rules fires; the others find the memory set. -/
theorem restarts_latch (stream : String) (e : FaultEngine ω D) (rs : List (FaultRule D))
    (s : String) : (rs.foldl (FaultEngine.restart stream) e).restartLatch s =
      if stream = s ∧ rs.any fun r => r.kind = .kProcessRestart then (e.restartLatch s).mark
      else e.restartLatch s := by
  induction rs generalizing e with
  | nil => simp
  | cons r rs ih =>
    rw [List.foldl_cons, ih, restart_latch]
    by_cases hs : stream = s <;> by_cases hkind : r.kind = .kProcessRestart <;>
      simp [hs, hkind, Latch.mark_mark]

theorem trackRestarts_latch (e : FaultEngine ω D) (active : List (FaultRule D))
    (stream s : String) : (e.trackRestarts active stream).restartLatch s =
      if stream = s then
        if active.any fun r => r.kind = .kProcessRestart then (e.restartLatch s).mark
        else if active.isEmpty then { e.restartLatch s with set := false }
        else e.restartLatch s
      else e.restartLatch s := by
  have hfold := restarts_latch stream e active s
  unfold FaultEngine.trackRestarts
  cases active with
  | nil =>
    by_cases hs : stream = s
    · simp [FaultEngine.restartLatch, hs]
    · simp [FaultEngine.restartLatch, hs, Ne.symm hs]
  | cons r rs =>
    by_cases hs : stream = s <;> simpa [hs] using hfold

theorem active_any_restart (e : FaultEngine ω D) (c : ProcessCall D) :
    ((e.active c.tS c.stream).any fun r => r.kind = .kProcessRestart) =
      restartActive e.rules c := by
  rw [FaultEngine.active, List.any_filter]
  rfl

theorem active_isEmpty (e : FaultEngine ω D) (c : ProcessCall D) :
    (e.active c.tS c.stream).isEmpty = noneActive e.rules c := by
  rw [FaultEngine.active, noneActive, Bool.eq_iff_iff, List.isEmpty_iff, List.filter_eq_nil_iff]
  simp

/-- What one call does to the memory and the hook of a stream. -/
theorem process_latch (e : FaultEngine ω D) (c : ProcessCall D) (s : String) :
    (e.process W c).restartLatch s =
      if c.stream = s then (e.restartLatch s).step (restartActive e.rules) (noneActive e.rules) c
      else e.restartLatch s := by
  have htrack := trackRestarts_latch { e with calls := e.calls ++ [c] }
    (e.active c.tS c.stream) c.stream s
  rw [active_any_restart, active_isEmpty] at htrack
  exact ((process_onwards e c).restartLatch s).trans htrack

/-- Between two calls nothing happens to them. -/
theorem next_latch {e e' : FaultEngine ω D} {a : EngineAction D} (h : e.next W a = some e')
    (ha : ∀ c, a ≠ .process c) (s : String) : e'.restartLatch s = e.restartLatch s := by
  cases next_step h with
  | process c => exact absurd rfl (ha c)
  | _ => rfl

/-- The memory and the hook of a stream are what a latch makes of its calls. -/
def FaultEngine.Latched (e : FaultEngine ω D) (s : String) : Prop :=
  e.restartLatch s = latch (restartActive e.rules) (noneActive e.rules) (callsOn s e.calls)

theorem FaultEngine.Latched.process {e : FaultEngine ω D} {s : String} (h : e.Latched s)
    (c : ProcessCall D) : (e.process W c).Latched s := by
  unfold FaultEngine.Latched at h ⊢
  rw [process_latch, process_rules, process_calls, callsOn, List.filter_append]
  by_cases hs : c.stream = s
  · have hown : [c].filter (fun c => c.stream = s) = [c] := by simp [hs]
    rw [if_pos hs, hown, latch_append, h]
    rfl
  · have hother : [c].filter (fun c => c.stream = s) = [] := by simp [hs]
    rw [if_neg hs, hother, List.append_nil, h]
    rfl

theorem FaultEngine.Latched.next {e e' : FaultEngine ω D} {a : EngineAction D} {s : String}
    (hl : e.Latched s) (h : e.next W a = some e') : e'.rules = e.rules ∧ e'.Latched s := by
  by_cases ha : ∃ c, a = .process c
  · obtain ⟨c, rfl⟩ := ha
    cases next_step h
    exact ⟨process_rules e c, hl.process c⟩
  · have hother : ∀ c, a ≠ .process c := fun c hc => ha ⟨c, hc⟩
    have hcarries := next_carries h hother
    refine ⟨hcarries.rules, ?_⟩
    unfold FaultEngine.Latched
    rw [next_latch h hother, hcarries.rules, hcarries.calls]
    exact hl

theorem reachable_latched {rules : List (FaultRule D)} {e : FaultEngine ω D}
    (h : (system W rules).Reachable anyStep e) (s : String) :
    e.rules = rules ∧ e.Latched s := by
  refine h.invariant (P := fun e => e.rules = rules ∧ e.Latched s) ?_ ?_
  · rintro e ⟨world, rfl⟩
    exact ⟨rfl, rfl⟩
  · rintro e a e' ⟨hrules, hlatched⟩ _ hn
    obtain ⟨hsame, hlatched'⟩ := hlatched.next hn
    exact ⟨hsame.trans hrules, hlatched'⟩

/-- The hook is called once for each maximal run of calls with an active restart rule exactly
if in each gap between two such runs some call finds no rule active. -/
theorem restart_once_per_window_iff {rules : List (FaultRule D)} {e : FaultEngine ω D}
    (h : (system W rules).Reachable anyStep e) (stream : String) :
    e.restarts.count stream =
        (maximalRuns (restartActive rules) (callsOn stream e.calls)).length ↔
      Separated (restartActive rules) (noneActive rules) (callsOn stream e.calls) := by
  obtain ⟨rfl, hlatched⟩ := reachable_latched h stream
  rw [← fired_eq_iff, ← hlatched]
  rfl

def restartWindow (startS : Int64) : FaultRule Int64 :=
  { kind := .kProcessRestart, stream := "camera", startS := startS, durationS := 1 }

def duplicateRule : FaultRule Int64 := { kind := .kDuplicate, stream := "camera", durationS := 3 }

/-- Frames of the camera at 0, 1 and 2 s: in the first window, between the two, in the second. -/
def cameraCalls : List (ProcessCall Int64) :=
  [0, 1, 2].map fun t => { data := [7], tS := t, stream := "camera" }

/-- The engine of `rules` after the frames of the camera. -/
def afterCamera (rules : List (FaultRule Int64)) :
    Option (FaultEngine (List Int64 × List Int) Int64) :=
  (system scriptedWorld rules).run anyStep { rules := rules, world := ([], []) }
    (cameraCalls.map .process)

theorem afterCamera_reachable (rules : List (FaultRule Int64))
    {e : FaultEngine (List Int64 × List Int) Int64} (h : afterCamera rules = some e) :
    (system scriptedWorld rules).Reachable anyStep e :=
  System.Reachable.run (.start ⟨([], []), rfl⟩) h

theorem restart_once_per_window_apart :
    ∃ e, afterCamera [restartWindow 0, restartWindow 2] = some e ∧
      e.restarts.count "camera" = 2 ∧
      Separated (restartActive [restartWindow 0, restartWindow 2])
        (noneActive [restartWindow 0, restartWindow 2]) (callsOn "camera" e.calls) := by
  obtain ⟨e, he⟩ : ∃ e, afterCamera [restartWindow 0, restartWindow 2] = some e := ⟨_, rfl⟩
  have hcount : e.restarts.count "camera" = 2 ∧
      (maximalRuns (restartActive [restartWindow 0, restartWindow 2])
        (callsOn "camera" e.calls)).length = 2 := by
    cases he
    decide
  exact ⟨e, he, hcount.1, (restart_once_per_window_iff (afterCamera_reachable _ he)
    "camera").mp (hcount.1.trans hcount.2.symm)⟩

/-- Another rule that is active between two windows keeps the memory set: the second window
passes without a call of the hook. -/
theorem restart_skips_window :
    ¬ ∀ (rules : List (FaultRule Int64)) (e : FaultEngine (List Int64 × List Int) Int64)
      (stream : String), (system scriptedWorld rules).Reachable anyStep e →
      e.restarts.count stream =
        (maximalRuns (restartActive rules) (callsOn stream e.calls)).length := by
  intro h
  have hcount := h [restartWindow 0, duplicateRule, restartWindow 2] _ "camera"
    (afterCamera_reachable _ rfl)
  revert hcount
  decide

end SensorForge.Faults
