import SensorForge.DropRate

/-! Two orders of recording the same samples. Everything that is emitted but the drop
rate is the same; the drop rate depends on which samples were recorded first and last. -/

namespace SensorForge.Scenarios

open Faults OrderStatistic

theorem emit_congr {m m' : StreamMetrics ℚ} (hname : m.name = m'.name)
    (hrate : m.msgsPerSec = m'.msgsPerSec) (hdrop : m.dropRatePct = m'.dropRatePct)
    (hpct : ∀ p, m.pct p = m'.pct p) (hgaps : m.sequenceGaps = m'.sequenceGaps)
    (hreceived : m.received = m'.received) (out : MetricMap) : m.emit out = m'.emit out := by
  rw [StreamMetrics.emit, StreamMetrics.emit, hname, hrate, hdrop, hpct, hpct, hpct, hgaps,
    hreceived]

section

variable {xs ys : List Sample} (h : xs.Perm ys) (name : String) (rate duration : ℚ)

include h

theorem recorded_received_perm :
    (recorded name rate duration xs).received = (recorded name rate duration ys).received := by
  rw [recorded_eq, recorded_eq]
  exact h.length_eq

theorem recorded_msgsPerSec_perm :
    (recorded name rate duration xs).msgsPerSec = (recorded name rate duration ys).msgsPerSec := by
  rw [recorded_eq, recorded_eq, StreamMetrics.msgsPerSec, StreamMetrics.msgsPerSec]
  simp only [h.length_eq]

theorem recorded_sequenceGaps_perm :
    (recorded name rate duration xs).sequenceGaps =
      (recorded name rate duration ys).sequenceGaps := by
  rw [recorded_eq, recorded_eq]
  exact h.countP_eq _

theorem recorded_pct_perm (p : ℚ) :
    (recorded name rate duration xs).pct p = (recorded name rate duration ys).pct p := by
  have hlatencies := h.map Sample.latencyMs
  have hempty : (xs.map Sample.latencyMs).isEmpty = (ys.map Sample.latencyMs).isEmpty :=
    hlatencies.isEmpty_eq
  rw [recorded_eq, recorded_eq, StreamMetrics.pct, StreamMetrics.pct]
  simp only [hempty, sorted_congr hlatencies]

theorem emit_perm_iff :
    (∀ out, (recorded name rate duration xs).emit out = (recorded name rate duration ys).emit out) ↔
      (recorded name rate duration xs).dropRatePct =
        (recorded name rate duration ys).dropRatePct := by
  have hname : (recorded name rate duration xs).name = (recorded name rate duration ys).name := by
    rw [recorded_eq, recorded_eq]
  constructor
  · intro hemit
    have hkey := congrFun (hemit fun _ => none)
      ((recorded name rate duration xs).name ++ "_drop_rate_pct")
    rw [emit_dropRate, hname, emit_dropRate] at hkey
    exact Option.some.inj hkey
  · exact fun hdrop => emit_congr hname (recorded_msgsPerSec_perm h name rate duration) hdrop
      (recorded_pct_perm h name rate duration) (recorded_sequenceGaps_perm h name rate duration)
      (recorded_received_perm h name rate duration)

end

/-- What the drop rate compares: the intervals expected in the window with those seen, or
the messages expected in the whole run with those received. -/
def expectation (rate duration : ℚ) (xs : List Sample) : ℚ × ℚ :=
  if xs.length ≥ 2 ∧ windowOf xs > 0 then (rate * windowOf xs, xs.length - 1)
  else (rate * duration, xs.length)

def NothingMissing (e : ℚ × ℚ) : Prop := e.1 ≤ 0 ∨ e.1 ≤ e.2

def SameShare (e e' : ℚ × ℚ) : Prop := 0 < e.1 ∧ 0 < e'.1 ∧ e.2 * e'.1 = e'.2 * e.1

theorem dropRatePct_expectation (name : String) (rate duration : ℚ) (xs : List Sample) :
    (recorded name rate duration xs).dropRatePct =
      lossPct (expectation rate duration xs).1 (expectation rate duration xs).2 := by
  rw [dropRatePct_recorded, expectation]
  split <;> rfl

theorem lossPct_eq_iff (e e' : ℚ × ℚ) :
    lossPct e.1 e.2 = lossPct e'.1 e'.2 ↔
      NothingMissing e ∧ NothingMissing e' ∨ SameShare e e' := by
  constructor
  · intro heq
    by_cases hzero : NothingMissing e
    · have hzero' : lossPct e'.1 e'.2 = 0 := by
        rw [← heq]
        exact (lossPct_eq_zero_iff _ _).mpr hzero
      exact Or.inl ⟨hzero, (lossPct_eq_zero_iff _ _).mp hzero'⟩
    · have hzero' : ¬ NothingMissing e' := fun h =>
        hzero ((lossPct_eq_zero_iff _ _).mp (heq.trans ((lossPct_eq_zero_iff _ _).mpr h)))
      obtain ⟨hpos, hmissing⟩ := not_or.mp hzero
      obtain ⟨hpos', hmissing'⟩ := not_or.mp hzero'
      have he := not_le.mp hpos
      have he' := not_le.mp hpos'
      have hle := ((lossPct_le_iff he he' _ _).mp heq.le).resolve_left hmissing
      have hge := ((lossPct_le_iff he' he _ _).mp heq.ge).resolve_left hmissing'
      exact Or.inr ⟨he, he', le_antisymm hge hle⟩
  · rintro (⟨hzero, hzero'⟩ | ⟨he, he', hshare⟩)
    · rw [(lossPct_eq_zero_iff _ _).mpr hzero, (lossPct_eq_zero_iff _ _).mpr hzero']
    · exact le_antisymm ((lossPct_le_iff he he' _ _).mpr (Or.inr hshare.ge))
        ((lossPct_le_iff he' he _ _).mpr (Or.inr hshare.le))

def arrivals (xs : List Sample) : Set ℚ := { t | ∃ x ∈ xs, x.arrivalS = t }

def IsArrivalWindow (m : StreamMetrics ℚ) (xs : List Sample) : Prop :=
  IsLeast (arrivals xs) m.firstArrivalS ∧ IsGreatest (arrivals xs) m.lastArrivalS

/-- Two orders of recording, as they should be: the same metrics, and the window from the
earliest to the latest arrival. -/
structure OrderFree (name : String) (rate duration : ℚ) (xs ys : List Sample) : Prop where
  emit : ∀ out,
    (recorded name rate duration xs).emit out = (recorded name rate duration ys).emit out
  window : xs ≠ [] → IsArrivalWindow (recorded name rate duration xs) xs
  window' : ys ≠ [] → IsArrivalWindow (recorded name rate duration ys) ys

/-- No sample arrived before the one recorded first or after the one recorded last. -/
def EndsExtreme (xs : List Sample) : Prop :=
  ∀ x ∈ xs, (∀ first ∈ xs.head?, first.arrivalS ≤ x.arrivalS) ∧
    ∀ last ∈ xs.getLast?, x.arrivalS ≤ last.arrivalS

theorem arrivals_perm {xs ys : List Sample} (h : xs.Perm ys) : arrivals xs = arrivals ys := by
  ext t
  simp only [arrivals, Set.mem_ofPred_eq, h.mem_iff]

theorem isArrivalWindow_iff (name : String) (rate duration : ℚ) {xs : List Sample}
    (hne : xs ≠ []) : IsArrivalWindow (recorded name rate duration xs) xs ↔ EndsExtreme xs := by
  obtain ⟨first, hfirst⟩ := Option.ne_none_iff_exists'.mp (mt List.head?_eq_none_iff.mp hne)
  obtain ⟨last, hlast⟩ := Option.ne_none_iff_exists'.mp (mt List.getLast?_eq_none_iff.mp hne)
  have hends : EndsExtreme xs ↔
      ∀ x ∈ xs, first.arrivalS ≤ x.arrivalS ∧ x.arrivalS ≤ last.arrivalS := by
    simp [EndsExtreme, hfirst, hlast]
  have hmem : first ∈ xs := List.mem_of_head? hfirst
  have hmem' : last ∈ xs := List.mem_of_getLast? hlast
  rw [hends, recorded_eq, IsArrivalWindow]
  simp only [firstArrival, lastArrival, hfirst, hlast, Option.map_some, Option.getD_some]
  constructor
  · rintro ⟨hleast, hgreatest⟩ x hx
    exact ⟨hleast.2 ⟨x, hx, rfl⟩, hgreatest.2 ⟨x, hx, rfl⟩⟩
  · intro hall
    refine ⟨⟨⟨first, hmem, rfl⟩, ?_⟩, ⟨last, hmem', rfl⟩, ?_⟩
    · rintro t ⟨x, hx, rfl⟩
      exact (hall x hx).1
    · rintro t ⟨x, hx, rfl⟩
      exact (hall x hx).2

theorem orderFree_iff {xs ys : List Sample} (h : xs.Perm ys) (name : String) (rate duration : ℚ) :
    OrderFree name rate duration xs ys ↔ EndsExtreme xs ∧ EndsExtreme ys := by
  rcases eq_or_ne xs [] with rfl | hne
  · obtain rfl := h.nil_eq
    exact ⟨fun _ => ⟨nofun, nofun⟩, fun _ => ⟨fun _ => rfl, nofun, nofun⟩⟩
  have hne' : ys ≠ [] := fun hnil => hne (List.perm_nil.mp (hnil ▸ h))
  rw [← isArrivalWindow_iff name rate duration hne, ← isArrivalWindow_iff name rate duration hne']
  constructor
  · exact fun hfree => ⟨hfree.window hne, hfree.window' hne'⟩
  · rintro ⟨hxs, hys⟩
    refine ⟨(emit_perm_iff h name rate duration).mpr ?_, fun _ => hxs, fun _ => hys⟩
    have hwindow : windowOf xs = windowOf ys := by
      rw [IsArrivalWindow, arrivals_perm h, recorded_eq] at hxs
      rw [IsArrivalWindow, recorded_eq] at hys
      exact congrArg₂ (· - ·) (hxs.2.unique hys.2) (hxs.1.unique hys.1)
    rw [dropRatePct_recorded, dropRatePct_recorded, hwindow, h.length_eq]

theorem emit_other_perm {xs ys : List Sample} (h : xs.Perm ys) (name : String)
    (rate duration : ℚ) (out : MetricMap) {key : String} (hkey : key ≠ name ++ "_drop_rate_pct") :
    (recorded name rate duration xs).emit out key =
      (recorded name rate duration ys).emit out key := by
  have hname : ∀ zs, (recorded name rate duration zs).name = name := fun zs => by rw [recorded_eq]
  simp only [StreamMetrics.emit, MetricMap.set, Function.update_apply, hname, hkey, if_false,
    recorded_msgsPerSec_perm h, recorded_pct_perm h, recorded_sequenceGaps_perm h,
    recorded_received_perm h]

/-- Two orders of the same samples: which metrics agree, when all of them do, and when
the window is the one from the earliest to the latest arrival as well. -/
theorem recording_order_iff {xs ys : List Sample} (h : xs.Perm ys) (name : String)
    (rate duration : ℚ) :
    (OrderFree name rate duration xs ys ↔ EndsExtreme xs ∧ EndsExtreme ys) ∧
    ((∀ out, (recorded name rate duration xs).emit out =
        (recorded name rate duration ys).emit out) ↔
      NothingMissing (expectation rate duration xs) ∧
          NothingMissing (expectation rate duration ys) ∨
        SameShare (expectation rate duration xs) (expectation rate duration ys)) ∧
    ∀ out key, key ≠ name ++ "_drop_rate_pct" →
      (recorded name rate duration xs).emit out key =
        (recorded name rate duration ys).emit out key := by
  refine ⟨orderFree_iff h name rate duration, ?_,
    fun out key hkey => emit_other_perm h name rate duration out hkey⟩
  rw [emit_perm_iff h, dropRatePct_expectation, dropRatePct_expectation, lossPct_eq_iff]

def inOrder : List Sample := [⟨1, 0, false⟩, ⟨2, 1, false⟩, ⟨3, 2, true⟩, ⟨1, 3, false⟩]

def middleSwapped : List Sample := [⟨1, 0, false⟩, ⟨3, 2, true⟩, ⟨2, 1, false⟩, ⟨1, 3, false⟩]

theorem recording_order_swapped :
    (recorded "imu" 10 1 inOrder).emit = (recorded "imu" 10 1 middleSwapped).emit := by
  have hperm : inOrder.Perm middleSwapped := (List.Perm.swap _ _ _).cons _
  have hin : EndsExtreme inOrder := by
    unfold EndsExtreme inOrder
    decide
  have hswapped : EndsExtreme middleSwapped := by
    unfold EndsExtreme middleSwapped
    decide
  exact funext ((recording_order_iff hperm "imu" 10 1).1.mpr ⟨hin, hswapped⟩).emit

/-- Recorded in the other order, the window is negative and the whole run is expected. -/
theorem drop_rate_by_call_order :
    ¬ ∀ (name : String) (rate duration : ℚ) (xs ys : List Sample), xs.Perm ys →
      ∀ out, (recorded name rate duration xs).emit out =
        (recorded name rate duration ys).emit out := by
  intro h
  have hemit := h "imu" 10 1 inOrder inOrder.reverse inOrder.reverse_perm.symm
  rw [emit_perm_iff inOrder.reverse_perm.symm, dropRatePct_expectation, dropRatePct_expectation,
    lossPct_eq_iff] at hemit
  norm_num [expectation, NothingMissing, SameShare, inOrder, windowOf, firstArrival,
    lastArrival] at hemit

end SensorForge.Scenarios
