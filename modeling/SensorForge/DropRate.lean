import SensorForge.Metrics

/-! The drop rate of recorded messages. It compares intervals seen with intervals expected
over a window that the messages span themselves, so that what is lost at its ends
shortens it. -/

namespace SensorForge.Scenarios

open Faults

structure Sample where
  latencyMs : ℚ
  arrivalS : ℚ
  gapBefore : Bool
  deriving DecidableEq

/-- The metrics of a stream once the samples were recorded in this order. -/
def recorded (name : String) (expectedRateHz durationSeconds : ℚ) (xs : List Sample) :
    StreamMetrics ℚ :=
  xs.foldl (fun m x => m.record x.latencyMs x.arrivalS x.gapBefore)
    { name, expectedRateHz, durationSeconds }

def firstArrival (xs : List Sample) : ℚ := (xs.head?.map Sample.arrivalS).getD 0

def lastArrival (xs : List Sample) : ℚ := (xs.getLast?.map Sample.arrivalS).getD 0

def windowOf (xs : List Sample) : ℚ := lastArrival xs - firstArrival xs

theorem recorded_append (name : String) (rate duration : ℚ) (xs : List Sample) (x : Sample) :
    recorded name rate duration (xs ++ [x]) =
      (recorded name rate duration xs).record x.latencyMs x.arrivalS x.gapBefore := by
  rw [recorded, List.foldl_append]
  rfl

theorem recorded_eq (name : String) (rate duration : ℚ) (xs : List Sample) :
    recorded name rate duration xs =
      { name, expectedRateHz := rate, durationSeconds := duration
        latenciesMs := xs.map Sample.latencyMs, received := xs.length
        sequenceGaps := xs.countP Sample.gapBefore, hasArrival := !xs.isEmpty
        firstArrivalS := firstArrival xs, lastArrivalS := lastArrival xs } := by
  induction xs using List.reverseRecOn with
  | nil => rfl
  | append_singleton xs x ih =>
    rw [recorded_append, ih]
    have hlast : lastArrival (xs ++ [x]) = x.arrivalS := by simp [lastArrival]
    have hfirst : firstArrival (xs ++ [x]) =
        if xs.isEmpty then x.arrivalS else firstArrival xs := by
      cases xs <;> rfl
    have hgaps : (xs ++ [x]).countP Sample.gapBefore =
        if x.gapBefore then xs.countP Sample.gapBefore + 1 else xs.countP Sample.gapBefore := by
      rw [List.countP_append, List.countP_singleton]
      split <;> rfl
    rw [hlast, hfirst, hgaps]
    simp only [StreamMetrics.record, StreamMetrics.recordLatency, List.map_append,
      List.length_append]
    cases xs <;> rfl

/-- The missing share of what was expected, in percent. -/
def lossPct (expected observed : ℚ) : ℚ :=
  if expected ≤ 0 then 0 else
  100 * (if expected - observed > 0 then expected - observed else 0) / expected

theorem dropRatePct_recorded (name : String) (rate duration : ℚ) (xs : List Sample) :
    (recorded name rate duration xs).dropRatePct =
      if xs.length ≥ 2 ∧ windowOf xs > 0 then lossPct (rate * windowOf xs) (xs.length - 1)
      else lossPct (rate * duration) xs.length := by
  have hne : xs.length ≥ 2 → (!xs.isEmpty) = true := by
    intro h
    cases xs with
    | nil => exact absurd h (by simp)
    | cons x xs => rfl
  have hcond : ((!xs.isEmpty) = true ∧ xs.length ≥ 2 ∧ windowOf xs > 0) ↔
      (xs.length ≥ 2 ∧ windowOf xs > 0) := ⟨And.right, fun h => ⟨hne h.1, h⟩⟩
  rw [recorded_eq]
  exact if_congr hcond rfl rfl

theorem lossPct_eq {expected : ℚ} (he : 0 < expected) (observed : ℚ) :
    lossPct expected observed = 100 * max 0 (1 - observed / expected) := by
  have hdiv : (expected - observed) / expected = 1 - observed / expected := by
    rw [sub_div, div_self he.ne']
  rw [lossPct, if_neg (not_le.mpr he), mul_div_assoc]
  congr 1
  by_cases h : expected - observed > 0
  · rw [if_pos h, hdiv, max_eq_right]
    rw [← hdiv]
    exact (div_pos h he).le
  · rw [if_neg h, zero_div, max_eq_left]
    rw [← hdiv]
    exact div_nonpos_of_nonpos_of_nonneg (not_lt.mp h) he.le

theorem lossPct_le_iff {e e' : ℚ} (he : 0 < e) (he' : 0 < e') (o o' : ℚ) :
    lossPct e o ≤ lossPct e' o' ↔ e ≤ o ∨ o' * e ≤ o * e' := by
  have hzero : 1 - o / e ≤ 0 ↔ e ≤ o := by
    rw [sub_nonpos, one_le_div he]
  have hratio : 1 - o / e ≤ 1 - o' / e' ↔ o' * e ≤ o * e' := by
    rw [sub_le_sub_iff_left, div_le_div_iff₀ he' he]
  rw [lossPct_eq he, lossPct_eq he', mul_le_mul_iff_right₀ (by norm_num), max_le_iff, le_max_iff,
    le_max_iff, hzero, hratio]
  simp

theorem lossPct_nonpos {e : ℚ} (he : e ≤ 0) (o : ℚ) : lossPct e o = 0 := if_pos he

theorem lossPct_eq_zero_iff (e o : ℚ) : lossPct e o = 0 ↔ e ≤ 0 ∨ e ≤ o := by
  by_cases he : e ≤ 0
  · rw [lossPct_nonpos he]
    simp [he]
  · have hpos := not_le.mp he
    rw [lossPct_eq hpos, mul_eq_zero_iff_left (by norm_num), max_eq_left_iff, sub_nonpos,
      one_le_div hpos]
    simp [he]

def Increasing (xs : List Sample) : Prop := xs.Pairwise fun x y => x.arrivalS < y.arrivalS

theorem Increasing.windowOf_pos {xs : List Sample} (h : Increasing xs) (htwo : 2 ≤ xs.length) :
    0 < windowOf xs := by
  match xs, htwo with
  | x :: y :: rest, _ =>
    have hlast : lastArrival (x :: y :: rest) = ((y :: rest).getLast (by simp)).arrivalS := by
      rw [lastArrival, List.getLast?_eq_some_getLast (List.cons_ne_nil _ _), List.getLast_cons]
      rfl
    rw [windowOf, hlast, sub_pos]
    exact (List.pairwise_cons.mp h).1 _ (List.getLast_mem _)

theorem Increasing.dropRatePct_eq {xs : List Sample} (h : Increasing xs) (htwo : 2 ≤ xs.length)
    (name : String) (rate duration : ℚ) :
    (recorded name rate duration xs).dropRatePct =
      lossPct (rate * windowOf xs) (xs.length - 1) := by
  rw [dropRatePct_recorded, if_pos ⟨htwo, h.windowOf_pos htwo⟩]

/-- The drop rate of what is left is no better exactly if nothing was expected, nothing
was missing before, or no more intervals are seen in the time they span. -/
theorem Increasing.dropRatePct_le_iff {xs ys : List Sample} (hxs : Increasing xs)
    (hys : Increasing ys) (hxtwo : 2 ≤ xs.length) (hytwo : 2 ≤ ys.length) (name : String)
    (rate duration : ℚ) :
    (recorded name rate duration xs).dropRatePct ≤ (recorded name rate duration ys).dropRatePct ↔
      rate ≤ 0 ∨ rate * windowOf xs ≤ xs.length - 1 ∨
        (ys.length - 1) * windowOf xs ≤ (xs.length - 1) * windowOf ys := by
  have hw := hxs.windowOf_pos hxtwo
  have hw' := hys.windowOf_pos hytwo
  rw [hxs.dropRatePct_eq hxtwo, hys.dropRatePct_eq hytwo]
  by_cases hrate : rate ≤ 0
  · have hnone : ∀ w o : ℚ, 0 < w → lossPct (rate * w) o = 0 := fun w o hw =>
      lossPct_nonpos (mul_nonpos_of_nonpos_of_nonneg hrate hw.le) o
    rw [hnone _ _ hw, hnone _ _ hw']
    simp [hrate]
  · have hpos := not_le.mp hrate
    have hscale : ((ys.length : ℚ) - 1) * (rate * windowOf xs) ≤
        (xs.length - 1) * (rate * windowOf ys) ↔
        ((ys.length : ℚ) - 1) * windowOf xs ≤ (xs.length - 1) * windowOf ys := by
      rw [mul_left_comm, mul_left_comm _ rate, mul_le_mul_iff_right₀ hpos]
    rw [lossPct_le_iff (mul_pos hpos hw) (mul_pos hpos hw'), hscale]
    simp [hrate]

theorem windowOf_congr {xs ys : List Sample} (hfirst : ys.head? = xs.head?)
    (hlast : ys.getLast? = xs.getLast?) : windowOf ys = windowOf xs := by
  rw [windowOf, windowOf, firstArrival, firstArrival, lastArrival, lastArrival, hfirst, hlast]

theorem drop_rate_monotone (name : String) (rate duration : ℚ) {xs ys : List Sample}
    (hxs : Increasing xs) (hsub : ys.Sublist xs) (htwo : 2 ≤ ys.length) :
    ((recorded name rate duration xs).dropRatePct ≤ (recorded name rate duration ys).dropRatePct ↔
      rate ≤ 0 ∨ rate * windowOf xs ≤ xs.length - 1 ∨
        (ys.length - 1) * windowOf xs ≤ (xs.length - 1) * windowOf ys) ∧
    (ys.head? = xs.head? → ys.getLast? = xs.getLast? →
      (recorded name rate duration xs).dropRatePct ≤
        (recorded name rate duration ys).dropRatePct ∧
      ∀ out x window,
        (evaluate ⟨name ++ "_drop_rate_pct", .kLessThan, x, window⟩
          ((recorded name rate duration ys).emit out)).passed = true →
        (evaluate ⟨name ++ "_drop_rate_pct", .kLessThan, x, window⟩
          ((recorded name rate duration xs).emit out)).passed = true) := by
  have hxtwo : 2 ≤ xs.length := htwo.trans hsub.length_le
  have hiff := hxs.dropRatePct_le_iff (hxs.sublist hsub) hxtwo htwo name rate duration
  refine ⟨hiff, fun hfirst hlast => ?_⟩
  have hwindow := windowOf_congr hfirst hlast
  have hlength : (ys.length : ℚ) ≤ xs.length := Nat.cast_le.mpr hsub.length_le
  have hle : (recorded name rate duration xs).dropRatePct ≤
      (recorded name rate duration ys).dropRatePct := by
    refine hiff.mpr (Or.inr (Or.inr ?_))
    rw [hwindow]
    exact mul_le_mul_of_nonneg_right (by linarith) (hxs.windowOf_pos hxtwo).le
  have hname : ∀ zs, (recorded name rate duration zs).name = name := fun zs => by rw [recorded_eq]
  refine ⟨hle, fun out x window hpass => ?_⟩
  have hys := emit_dropRate (recorded name rate duration ys) out
  have hxs := emit_dropRate (recorded name rate duration xs) out
  rw [hname] at hys hxs
  rw [evaluate_lessThan hys] at hpass
  rw [evaluate_lessThan hxs]
  exact hle.trans_lt hpass

def lateStart : List Sample :=
  [⟨1, 0, false⟩, ⟨1, 3, false⟩, ⟨1, 4, false⟩]

theorem lateStart_increasing : Increasing lateStart := by
  unfold Increasing lateStart
  decide

theorem drop_rate_monotone_interior :
    (recorded "imu" 1 30 lateStart).dropRatePct ≤
      (recorded "imu" 1 30 [⟨1, 0, false⟩, ⟨1, 4, false⟩]).dropRatePct :=
  have hsub : [⟨1, 0, false⟩, ⟨1, 4, false⟩].Sublist lateStart := by decide
  ((drop_rate_monotone "imu" 1 30 lateStart_increasing hsub (by decide)).2 rfl rfl).1

/-- Without the first of three messages the gap behind it is not seen any more. -/
theorem first_message_lost :
    ¬ ∀ (name : String) (rate duration : ℚ) (xs ys : List Sample), Increasing xs →
      ys.Sublist xs → 2 ≤ ys.length →
      (recorded name rate duration xs).dropRatePct ≤
        (recorded name rate duration ys).dropRatePct := by
  intro h
  have hle := h "imu" 1 30 lateStart lateStart.tail lateStart_increasing (by decide) (by decide)
  have hinc : Increasing lateStart.tail := lateStart_increasing.sublist (List.tail_sublist _)
  rw [lateStart_increasing.dropRatePct_le_iff hinc (by decide) (by decide)] at hle
  norm_num [lateStart, windowOf, firstArrival, lastArrival] at hle

end SensorForge.Scenarios
