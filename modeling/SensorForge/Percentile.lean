import SensorForge.Metrics

/-! What a percentile says of the samples: how many it covers, and what an assertion on
it guarantees. -/

namespace SensorForge.Scenarios

open Faults OrderStatistic

/-- The rank that a percentile is read at. -/
def rankOf (p : ℚ) (n : Nat) : Nat := ⌊p * (n - 1 : Nat)⌋₊

theorem rankOf_mono {p q : ℚ} (h : p ≤ q) (n : Nat) : rankOf p n ≤ rankOf q n :=
  Nat.floor_mono (mul_le_mul_of_nonneg_right h (Nat.cast_nonneg _))

theorem rankOf_lt {p : ℚ} (hp : p ≤ 1) {n : Nat} (hn : 0 < n) : rankOf p n < n := by
  have hle : rankOf p n ≤ rankOf 1 n := rankOf_mono hp n
  rw [rankOf, rankOf, one_mul, Nat.floor_natCast] at hle
  rw [rankOf]
  omega

theorem lt_rankOf_add_one (p : ℚ) {n : Nat} (hn : 0 < n) : p * (n - 1) < rankOf p n + 1 := by
  rw [rankOf, ← Nat.cast_pred hn]
  exact Nat.lt_floor_add_one _

theorem pct_eq {m : StreamMetrics ℚ} (hne : m.latenciesMs ≠ []) {p : ℚ} (hp : p ≤ 1) :
    ∃ hk : rankOf p m.latenciesMs.length < (sorted m.latenciesMs).length,
      m.pct p = (sorted m.latenciesMs)[rankOf p m.latenciesMs.length] := by
  have hk : rankOf p m.latenciesMs.length < (sorted m.latenciesMs).length := by
    rw [sorted_length]
    exact rankOf_lt hp (List.length_pos_of_ne_nil hne)
  refine ⟨hk, ?_⟩
  have hempty : ¬ m.latenciesMs.isEmpty = true := by simpa using hne
  rw [StreamMetrics.pct, if_neg hempty]
  simp only [sorted_length]
  exact (List.getElem_eq_getD 0).symm

theorem pct_mem {m : StreamMetrics ℚ} (hne : m.latenciesMs ≠ []) {p : ℚ} (hp : p ≤ 1) :
    m.pct p ∈ m.latenciesMs := by
  obtain ⟨hk, hpct⟩ := pct_eq hne hp
  rw [hpct]
  exact sorted_mem _ hk

theorem pct_mono {m : StreamMetrics ℚ} (hne : m.latenciesMs ≠ []) {p q : ℚ} (hpq : p ≤ q)
    (hq : q ≤ 1) : m.pct p ≤ m.pct q := by
  obtain ⟨hi, hp⟩ := pct_eq hne (hpq.trans hq)
  obtain ⟨hj, hq⟩ := pct_eq hne hq
  rw [hp, hq]
  exact sorted_mono _ (rankOf_mono hpq _) hj

theorem rankOf_lt_covered {m : StreamMetrics ℚ} (hne : m.latenciesMs ≠ []) {p : ℚ} (hp : p ≤ 1) :
    rankOf p m.latenciesMs.length < m.latenciesMs.countP (· ≤ m.pct p) := by
  obtain ⟨hk, hpct⟩ := pct_eq hne hp
  exact (lt_countP_le_iff _ hk _).mpr hpct.ge

/-- A percentile covers its share exactly if its rank suffices for that, or the sample
of the next rank is as large. -/
theorem covers_iff {m : StreamMetrics ℚ} (hne : m.latenciesMs ≠ []) {p : ℚ} (hp : p ≤ 1) :
    p * m.latenciesMs.length ≤ m.latenciesMs.countP (· ≤ m.pct p) ↔
      p * m.latenciesMs.length ≤ rankOf p m.latenciesMs.length + 1 ∨
        (sorted m.latenciesMs)[rankOf p m.latenciesMs.length + 1]? =
          (sorted m.latenciesMs)[rankOf p m.latenciesMs.length]? := by
  obtain ⟨hk, hpct⟩ := pct_eq hne hp
  have hcovered := rankOf_lt_covered hne hp
  have hshare : p * m.latenciesMs.length ≤ rankOf p m.latenciesMs.length + 2 := by
    have hfloor := lt_rankOf_add_one p (List.length_pos_of_ne_nil hne)
    linarith
  rw [← succ_lt_countP_iff _ hk, ← hpct]
  generalize rankOf p m.latenciesMs.length = k at *
  generalize m.latenciesMs.countP (· ≤ m.pct p) = c at *
  constructor
  · intro h
    by_cases hrank : p * m.latenciesMs.length ≤ k + 1
    · exact Or.inl hrank
    · have hlt : (k : ℚ) + 1 < c := (not_le.mp hrank).trans_le h
      exact Or.inr (by exact_mod_cast hlt)
  · rintro (h | h)
    · have hc : ((k + 1 : Nat) : ℚ) ≤ c := Nat.cast_le.mpr hcovered
      rw [Nat.cast_add, Nat.cast_one] at hc
      exact h.trans hc
    · have hc : ((k + 2 : Nat) : ℚ) ≤ c := Nat.cast_le.mpr h
      rw [Nat.cast_add, Nat.cast_ofNat] at hc
      exact hshare.trans hc

theorem rankOf_p99 (n : Nat) : rankOf (99 / 100) n = 99 * (n - 1) / 100 := by
  have hcast : (99 / 100 : ℚ) * (n - 1 : Nat) = ((99 * (n - 1) : Nat) : ℚ) / ((100 : Nat) : ℚ) := by
    push_cast
    ring
  rw [rankOf, hcast, Nat.floor_div_eq_div]

def Covered (m : StreamMetrics ℚ) (p : ℚ) : Prop :=
  p * m.latenciesMs.length ≤ m.latenciesMs.countP (· ≤ m.pct p)

def RankSuffices (xs : List ℚ) (p : ℚ) : Prop :=
  p * xs.length ≤ rankOf p xs.length + 1 ∨
    (sorted xs)[rankOf p xs.length + 1]? = (sorted xs)[rankOf p xs.length]?

theorem p99_passed {m : StreamMetrics ℚ} {out : MetricMap} {x : ℚ} {window : Option ℚ}
    (h : (evaluate ⟨m.name ++ "_latency_p99_ms", .kLessThan, x, window⟩ (m.emit out)).passed =
      true) : m.pct (99 / 100) < x :=
  (evaluate_lessThan (emit_p99 m out) x window).mp h

/-- What a percentile of a non-empty list says, and an assertion on the 99th. The share
itself is covered only under the condition. -/
theorem percentile_exact {m : StreamMetrics ℚ} (hne : m.latenciesMs ≠ []) :
    (∀ p, 0 ≤ p → p ≤ 1 →
      m.pct p ∈ m.latenciesMs ∧ (∀ q, p ≤ q → q ≤ 1 → m.pct p ≤ m.pct q) ∧
      p * (m.latenciesMs.length - 1) < m.latenciesMs.countP (· ≤ m.pct p) ∧
      (Covered m p ↔ RankSuffices m.latenciesMs p)) ∧
    ∀ out x window,
      (evaluate ⟨m.name ++ "_latency_p99_ms", .kLessThan, x, window⟩ (m.emit out)).passed = true →
      m.latenciesMs.countP (x ≤ ·) ≤ (m.latenciesMs.length - 1 + 99) / 100 ∧
        (RankSuffices m.latenciesMs (99 / 100) →
          100 * m.latenciesMs.countP (x ≤ ·) ≤ m.latenciesMs.length) := by
  have hn : 0 < m.latenciesMs.length := List.length_pos_of_ne_nil hne
  refine ⟨fun p hp0 hp => ⟨pct_mem hne hp, fun q hpq hq => pct_mono hne hpq hq, ?_,
    covers_iff hne hp⟩, fun out x window hpass => ⟨?_, fun hsuffices => ?_⟩⟩
  · have hcovered : ((rankOf p m.latenciesMs.length + 1 : Nat) : ℚ) ≤
        m.latenciesMs.countP (· ≤ m.pct p) := Nat.cast_le.mpr (rankOf_lt_covered hne hp)
    rw [Nat.cast_add, Nat.cast_one] at hcovered
    exact (lt_rankOf_add_one p hn).trans_le hcovered
  · have hcount := countP_add_countP_le m.latenciesMs (p99_passed hpass)
    have hcovered := rankOf_lt_covered hne (p := 99 / 100) (by norm_num)
    rw [rankOf_p99] at hcovered
    omega
  · have hcount := countP_add_countP_le m.latenciesMs (p99_passed hpass)
    have hcovered := (covers_iff hne (p := 99 / 100) (by norm_num)).mpr hsuffices
    have hsum : (m.latenciesMs.countP (x ≤ ·) : ℚ) +
        m.latenciesMs.countP (· ≤ m.pct (99 / 100)) ≤ m.latenciesMs.length := by
      exact_mod_cast hcount
    have hle : (100 * m.latenciesMs.countP (x ≤ ·) : ℚ) ≤ m.latenciesMs.length := by linarith
    exact_mod_cast hle

def twoSamples : StreamMetrics ℚ :=
  { name := "imu", expectedRateHz := 200, durationSeconds := 1, latenciesMs := [1, 2] }

theorem percentile_exact_two : twoSamples.pct (1 / 2) ∈ twoSamples.latenciesMs :=
  ((percentile_exact (m := twoSamples) (List.cons_ne_nil _ _)).1 (1 / 2) (by norm_num)
    (by norm_num)).1

theorem sorted_twoSamples : sorted twoSamples.latenciesMs = [1, 2] :=
  List.mergeSort_of_pairwise (by decide)

/-- The reported 99th percentile of two samples is the smaller one. -/
theorem p99_covers_half :
    ¬ ∀ m : StreamMetrics ℚ, m.latenciesMs ≠ [] → ∀ p, 0 ≤ p → p ≤ 1 → Covered m p := by
  intro h
  have hcovered := h twoSamples (List.cons_ne_nil _ _) (99 / 100) (by norm_num) (by norm_num)
  have hrank : rankOf (99 / 100) twoSamples.latenciesMs.length = 0 := by
    rw [rankOf_p99]
    rfl
  rcases (covers_iff (List.cons_ne_nil _ _) (by norm_num)).mp hcovered with hshare | hnext
  · rw [hrank] at hshare
    norm_num [twoSamples] at hshare
  · rw [hrank, sorted_twoSamples] at hnext
    norm_num at hnext

end SensorForge.Scenarios
