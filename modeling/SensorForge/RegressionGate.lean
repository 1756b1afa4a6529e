import SensorForge.Exposition
import SensorForge.Metrics

/-! The gate that compares benchmark results with a baseline: what a run without a failure
says, and what a failing run leaves behind. -/

namespace SensorForge.Ci

open Backtracking Faults PythonText
open Dashboard (asciiOnly atEnd)
open Double (ofInt)

abbrev Metrics (D : Type) := Std.ExtTreeMap Text D

/-- Dictionaries; no order of insertion is ever seen. -/
abbrev Results (D : Type) := Std.ExtTreeMap Text (Metrics D)

variable {D : Type}

def literal : Text → Pattern Char Unit
  | [] => fun s => [((), s)]
  | c :: cs => (one (· = c)).bind fun _ => literal cs

/-- `_BENCH_RE`, with its groups name and rest. -/
def benchRe : Pattern Char (Text × Text) :=
  (literal "[BENCH]".toList).bind fun _ => (one isSpace).plus.bind fun _ =>
    (one (!isSpace ·)).plus.bind fun name => (one isSpace).plus.bind fun _ =>
      (one (· ≠ '\n')).plus.bind fun rest => atEnd.map fun _ => (name, rest)

/-- `[0-9.eE+-]` -/
def isNumberChar (c : Char) : Bool := isAsciiDigit c || c ∈ ['.', 'e', 'E', '+', '-']

/-- `_KV_RE` -/
def kvRe (U : Unicode) : Pattern Char (Text × Text) :=
  (one (isWord U)).plus.bind fun front => (one (· = '/')).optional.bind fun slash =>
    (one (isWord U)).star.bind fun back => (one (· = '=')).bind fun _ =>
      (one isNumberChar).plus.map fun value => (front ++ slash.toList ++ back, value)

section Parse

variable (U : Unicode) (float : Text → Option D)

/-- `float` is `none` where Python raises `ValueError`. -/
def parseMetrics (rest : Text) : Option (Metrics D) :=
  ((kvRe U).findAll rest).foldlM (fun metrics kv =>
    (float kv.2).map fun v => metrics.insert (kv.1.map fun c => if c = '/' then '_' else c) v) ∅

def parseBench (text : Text) : Option (Results D) :=
  (splitlines text).foldlM (fun out line =>
    match benchRe.first (strip line) with
    | none => some out
    | some m => (parseMetrics U float m.1.2).map fun metrics => out.insert m.1.1 metrics) ∅

end Parse

/-- The environment's overrides of the thresholds, in percent. -/
structure Thresholds (D : Type) where
  p99FailPct : D
  dropFailAbsPct : D
  thputWarnPct : D

inductive Verdict
  | new | ok | warn | fail
  deriving DecidableEq

structure Row (D : Type) where
  name : Text
  field : Text := ['-']
  baseline : Option D := none
  current : Option D := none
  delta : Option D := none
  verdict : Verdict

section Compare

variable [Double D] (t : Thresholds D)

def p99 : Text := "p99".toList
def msgsSec : Text := "msgs_sec".toList
def dropRatePct : Text := "drop_rate_pct".toList

/-- The p99 latency gate: the rows it adds, and whether it fails. -/
def p99Gate (name : Text) (cur base : Metrics D) : List (Row D) × Bool :=
  match cur[p99]?, base[p99]? with
  | some c, some b =>
    if b > ofInt 0 then
      let delta := ofInt 100 * (c - b) / b
      let bad := decide (c > b * (ofInt 1 + t.p99FailPct / ofInt 100))
      ([{ name := name, field := p99, baseline := b, current := c, delta := delta
          verdict := if bad then .fail else .ok }], bad)
    else ([], false)
  | _, _ => ([], false)

def throughputWarning (name : Text) (cur base : Metrics D) : List (Row D) :=
  match cur[msgsSec]?, base[msgsSec]? with
  | some c, some b =>
    if b > ofInt 0 then
      let delta := ofInt 100 * (c - b) / b
      let warn := decide (c < b * (ofInt 1 - t.thputWarnPct / ofInt 100))
      [{ name := name, field := "msgs/sec".toList, baseline := b, current := c, delta := delta
         verdict := if warn then .warn else .ok }]
    else []
  | _, _ => []

/-- The drop-rate gate, in percentage points. -/
def dropGate (name : Text) (cur base : Metrics D) : List (Row D) × Bool :=
  match cur[dropRatePct]?, base[dropRatePct]? with
  | some c, some b =>
    let delta := c - b
    let bad := decide (delta > t.dropFailAbsPct)
    ([{ name := name, field := "drop%".toList, baseline := b, current := c, delta := delta
        verdict := if bad then .fail else .ok }], bad)
  | _, _ => ([], false)

def compareOne (baseline : Results D) (name : Text) (cur : Metrics D) : List (Row D) × Bool :=
  match baseline[name]? with
  | none => ([{ name := name, verdict := .new }], false)
  | some base =>
    if base.isEmpty then ([{ name := name, verdict := .new }], false)
    else
      let (latency, slow) := p99Gate t name cur base
      let (dropped, lossy) := dropGate t name cur base
      (latency ++ throughputWarning t name cur base ++ dropped, slow || lossy)

/-- The rows in the order of the names, and whether the gate has failed. -/
def compare (current baseline : Results D) : List (Row D) × Bool :=
  current.toList.foldl (fun acc item =>
    let (rows, bad) := compareOne t baseline item.1 item.2
    (acc.1 ++ rows, acc.2 || bad)) ([], false)

end Compare

/-- What a baseline file stands for: `json.load` reads what `json.dump` has written, and
raises an exception for other texts. -/
inductive Stored (D : Type)
  | results (baseline : Results D)
  | malformed (text : Text)

/-- The files of a run; `stepSummary` is the one that the environment may name. -/
structure Files (D : Type) where
  current : Option Text
  baseline : Option (Stored D) := none
  stepSummary : Option (List (List (Row D) × Bool)) := none

section Main

variable (U : Unicode) (float : Text → Option D) [Double D] (t : Thresholds D)

def Files.report (files : Files D) (summary : List (Row D) × Bool) : Files D :=
  { files with stepSummary := files.stepSummary.map (· ++ [summary]) }

/-- The run up to the verdict; `error` has the exit status of a run that ends before. -/
def Files.verdict (files : Files D) : Except Nat (Results D × List (Row D) × Bool) :=
  match files.current.bind (parseBench U float) with
  | none => .error 1
  | some current =>
    if current.isEmpty then .error 2
    else
      match files.baseline with
      | none => .ok (current, compare t current ∅)
      | some (.results baseline) => .ok (current, compare t current baseline)
      | some (.malformed _) => .error 1

/-- The exit status and the files afterwards; an exception that nobody catches makes the
exit status 1. -/
def main (updateBaseline : Bool) (files : Files D) : Nat × Files D :=
  match files.verdict U float t with
  | .error status => (status, files)
  | .ok (current, rows, failed) =>
    let files := files.report (rows, failed)
    let files :=
      if updateBaseline then { files with baseline := some (.results current) } else files
    (if failed then 1 else 0, files)

end Main

/-- What the benchmark has to keep to, as far as both sides have it. -/
structure Within (t : Thresholds ℚ) (cur base : Metrics ℚ) : Prop where
  p99 : ∀ c b, cur[Ci.p99]? = some c → base[Ci.p99]? = some b → 0 < b →
    c ≤ b * (1 + t.p99FailPct / 100)
  drops : ∀ c b, cur[dropRatePct]? = some c → base[dropRatePct]? = some b →
    c ≤ b + t.dropFailAbsPct

section Verdict

variable [Double D] {t : Thresholds D}

theorem p99Gate_fails {name : Text} {cur base : Metrics D} :
    (p99Gate t name cur base).2 = true ↔ ∃ c b, cur[p99]? = some c ∧ base[p99]? = some b ∧
      b > ofInt 0 ∧ c > b * (ofInt 1 + t.p99FailPct / ofInt 100) := by
  unfold p99Gate
  split
  · next c b hc hb =>
    split
    · next hpos => simp [hc, hb, hpos]
    · next hpos => simp [hc, hb, hpos]
  · next hnone =>
    constructor
    · intro h
      cases h
    · rintro ⟨c, b, hc, hb, _⟩
      exact absurd hb (hnone c b hc)

theorem dropGate_fails {name : Text} {cur base : Metrics D} :
    (dropGate t name cur base).2 = true ↔ ∃ c b, cur[dropRatePct]? = some c ∧
      base[dropRatePct]? = some b ∧ c - b > t.dropFailAbsPct := by
  unfold dropGate
  split
  · next c b hc hb => simp [hc, hb]
  · next hnone =>
    constructor
    · intro h
      cases h
    · rintro ⟨c, b, hc, hb, _⟩
      exact absurd hb (hnone c b hc)

theorem compareOne_fails {baseline : Results D} {name : Text} {cur : Metrics D} :
    (compareOne t baseline name cur).2 = true ↔ ∃ base, baseline[name]? = some base ∧
      ((p99Gate t name cur base).2 = true ∨ (dropGate t name cur base).2 = true) := by
  unfold compareOne
  split
  · next hnone => simp [hnone]
  · next base hbase =>
    simp only [hbase, Option.some.injEq, exists_eq_left']
    split
    · next hempty =>
      obtain rfl := Std.ExtTreeMap.isEmpty_iff.mp hempty
      simp [p99Gate_fails, dropGate_fails]
    · simp

theorem compare_fails {current baseline : Results D} :
    (compare t current baseline).2 = true ↔ ∃ name cur, current[name]? = some cur ∧
      (compareOne t baseline name cur).2 = true := by
  have hfold : ∀ (items : List (Text × Metrics D)) (acc : List (Row D) × Bool),
      (items.foldl (fun acc item =>
        let (rows, bad) := compareOne t baseline item.1 item.2
        (acc.1 ++ rows, acc.2 || bad)) acc).2 = true ↔
      acc.2 = true ∨ ∃ item ∈ items, (compareOne t baseline item.1 item.2).2 = true := by
    intro items
    induction items with
    | nil => simp
    | cons item items ih =>
      intro acc
      rw [List.foldl_cons, ih]
      simp [or_assoc]
  rw [compare, hfold]
  simp only [Bool.false_eq_true, false_or, Prod.exists,
    Std.ExtTreeMap.mem_toList_iff_getElem?_eq_some]

end Verdict

theorem within_iff {t : Thresholds ℚ} {name : Text} {cur base : Metrics ℚ} :
    Within t cur base ↔
      ¬ ((p99Gate t name cur base).2 = true ∨ (dropGate t name cur base).2 = true) := by
  have hzero : (ofInt 0 : ℚ) = 0 := Int.cast_zero
  have hbound : ∀ b : ℚ, b * (ofInt 1 + t.p99FailPct / ofInt 100) =
      b * (1 + t.p99FailPct / 100) := by
    intro b
    simp only [ofInt, Int.cast_one, Int.cast_ofNat]
  simp only [p99Gate_fails, dropGate_fails, hzero, hbound]
  constructor
  · rintro ⟨hp99, hdrops⟩ (⟨c, b, hc, hb, hpos, hbad⟩ | ⟨c, b, hc, hb, hbad⟩)
    · exact absurd (hp99 c b hc hb hpos) (not_le.mpr hbad)
    · have hle := hdrops c b hc hb
      linarith
  · intro h
    refine ⟨fun c b hc hb hpos => ?_, fun c b hc hb => ?_⟩
    · exact not_lt.mp fun hlt => h (.inl ⟨c, b, hc, hb, hpos, hlt⟩)
    · by_contra hlt
      exact h (.inr ⟨c, b, hc, hb, by linarith⟩)

/-- In exact arithmetic, a run reports no failure exactly if every benchmark that both result
sets hold keeps to the thresholds in whatever of p99 and drop rate both have. -/
theorem gate_passes_iff (t : Thresholds ℚ) (current baseline : Results ℚ) :
    (compare t current baseline).2 = false ↔ ∀ (name : Text) (cur base : Metrics ℚ),
      current[name]? = some cur → baseline[name]? = some base → Within t cur base := by
  rw [← Bool.not_eq_true, compare_fails]
  constructor
  · intro h name cur base hcur hbase
    exact within_iff.mpr fun hbad => h ⟨name, cur, hcur, compareOne_fails.mpr ⟨base, hbase, hbad⟩⟩
  · rintro h ⟨name, cur, hcur, hfails⟩
    obtain ⟨base, hbase, hbad⟩ := compareOne_fails.mp hfails
    exact within_iff.mp (h name cur base hcur hbase) hbad

def defaultThresholds : Thresholds ℚ := ⟨10, 1 / 10, 5⟩

def bench (name : String) (metrics : List (String × ℚ)) : Results ℚ :=
  (∅ : Results ℚ).insert name.toList
    (metrics.foldl (fun m kv => m.insert kv.1.toList kv.2) ∅)

/-- A benchmark that has been left out, or has lost its p99, is not missed. -/
theorem missing_passes : ¬ ∀ current baseline : Results ℚ,
    (compare defaultThresholds current baseline).2 = false →
      ∀ (name : Text) (base : Metrics ℚ) (b : ℚ), baseline[name]? = some base →
        base[p99]? = some b → 0 < b → ∃ (cur : Metrics ℚ) (c : ℚ), current[name]? = some cur ∧
          cur[p99]? = some c ∧ c ≤ b * (1 + defaultThresholds.p99FailPct / 100) := by
  intro h
  have hpass : (compare defaultThresholds (bench "a" [("GB_s", 9)])
      (bench "b" [("p99", 60)])).2 = false := by decide +kernel
  have hmissing : (bench "a" [("GB_s", 9)])["b".toList]? = none := by decide +kernel
  obtain ⟨cur, _, hcur, _⟩ := h _ _ hpass "b".toList _ 60 rfl rfl (by norm_num)
  rw [hmissing] at hcur
  cases hcur

section Runs

variable [Double D] {U : Unicode} {float : Text → Option D} {t : Thresholds D} {files : Files D}
  {current base : Results D}

/-- A value does not fail against itself. -/
structure Thresholds.Reflexive (t : Thresholds D) : Prop where
  p99 : ∀ x, x > ofInt 0 → ¬ x > x * (ofInt 1 + t.p99FailPct / ofInt 100)
  drops : ∀ x, ¬ x - x > t.dropFailAbsPct

theorem thresholds_reflexive {t : Thresholds ℚ} (hp99 : 0 ≤ t.p99FailPct)
    (hdrops : 0 ≤ t.dropFailAbsPct) : t.Reflexive where
  p99 := by
    intro x hx
    have hx : 0 < x := by simpa [ofInt] using hx
    have hle : x * 1 ≤ x * (1 + t.p99FailPct / 100) := by
      have hnonneg : 0 ≤ t.p99FailPct / 100 := by positivity
      gcongr
      linarith
    simpa [ofInt] using hle
  drops := by
    intro x
    simpa using hdrops

theorem compare_self (h : t.Reflexive) : (compare t current current).2 = false := by
  rw [← Bool.not_eq_true, compare_fails]
  rintro ⟨name, cur, hcur, hfails⟩
  obtain ⟨base, hbase, hbad⟩ := compareOne_fails.mp hfails
  obtain rfl : cur = base := Option.some.inj (hcur.symm.trans hbase)
  rw [p99Gate_fails, dropGate_fails] at hbad
  rcases hbad with ⟨c, b, hc, hb, hpos, hbad⟩ | ⟨c, b, hc, hb, hbad⟩
  · obtain rfl : c = b := Option.some.inj (hc.symm.trans hb)
    exact h.p99 c hpos hbad
  · obtain rfl : c = b := Option.some.inj (hc.symm.trans hb)
    exact h.drops c hbad

theorem compare_empty (baseline : Results D) : (compare t ∅ baseline).2 = false := by
  rw [← Bool.not_eq_true, compare_fails]
  rintro ⟨name, cur, hcur, _⟩
  simp at hcur

theorem main_current (update : Bool) : (main U float t update files).2.current = files.current := by
  rw [main]
  split
  · rfl
  · cases update <;> rfl

/-- What a run does whose current results can be read and whose baseline is there. -/
theorem main_compared (hcurrent : files.current.bind (parseBench U float) = some current)
    (hne : current.isEmpty = false) (hbase : files.baseline = some (.results base))
    (update : Bool) :
    (main U float t update files).1 = (if (compare t current base).2 then 1 else 0) ∧
    (main U float t update files).2.baseline =
      if update then some (.results current) else files.baseline := by
  rw [main, Files.verdict, hcurrent]
  dsimp only
  rw [hne, hbase]
  cases update <;> simp [Files.report, hbase]

/-- A failing run exits with 1. Without `--update-baseline` the baseline stays and the gate
fails again; with it the current results are the baseline of the next run, which compares
them with themselves and passes. -/
theorem failing_gate (hcurrent : files.current.bind (parseBench U float) = some current)
    (hbase : files.baseline = some (.results base)) (hfail : (compare t current base).2 = true) :
    (main U float t false files).1 = 1 ∧
    (main U float t false files).2.baseline = files.baseline ∧
    (∀ update, (main U float t update (main U float t false files).2).1 = 1) ∧
    (main U float t true files).1 = 1 ∧
    (main U float t true files).2.baseline = some (.results current) ∧
    (∀ update, (main U float t update (main U float t true files).2).1 =
      if (compare t current current).2 then 1 else 0) ∧
    (t.Reflexive → ∀ update, (main U float t update (main U float t true files).2).1 = 0) := by
  have hne : current.isEmpty = false := by
    by_contra hempty
    rw [Bool.not_eq_false, Std.ExtTreeMap.isEmpty_iff] at hempty
    rw [hempty, compare_empty] at hfail
    cases hfail
  obtain ⟨hstatus, hkept⟩ := main_compared (t := t) hcurrent hne hbase false
  obtain ⟨hstatus', hwritten⟩ := main_compared (t := t) hcurrent hne hbase true
  rw [if_pos hfail] at hstatus hstatus'
  have hread : ∀ update, (main U float t update files).2.current.bind (parseBench U float) =
      some current := fun update => by rw [main_current, hcurrent]
  have hagain : ∀ update, (main U float t update (main U float t true files).2).1 =
      if (compare t current current).2 then 1 else 0 :=
    fun update => (main_compared (hread true) hne hwritten update).1
  refine ⟨hstatus, hkept, fun update => ?_, hstatus', hwritten, hagain,
    fun hreflexive update => ?_⟩
  · rw [(main_compared (hread false) hne (hkept.trans hbase) update).1, if_pos hfail]
  · rw [hagain, compare_self hreflexive]
    rfl

end Runs

/-- `float` where the number that is read is finite. -/
def exactFloat (U : Unicode) (s : Text) : Option ℚ :=
  match PythonText.float U s with
  | some (.num q) => some q
  | _ => none

/-- The latency of one benchmark has doubled. -/
def slowerFiles : Files ℚ where
  current := some "[BENCH] frame_decode_64b p99=120ns".toList
  baseline := some (.results (bench "frame_decode_64b" [("p99", 60)]))

def slower : Results ℚ := bench "frame_decode_64b" [("p99", 120)]

theorem parse_slower :
    slowerFiles.current.bind (parseBench asciiOnly (exactFloat asciiOnly)) = some slower := by
  decide +kernel

theorem failing_gate_slower :
    (main asciiOnly (exactFloat asciiOnly) defaultThresholds true slowerFiles).1 = 1 ∧
    (main asciiOnly (exactFloat asciiOnly) defaultThresholds true
      (main asciiOnly (exactFloat asciiOnly) defaultThresholds true slowerFiles).2).1 = 0 := by
  have hfail : (compare defaultThresholds slower (bench "frame_decode_64b" [("p99", 60)])).2 =
      true := by decide +kernel
  have hreflexive : defaultThresholds.Reflexive :=
    thresholds_reflexive (by norm_num [defaultThresholds]) (by norm_num [defaultThresholds])
  obtain ⟨_, _, _, hfirst, _, _, hsecond⟩ := failing_gate parse_slower rfl hfail
  exact ⟨hfirst, hsecond hreflexive true⟩

/-- With `--update-baseline`, the run that reports a regression makes it the baseline. -/
theorem regression_accepted : ¬ ∀ (files : Files ℚ) (current base : Results ℚ),
    files.current.bind (parseBench asciiOnly (exactFloat asciiOnly)) = some current →
    files.baseline = some (.results base) →
    (compare defaultThresholds current base).2 = true →
      (main asciiOnly (exactFloat asciiOnly) defaultThresholds true files).1 ≠ 0 ∧
      (main asciiOnly (exactFloat asciiOnly) defaultThresholds true files).2.baseline =
        files.baseline ∧
      ∀ update, (main asciiOnly (exactFloat asciiOnly) defaultThresholds update
        (main asciiOnly (exactFloat asciiOnly) defaultThresholds true files).2).1 ≠ 0 := by
  intro h
  have hfail : (compare defaultThresholds slower (bench "frame_decode_64b" [("p99", 60)])).2 =
      true := by decide +kernel
  have hsecond : (main asciiOnly (exactFloat asciiOnly) defaultThresholds true
      (main asciiOnly (exactFloat asciiOnly) defaultThresholds true slowerFiles).2).1 = 0 := by
    decide +kernel
  obtain ⟨_, _, hfails⟩ := h slowerFiles slower _ parse_slower rfl hfail
  exact hfails true hsecond

end SensorForge.Ci
