import SensorForge.Metrics
import SensorForge.QuietRules
import SensorForge.TokenBucket

/-! Bandwidth limits in exact arithmetic. All the rules of an engine fill and charge one
bucket; what a rule lets through is within its rate while no faster rule fills it. -/

namespace SensorForge.Faults

open TokenBucket

variable {ω : Type} {W : World ω ℚ}

/-- Bytes per second. -/
def FaultRule.capBytes (r : FaultRule ℚ) : ℚ := r.bandwidthKbps * 1000 / 8

/-- A refill, with the clock at the one before and at this one. -/
structure Refill where
  rule : FaultRule ℚ
  lastNs : ℚ
  nowNs : ℚ

def FaultEngine.refilled (W : World ω ℚ) (e : FaultEngine ω ℚ) (r : FaultRule ℚ) : Refill where
  rule := r
  lastNs := if e.lastRefillNs = 0 then (W.nowNs e.world).1 else e.lastRefillNs
  nowNs := (W.nowNs e.world).1

def FaultEngine.charge (size : ℚ) (e : FaultEngine ω ℚ) : FaultEngine ω ℚ :=
  { e with tokensBytes := e.tokensBytes - size }

/-- The refills of `bandwidthLoop`. -/
def FaultEngine.refills (W : World ω ℚ) (size : ℚ) (e : FaultEngine ω ℚ) :
    List (FaultRule ℚ) → List Refill
  | [] => []
  | r :: rs =>
    if r.kind = .kBandwidthLimit ∧ 0 < r.bandwidthKbps then
      e.refilled W r ::
        if (e.refill W r).tokensBytes < size then []
        else FaultEngine.refills W size ((e.refill W r).charge size) rs
    else FaultEngine.refills W size e rs

/-- The engine as a call of `process` hands it to its stages. -/
def FaultEngine.entered (e : FaultEngine ω ℚ) (c : ProcessCall ℚ) : FaultEngine ω ℚ :=
  { e with calls := e.calls ++ [c] }.trackRestarts (e.active c.tS c.stream) c.stream

/-- The refills of the calls, one after the other. -/
def FaultEngine.runRefills (W : World ω ℚ) (e : FaultEngine ω ℚ) :
    List (ProcessCall ℚ) → List Refill
  | [] => []
  | c :: cs => (e.entered c).refills W c.data.length (e.active c.tS c.stream) ++
      FaultEngine.runRefills W (e.process W c) cs

/-- The bytes of the frames from call `start` on that the rule matches. -/
def matchedBytes (r : FaultRule ℚ) (start : Nat) (calls : List (ProcessCall ℚ))
    (fs : List Frame) : ℚ :=
  ((fs.filter fun f => start ≤ f.call ∧ (calls[f.call]?).any fun c => r.matchesStream c.stream).map
    fun f => (f.data.length : ℚ)).sum

/-- What the engine has let through of the frames that `r` matches, from call `start` on. -/
def FaultEngine.letThrough (e : FaultEngine ω ℚ) (r : FaultRule ℚ) (start : Nat) : ℚ :=
  matchedBytes r start e.calls (e.written.map Written.frame)

/-- The clock during the calls of a window: it does not go back, and `tᵢ` and `tⱼ` enclose
its readings. -/
structure Clocked (tᵢ tⱼ : ℚ) (xs : List Refill) : Prop where
  sorted : (xs.map Refill.nowNs).Pairwise (· ≤ ·)
  inside : ∀ x ∈ xs, tᵢ ≤ x.nowNs ∧ x.nowNs ≤ tⱼ

/-- Zero stands for a clock that was not read before. -/
abbrev NonzeroReadings (xs : List Refill) : Prop := ∀ x ∈ xs, x.nowNs ≠ 0

/-- No rule that is faster than `r` fills the bucket. -/
abbrev NoFasterRefill (r : FaultRule ℚ) (xs : List Refill) : Prop :=
  ∀ x ∈ xs, r.bandwidthKbps < x.rule.bandwidthKbps → x.lastNs = x.nowNs

structure Steady (r : FaultRule ℚ) (tᵢ tⱼ : ℚ) (xs : List Refill) : Prop
    extends Clocked tᵢ tⱼ xs where
  nonzero : NonzeroReadings xs
  slower : NoFasterRefill r xs

def FaultEngine.bucket (e : FaultEngine ω ℚ) : Bucket ℚ := ⟨e.tokensBytes, e.lastRefillNs⟩

/-- The bucket once `r` has filled it, with the refills that are still to come. -/
structure Running (r : FaultRule ℚ) (tᵢ tⱼ spent : ℚ) (e : FaultEngine ω ℚ)
    (xs : List Refill) : Prop where
  within : e.bucket.Within (10 ^ 9) r.capBytes tᵢ spent
  nonzero : e.lastRefillNs ≠ 0
  last_le : e.lastRefillNs ≤ tⱼ
  ahead : ∀ x ∈ xs, e.lastRefillNs ≤ x.nowNs

theorem minD_eq_min (a b : ℚ) : minD a b = min a b := by
  by_cases h : b < a
  · rw [minD, if_pos h, min_eq_right h.le]
  · rw [minD, if_neg h, min_eq_left (not_lt.mp h)]

theorem refill_bucket (e : FaultEngine ω ℚ) (r : FaultRule ℚ) :
    (e.refill W r).bucket =
      (if e.lastRefillNs = 0 then ⟨r.capBytes, (W.nowNs e.world).1⟩ else e.bucket).refill
        (10 ^ 9) r.capBytes (W.nowNs e.world).1 := by
  by_cases h : e.lastRefillNs = 0
  · simp [FaultEngine.bucket, FaultEngine.refill, Bucket.refill, h, minD_eq_min, Double.ofInt,
      FaultRule.capBytes]
  · norm_num [FaultEngine.bucket, FaultEngine.refill, Bucket.refill, h, minD_eq_min, Double.ofInt,
      FaultRule.capBytes]

/-- What the loop does with its first rule. -/
theorem bandwidthLoop_cons (size : ℚ) (e : FaultEngine ω ℚ) (s : FaultRule ℚ)
    (rs : List (FaultRule ℚ)) :
    ¬(s.kind = .kBandwidthLimit ∧ 0 < s.bandwidthKbps) ∧
        e.refills W size (s :: rs) = e.refills W size rs ∧
        e.bandwidthLoop W size (s :: rs) = e.bandwidthLoop W size rs ∨
      (e.refill W s).tokensBytes < size ∧
        e.refills W size (s :: rs) = [e.refilled W s] ∧
        e.bandwidthLoop W size (s :: rs) = ((e.refill W s).drop, true) ∨
      size ≤ (e.refill W s).tokensBytes ∧
        e.refills W size (s :: rs) =
          e.refilled W s :: ((e.refill W s).charge size).refills W size rs ∧
        e.bandwidthLoop W size (s :: rs) =
          ((e.refill W s).charge size).bandwidthLoop W size rs := by
  have hzero : (Double.ofInt 0 : ℚ) = 0 := rfl
  rw [FaultEngine.refills, FaultEngine.bandwidthLoop, hzero]
  by_cases hs : s.kind = .kBandwidthLimit ∧ 0 < s.bandwidthKbps
  · rw [if_pos hs, if_pos hs]
    dsimp only
    by_cases hdrop : (e.refill W s).tokensBytes < size
    · rw [if_pos hdrop, if_pos hdrop]
      exact .inr (.inl ⟨hdrop, rfl, rfl⟩)
    · rw [if_neg hdrop, if_neg hdrop]
      exact .inr (.inr ⟨not_lt.mp hdrop, rfl, rfl⟩)
  · rw [if_neg hs, if_neg hs]
    exact .inl ⟨hs, rfl, rfl⟩

section Steps

variable {r : FaultRule ℚ} {tᵢ tⱼ spent size : ℚ} {e : FaultEngine ω ℚ} {xs ys : List Refill}

theorem capBytes_pos (h : 0 < r.bandwidthKbps) : 0 < r.capBytes := by
  unfold FaultRule.capBytes
  positivity

theorem Steady.tail {x : Refill} (h : Steady r tᵢ tⱼ (x :: xs)) : Steady r tᵢ tⱼ xs where
  sorted := (List.pairwise_cons.mp h.sorted).2
  inside := fun y hy => h.inside y (by simp [hy])
  nonzero := fun y hy => h.nonzero y (by simp [hy])
  slower := fun y hy => h.slower y (by simp [hy])

theorem Steady.head_le {x : Refill} (h : Steady r tᵢ tⱼ (x :: xs)) :
    ∀ y ∈ xs, x.nowNs ≤ y.nowNs :=
  fun y hy => (List.pairwise_cons.mp h.sorted).1 y.nowNs (List.mem_map_of_mem hy)

theorem Steady.right (h : Steady r tᵢ tⱼ (xs ++ ys)) : Steady r tᵢ tⱼ ys := by
  induction xs with
  | nil => exact h
  | cons x xs ih => exact ih h.tail

/-- The rule's own refill leaves no more than its burst. -/
theorem Running.start (hrate : 0 < r.bandwidthKbps)
    (h : Steady r tᵢ tⱼ (e.refilled W r :: xs)) : Running r tᵢ tⱼ 0 (e.refill W r) xs where
  within := by
    apply Bucket.Within.start (by norm_num) (capBytes_pos hrate).le
    · rw [refill_bucket]
      exact Bucket.refill_le _ _ _ _
    · exact (h.inside _ (List.mem_cons_self ..)).1
  nonzero := (h.nonzero _ (List.mem_cons_self ..) : (W.nowNs e.world).1 ≠ 0)
  last_le := (h.inside _ (List.mem_cons_self ..)).2
  ahead := h.head_le

theorem Running.refill {s : FaultRule ℚ} (hrate : 0 < r.bandwidthKbps)
    (h : Steady r tᵢ tⱼ (e.refilled W s :: xs))
    (hrun : Running r tᵢ tⱼ spent e (e.refilled W s :: xs)) :
    Running r tᵢ tⱼ spent (e.refill W s) xs where
  within := by
    have hahead : e.lastRefillNs ≤ (W.nowNs e.world).1 := hrun.ahead _ (List.mem_cons_self ..)
    rw [refill_bucket, if_neg hrun.nonzero]
    by_cases hs : r.bandwidthKbps < s.bandwidthKbps
    · have hidle : e.lastRefillNs = (W.nowNs e.world).1 := by
        have hlast := h.slower _ (List.mem_cons_self ..) hs
        rwa [FaultEngine.refilled, if_neg hrun.nonzero] at hlast
      rw [← hidle]
      exact hrun.within.idle
    · have hslower : s.capBytes ≤ r.capBytes := by
        unfold FaultRule.capBytes
        linarith
      exact hrun.within.refill (by norm_num) (capBytes_pos hrate).le hslower hahead
  nonzero := (h.nonzero _ (List.mem_cons_self ..) : (W.nowNs e.world).1 ≠ 0)
  last_le := (h.inside _ (List.mem_cons_self ..)).2
  ahead := h.head_le

theorem Running.congr {e' : FaultEngine ω ℚ} (h : Running r tᵢ tⱼ spent e xs)
    (hbucket : e'.bucket = e.bucket) : Running r tᵢ tⱼ spent e' xs := by
  have hlast : e'.lastRefillNs = e.lastRefillNs := congrArg Bucket.last hbucket
  exact ⟨hbucket ▸ h.within, hlast ▸ h.nonzero, hlast ▸ h.last_le, hlast ▸ h.ahead⟩

theorem Running.waste (hsize : 0 ≤ size) (h : Running r tᵢ tⱼ spent e xs) :
    Running r tᵢ tⱼ spent (e.charge size) xs :=
  { h with within := h.within.waste hsize }

theorem Running.charge (hsize : size ≤ e.tokensBytes) (h : Running r tᵢ tⱼ spent e xs) :
    Running r tᵢ tⱼ (spent + size) (e.charge size) xs :=
  { h with within := h.within.take hsize }

/-- Once `r` has filled the bucket, the loop keeps what was spent within its rate. -/
theorem Running.loop (hrate : 0 < r.bandwidthKbps) (hsize : 0 ≤ size) {rs : List (FaultRule ℚ)}
    (h : Steady r tᵢ tⱼ (e.refills W size rs ++ ys))
    (hrun : Running r tᵢ tⱼ spent e (e.refills W size rs ++ ys)) :
    Running r tᵢ tⱼ spent (e.bandwidthLoop W size rs).1 ys := by
  induction rs generalizing e with
  | nil => exact hrun
  | cons s rs ih =>
    rcases bandwidthLoop_cons (W := W) size e s rs with ⟨_, hrefills, hloop⟩ |
      ⟨_, hrefills, hloop⟩ | ⟨_, hrefills, hloop⟩
    all_goals rw [hrefills] at h hrun; rw [hloop]
    · exact ih h hrun
    · have hrefill := hrun.refill hrate h
      exact { hrefill with }
    · have hrefill := hrun.refill hrate h
      exact ih h.tail (hrefill.waste hsize)

/-- The loop over rules with `r` among them: a frame that it lets through is spent. -/
theorem loop_spends (hrate : 0 < r.bandwidthKbps) (hkind : r.kind = .kBandwidthLimit)
    (hsize : 0 ≤ size) {rs : List (FaultRule ℚ)} (hr : r ∈ rs)
    (h : Steady r tᵢ tⱼ (e.refills W size rs ++ ys))
    (hrun : spent = 0 ∨ Running r tᵢ tⱼ spent e (e.refills W size rs ++ ys)) :
    ((e.bandwidthLoop W size rs).2 = true →
      spent = 0 ∨ Running r tᵢ tⱼ spent (e.bandwidthLoop W size rs).1 ys) ∧
    ((e.bandwidthLoop W size rs).2 = false →
      Running r tᵢ tⱼ (spent + size) (e.bandwidthLoop W size rs).1 ys) := by
  induction rs generalizing e with
  | nil => simp at hr
  | cons s rs ih =>
    rcases bandwidthLoop_cons (W := W) size e s rs with ⟨hs, hrefills, hloop⟩ |
      ⟨_, hrefills, hloop⟩ | ⟨hpass, hrefills, hloop⟩
    all_goals rw [hrefills] at h hrun; rw [hloop]
    · have hrest : r ∈ rs := by
        apply (List.mem_cons.mp hr).resolve_left
        intro hown
        exact hs ⟨hown ▸ hkind, hown ▸ hrate⟩
      exact ih hrest h hrun
    · refine ⟨fun _ => ?_, fun hpass => by cases hpass⟩
      refine hrun.imp_right fun hrun => ?_
      have hrefill := hrun.refill hrate h
      exact { hrefill with }
    · by_cases hown : r = s
      · subst hown
        have hstart : Running r tᵢ tⱼ spent (e.refill W r)
            (((e.refill W r).charge size).refills W size rs ++ ys) := by
          rcases hrun with hzero | hrun
          · rw [hzero]
            exact Running.start hrate h
          · exact hrun.refill hrate h
        refine ⟨fun _ => .inr ?_, fun _ => ?_⟩
        · exact (hstart.waste hsize).loop hrate hsize h.tail
        · exact (hstart.charge hpass).loop hrate hsize h.tail
      · have hrest : r ∈ rs := (List.mem_cons.mp hr).resolve_left hown
        apply ih hrest h.tail
        exact hrun.imp_right fun hrun => (hrun.refill hrate h).waste hsize

/-- With no other rules, a call is the loop and, unless the frame is over budget, a write. -/
theorem process_limited (h : ∀ s ∈ e.rules, s.kind = .kBandwidthLimit) (c : ProcessCall ℚ)
    {out : FaultEngine ω ℚ × Bool} (hout :
      (e.entered c).bandwidthLoop W c.data.length (e.active c.tS c.stream) = out) :
    e.process W c =
      if out.2 then out.1 else out.1.emit W { data := c.data, call := e.calls.length } := by
  have hactive : ∀ s ∈ e.active c.tS c.stream, s.kind = .kBandwidthLimit :=
    fun s hs => h s (mem_active hs)
  have hlength : (Double.ofInt c.data.length : ℚ) = c.data.length := Int.cast_natCast _
  have hsup : suppressed (e.active c.tS c.stream) = false :=
    suppressed_quiet fun s hs => by simp [hactive s hs]
  have hreorder : ((e.active c.tS c.stream).any fun s => s.kind = .kReorder) = false := by
    rw [List.any_eq_false]
    exact fun s hs => by simp [hactive s hs]
  unfold FaultEngine.entered at hout
  rw [FaultEngine.process]
  dsimp only
  rw [hsup, dropLoop_quiet _ fun s hs => by simp [hactive s hs]]
  dsimp only
  rw [hlength, hout]
  obtain ⟨e', dropped⟩ := out
  cases dropped
  · dsimp only
    rw [corruptLoop_quiet _ _ fun s hs => by simp [hactive s hs]]
    dsimp only
    rw [FaultEngine.forward, hreorder, duplicates_quiet _ _ _ fun s hs => by simp [hactive s hs],
      dispatch_quiet (le_refl _) _ fun s hs => by simp [hactive s hs]]
    rfl
  · rfl

theorem matchedBytes_append (r : FaultRule ℚ) (start : Nat) (calls : List (ProcessCall ℚ))
    (fs gs : List Frame) : matchedBytes r start calls (fs ++ gs) =
      matchedBytes r start calls fs + matchedBytes r start calls gs := by
  simp [matchedBytes]

/-- A later call does not change which of the frames so far are matched. -/
theorem matchedBytes_calls {r : FaultRule ℚ} {start : Nat} {calls : List (ProcessCall ℚ)}
    {fs : List Frame} (h : ∀ f ∈ fs, f.call < calls.length) (c : ProcessCall ℚ) :
    matchedBytes r start (calls ++ [c]) fs = matchedBytes r start calls fs := by
  unfold matchedBytes
  congr 2
  apply List.filter_congr
  intro f hf
  rw [List.getElem?_append_left (h f hf)]

theorem matchedBytes_none {r : FaultRule ℚ} {start : Nat} {calls : List (ProcessCall ℚ)}
    {fs : List Frame} (h : ∀ f ∈ fs, f.call < start) : matchedBytes r start calls fs = 0 := by
  unfold matchedBytes
  rw [List.filter_eq_nil_iff.mpr]
  · rfl
  · intro f hf
    simp [h f hf]

/-- What a call lets through of the frames that `r` matches. -/
theorem process_letThrough (hrules : ∀ s ∈ e.rules, s.kind = .kBandwidthLimit)
    (hfrom : e.FromCalls) {start : Nat} (hstart : start ≤ e.calls.length) (c : ProcessCall ℚ)
    {out : FaultEngine ω ℚ × Bool} (hout :
      (e.entered c).bandwidthLoop W c.data.length (e.active c.tS c.stream) = out) :
    (e.process W c).letThrough r start = e.letThrough r start +
      if out.2 = false ∧ r.matchesStream c.stream then (c.data.length : ℚ) else 0 := by
  have hcalls : matchedBytes r start (e.calls ++ [c]) (e.written.map Written.frame) =
      matchedBytes r start e.calls (e.written.map Written.frame) :=
    matchedBytes_calls (written_call_lt hfrom) c
  have hwritten : out.1.written = e.written := by
    obtain ⟨window, restarts, heq⟩ := trackRestarts_eq { e with calls := e.calls ++ [c] }
      (e.active c.tS c.stream) c.stream
    obtain ⟨_, _, _, _, hloop, _⟩ := bandwidthLoop_adjusts (W := W) (c.data.length : ℚ)
      (e.entered c) (e.active c.tS c.stream)
    rw [← hout, hloop, FaultEngine.entered, heq]
  unfold FaultEngine.letThrough
  rw [process_calls, ← hcalls, process_limited hrules c hout]
  by_cases hdrop : out.2 = true
  · rw [if_pos hdrop, hwritten]
    simp [hdrop]
  · rw [if_neg hdrop, emit_written, matchedBytes_append, hwritten]
    by_cases hmatch : r.matchesStream c.stream = true
    · simp [matchedBytes, hdrop, hmatch, hstart]
    · simp [matchedBytes, hdrop, hmatch]

/-- Nothing of `r`'s frames has been let through, or its rate has covered them. -/
def Covered (r : FaultRule ℚ) (tᵢ tⱼ : ℚ) (start : Nat) (e : FaultEngine ω ℚ)
    (xs : List Refill) : Prop :=
  e.letThrough r start = 0 ∨ Running r tᵢ tⱼ (e.letThrough r start) e xs

theorem Covered.process (hrate : 0 < r.bandwidthKbps)
    (hrules : ∀ s ∈ e.rules, s.kind = .kBandwidthLimit) (hr : r ∈ e.rules) (hfrom : e.FromCalls)
    {start : Nat} (hstart : start ≤ e.calls.length) {c : ProcessCall ℚ}
    (hactive : r.activeAt c.tS = true)
    (h : Steady r tᵢ tⱼ ((e.entered c).refills W c.data.length (e.active c.tS c.stream) ++ ys))
    (hcovered : Covered r tᵢ tⱼ start e
      ((e.entered c).refills W c.data.length (e.active c.tS c.stream) ++ ys)) :
    Covered r tᵢ tⱼ start (e.process W c) ys := by
  obtain ⟨out, hout⟩ : ∃ out,
    (e.entered c).bandwidthLoop W c.data.length (e.active c.tS c.stream) = out := ⟨_, rfl⟩
  have hbucket : (e.entered c).bucket = e.bucket := by
    obtain ⟨window, restarts, heq⟩ := trackRestarts_eq { e with calls := e.calls ++ [c] }
      (e.active c.tS c.stream) c.stream
    rw [FaultEngine.entered, heq]
    rfl
  have hentered : e.letThrough r start = 0 ∨ Running r tᵢ tⱼ (e.letThrough r start) (e.entered c)
      ((e.entered c).refills W c.data.length (e.active c.tS c.stream) ++ ys) :=
    hcovered.imp_right fun hrun => hrun.congr hbucket
  have hwrite : (e.process W c).bucket = out.1.bucket := by
    rw [process_limited hrules c hout]
    by_cases hdrop : out.2 = true
    · rw [if_pos hdrop]
    · rw [if_neg hdrop]
      rfl
  have hsize : (0 : ℚ) ≤ c.data.length := Nat.cast_nonneg _
  rw [Covered, process_letThrough hrules hfrom hstart c hout]
  by_cases hmatch : r.matchesStream c.stream = true
  · have hmem : r ∈ e.active c.tS c.stream := List.mem_filter.mpr ⟨hr, by simp [hmatch, hactive]⟩
    obtain ⟨hdrop, hpass⟩ := loop_spends hrate (hrules r hr) hsize hmem h hentered
    rw [hout] at hdrop hpass
    by_cases hout : out.2 = true
    · rw [if_neg (by simp [hout]), add_zero]
      exact (hdrop hout).imp_right fun hrun => hrun.congr hwrite
    · rw [Bool.not_eq_true] at hout
      rw [if_pos ⟨hout, hmatch⟩]
      exact .inr ((hpass hout).congr hwrite)
  · rw [if_neg (by simp [hmatch]), add_zero]
    refine hentered.imp_right fun hrun => ?_
    have hloop := hrun.loop hrate hsize h
    rw [hout] at hloop
    exact hloop.congr hwrite

theorem Covered.run (hrate : 0 < r.bandwidthKbps) {window : List (ProcessCall ℚ)}
    (hrules : ∀ s ∈ e.rules, s.kind = .kBandwidthLimit) (hr : r ∈ e.rules) (hfrom : e.FromCalls)
    {start : Nat} (hstart : start ≤ e.calls.length) (hactive : ∀ c ∈ window, r.activeAt c.tS = true)
    (h : Steady r tᵢ tⱼ (e.runRefills W window))
    (hcovered : Covered r tᵢ tⱼ start e (e.runRefills W window)) :
    Covered r tᵢ tⱼ start (window.foldl (FaultEngine.process W) e) [] := by
  induction window generalizing e with
  | nil => exact hcovered
  | cons c window ih =>
    have hstep := hcovered.process hrate hrules hr hfrom hstart (hactive c (by simp)) h
    rw [List.foldl_cons]
    apply ih
    · rwa [process_rules]
    · rwa [process_rules]
    · exact hfrom.process c
    · rw [process_calls, List.length_append]
      exact Nat.le_add_right_of_le hstart
    · exact fun c' hc' => hactive c' (by simp [hc'])
    · exact h.right
    · exact hstep

end Steps

/-- What a rule lets through of the frames it matches, in a window of calls throughout which it
is active, while no faster rule fills the bucket. -/
theorem bandwidth_limit (W : World ω ℚ) {rules : List (FaultRule ℚ)}
    (hrules : ∀ s ∈ rules, s.kind = .kBandwidthLimit) (world : ω)
    (before window : List (ProcessCall ℚ)) {r : FaultRule ℚ} (hr : r ∈ rules)
    (hrate : 0 < r.bandwidthKbps) (hactive : ∀ c ∈ window, r.activeAt c.tS = true) {tᵢ tⱼ : ℚ}
    (hle : tᵢ ≤ tⱼ)
    (hclock : Clocked tᵢ tⱼ ((processed W rules world before).runRefills W window))
    (hnonzero : NonzeroReadings ((processed W rules world before).runRefills W window))
    (hslower : NoFasterRefill r ((processed W rules world before).runRefills W window)) :
    (processed W rules world (before ++ window)).letThrough r before.length ≤
      r.capBytes * (1 + (tⱼ - tᵢ) / 10 ^ 9) := by
  have hsteady : Steady r tᵢ tⱼ ((processed W rules world before).runRefills W window) :=
    { hclock with nonzero := hnonzero, slower := hslower }
  have hnone : (processed W rules world before).letThrough r before.length = 0 := by
    apply matchedBytes_none
    intro f hf
    have hlt := written_call_lt (processed_fromCalls (W := W) rules world before) f hf
    rwa [processed_calls] at hlt
  have hrun : Covered r tᵢ tⱼ before.length (processed W rules world (before ++ window)) [] := by
    rw [processed, List.foldl_append]
    apply Covered.run hrate (e := processed W rules world before)
    · rwa [processed_rules]
    · rwa [processed_rules]
    · exact processed_fromCalls rules world before
    · rw [processed_calls]
    · exact hactive
    · exact hsteady
    · exact .inl hnone
  have hcap := (capBytes_pos hrate).le
  rcases hrun with hzero | hrun
  · rw [hzero]
    exact hcap.trans (le_burst (by norm_num) hcap hle)
  · exact hrun.within.spent_le.trans (rate_mono (by norm_num) hcap hrun.last_le)

/-- The readings of the clock one after the other, then zero. -/
def clockWorld : World (List ℚ) ℚ where
  uniformReal w := (0, w)
  uniformInt _ w := (⟨0, Nat.succ_pos _⟩, w)
  nowNs w := (w.headD 0, w.tail)
  callbackTime w := (0, w)

def limitRule (bytesPerSecond : ℚ) : FaultRule ℚ where
  kind := .kBandwidthLimit
  durationS := 60
  bandwidthKbps := bytesPerSecond * 8 / 1000

def byteAt (tS : ℚ) : ProcessCall ℚ := { data := [0], tS, stream := "lidar" }

theorem bandwidth_limit_twice :
    (processed clockWorld [limitRule 1] [10 ^ 9, 2 * 10 ^ 9]
      ([] ++ [byteAt 1, byteAt 2])).letThrough (limitRule 1) 0 ≤
        (limitRule 1).capBytes * (1 + (2 * 10 ^ 9 - 10 ^ 9) / 10 ^ 9) :=
  bandwidth_limit clockWorld (by decide +kernel) [10 ^ 9, 2 * 10 ^ 9] [] [byteAt 1, byteAt 2]
    (List.mem_singleton_self _) (by decide +kernel) (by decide +kernel) (by norm_num)
    ⟨by decide +kernel, by decide +kernel⟩ (by decide +kernel) (by decide +kernel)

/-- What a rule lets through is within its rate in every window that satisfies `assumed`. -/
def Limits (assumed : FaultRule ℚ → List Refill → Prop) : Prop :=
  ∀ (W : World (List ℚ) ℚ) (rules : List (FaultRule ℚ)) (world : List ℚ)
    (before window : List (ProcessCall ℚ)) (r : FaultRule ℚ) (tᵢ tⱼ : ℚ),
    (∀ s ∈ rules, s.kind = .kBandwidthLimit) → r ∈ rules →
      (∀ c ∈ window, r.activeAt c.tS = true) → tᵢ ≤ tⱼ →
        Clocked tᵢ tⱼ ((processed W rules world before).runRefills W window) →
          assumed r ((processed W rules world before).runRefills W window) →
            (processed W rules world (before ++ window)).letThrough r before.length ≤
              r.capBytes * (1 + (tⱼ - tᵢ) / 10 ^ 9)

theorem Limits.of_unassumed (h : Limits fun _ _ => True)
    (assumed : FaultRule ℚ → List Refill → Prop) : Limits assumed := by
  intro W rules world before window r tᵢ tⱼ hrules hr hactive hle hclock _
  exact h W rules world before window r tᵢ tⱼ hrules hr hactive hle hclock trivial

theorem limits_shared : ¬Limits fun r xs => 0 < r.bandwidthKbps ∧ NonzeroReadings xs := by
  intro h
  have hbound := h clockWorld [limitRule 4, limitRule 1]
    [10 ^ 9, 10 ^ 9, 3 / 2 * 10 ^ 9, 3 / 2 * 10 ^ 9, 2 * 10 ^ 9, 2 * 10 ^ 9] []
    [byteAt 1, byteAt (3 / 2), byteAt 2] (limitRule 1) (10 ^ 9) (2 * 10 ^ 9)
    (by decide +kernel) (by simp) (by decide +kernel) (by norm_num)
    ⟨by decide +kernel, by decide +kernel⟩ ⟨by decide +kernel, by decide +kernel⟩
  revert hbound
  decide +kernel

theorem limits_zeroClock : ¬Limits fun r xs => 0 < r.bandwidthKbps ∧ NoFasterRefill r xs := by
  intro h
  have hbound := h clockWorld [limitRule 1] [0, 0] [] [byteAt 1, byteAt 1] (limitRule 1) 0 0
    (by decide +kernel) (by simp) (by decide +kernel) (by norm_num)
    ⟨by decide +kernel, by decide +kernel⟩ ⟨by decide +kernel, by decide +kernel⟩
  revert hbound
  decide +kernel

theorem limits_zeroRate : ¬Limits fun r xs => NonzeroReadings xs ∧ NoFasterRefill r xs := by
  intro h
  have hbound := h clockWorld [limitRule 0] [] [] [byteAt 1] (limitRule 0) 0 0
    (by decide +kernel) (by simp) (by decide +kernel) (by norm_num)
    ⟨by decide +kernel, by decide +kernel⟩ ⟨by decide +kernel, by decide +kernel⟩
  revert hbound
  decide +kernel

/-- Each of the three conditions is needed: a faster rule fills the bucket of a slower one; at
the time zero every frame finds a full bucket; a rate of zero limits nothing. -/
theorem bandwidth_exceeded : ¬(Limits fun _ _ => True) ∧
    (¬Limits fun r xs => 0 < r.bandwidthKbps ∧ NonzeroReadings xs) ∧
      (¬Limits fun r xs => 0 < r.bandwidthKbps ∧ NoFasterRefill r xs) ∧
        ¬Limits fun r xs => NonzeroReadings xs ∧ NoFasterRefill r xs :=
  ⟨fun h => limits_shared (h.of_unassumed _), limits_shared, limits_zeroClock, limits_zeroRate⟩

end SensorForge.Faults
