import SensorForge.FaultEngine

/-! What a step of the engine can do: the regions of its three threads, and what `process`
leaves alone once the restarts are tracked. -/

namespace SensorForge.Faults

variable {ω D : Type} [Double D] {W : World ω D}

/-- The steps of the engine, each with what it finds and what it leaves. -/
inductive FaultEngine.Step (W : World ω D) (e : FaultEngine ω D) :
    EngineAction D → FaultEngine ω D → Prop
  | process (c : ProcessCall D) : e.flushing = false → Step W e (.process c) (e.process W c)
  | workerWait (i : Nat) (d : Delayed D) : e.workerHand = none → e.top i = some d →
      (W.nowNs e.world).1 < d.dueNs → Step W e (.workerPop i) { e with world := (W.nowNs e.world).2 }
  | workerPop (i : Nat) (d : Delayed D) : e.workerHand = none → e.top i = some d →
      ¬ (W.nowNs e.world).1 < d.dueNs → Step W e (.workerPop i) { e with
        world := (W.nowNs e.world).2, delayed := e.delayed.eraseIdx i, workerHand := some d.frame }
  | workerEmit (f : Frame) : e.workerHand = some f →
      Step W e .workerEmit ({ e with workerHand := none }.emit W f)
  | flush : e.flushing = false → Step W e .flush { e with flushing := true }
  | flushPop (i : Nat) (d : Delayed D) : e.flushing = true → e.flushHand = none →
      e.top i = some d → Step W e (.flushPop i) { e with
        delayed := e.delayed.eraseIdx i, flushHand := some d.frame }
  | flushEmit (f : Frame) : e.flushHand = some f →
      Step W e .flushEmit ({ e with flushHand := none }.emit W f)
  | flushReturn : e.flushing = true → e.flushHand = none → e.delayed = [] →
      Step W e .flushReturn { e with flushing := false }

theorem next_step {e e' : FaultEngine ω D} {a : EngineAction D} (h : e.next W a = some e') :
    e.Step W a e' := by
  cases a with
  | process c =>
    simp only [FaultEngine.next] at h
    split at h <;> cases h
    exact .process c (Bool.eq_false_iff.mpr ‹_›)
  | workerPop i =>
    simp only [FaultEngine.next] at h
    split at h
    · cases h
    · next hbusy =>
      have hfree : e.workerHand = none := by simpa using hbusy
      obtain ⟨d, htop, rfl⟩ := Option.map_eq_some_iff.mp h
      split
      · exact .workerWait i d hfree htop ‹_›
      · exact .workerPop i d hfree htop ‹_›
  | workerEmit =>
    obtain ⟨f, hhand, rfl⟩ := Option.map_eq_some_iff.mp h
    exact .workerEmit f hhand
  | flush =>
    simp only [FaultEngine.next] at h
    split at h <;> cases h
    exact .flush (Bool.eq_false_iff.mpr ‹_›)
  | flushPop i =>
    simp only [FaultEngine.next] at h
    split at h
    · next hturn =>
      obtain ⟨d, htop, rfl⟩ := Option.map_eq_some_iff.mp h
      exact .flushPop i d hturn.1 hturn.2 htop
    · cases h
  | flushEmit =>
    obtain ⟨f, hhand, rfl⟩ := Option.map_eq_some_iff.mp h
    exact .flushEmit f hhand
  | flushReturn =>
    simp only [FaultEngine.next] at h
    split at h <;> cases h
    next hturn => exact .flushReturn hturn.1 hturn.2.1 (List.isEmpty_iff.mp hturn.2.2)

/-- From `e` to `e'` only what `process` writes behind the tracking of restarts has changed:
no thread's hand, and the queue at most longer. -/
structure Onwards (e e' : FaultEngine ω D) : Prop where
  restartedThisWindow : e'.restartedThisWindow = e.restartedThisWindow
  restarts : e'.restarts = e.restarts
  workerHand : e'.workerHand = e.workerHand
  flushHand : e'.flushHand = e.flushHand
  flushing : e'.flushing = e.flushing
  delayed : e.delayed <+: e'.delayed

theorem Onwards.of_same {e e' : FaultEngine ω D}
    (hwindow : e'.restartedThisWindow = e.restartedThisWindow) (hrestarts : e'.restarts = e.restarts)
    (hworker : e'.workerHand = e.workerHand) (hflush : e'.flushHand = e.flushHand)
    (hflushing : e'.flushing = e.flushing) (hdelayed : e'.delayed = e.delayed) : Onwards e e' :=
  ⟨hwindow, hrestarts, hworker, hflush, hflushing, hdelayed ▸ List.prefix_rfl⟩

theorem Onwards.refl (e : FaultEngine ω D) : Onwards e e := by
  apply Onwards.of_same <;> rfl

theorem Onwards.trans {e e' e'' : FaultEngine ω D} (h : Onwards e e') (h' : Onwards e' e'') :
    Onwards e e'' where
  restartedThisWindow := h'.restartedThisWindow.trans h.restartedThisWindow
  restarts := h'.restarts.trans h.restarts
  workerHand := h'.workerHand.trans h.workerHand
  flushHand := h'.flushHand.trans h.flushHand
  flushing := h'.flushing.trans h.flushing
  delayed := h.delayed.trans h'.delayed

/-- A draw, or a reading of the engine's clock. -/
inductive World.Used (W : World ω D) (w : ω) : ω → Prop
  | uniformReal : Used W w (W.uniformReal w).2
  | uniformInt (hi : Nat) : Used W w (W.uniformInt hi w).2
  | nowNs : Used W w (W.nowNs w).2

/-- What the loops of `process` may change before a frame goes on. -/
def Adjusts (W : World ω D) (e e' : FaultEngine ω D) : Prop :=
  ∃ world tokensBytes lastRefillNs stats,
    e' = { e with world, tokensBytes, lastRefillNs, stats } ∧
      Relation.ReflTransGen W.Used e.world world

theorem Adjusts.refl (e : FaultEngine ω D) : Adjusts W e e := ⟨_, _, _, _, rfl, .refl⟩

theorem Adjusts.trans {e e' e'' : FaultEngine ω D} (h : Adjusts W e e') (h' : Adjusts W e' e'') :
    Adjusts W e e'' := by
  obtain ⟨_, _, _, _, rfl, hused⟩ := h
  obtain ⟨_, _, _, _, rfl, hused'⟩ := h'
  exact ⟨_, _, _, _, rfl, hused.trans hused'⟩

theorem Adjusts.onwards {e e' : FaultEngine ω D} (h : Adjusts W e e') : Onwards e e' := by
  obtain ⟨_, _, _, _, rfl, _⟩ := h
  apply Onwards.of_same <;> rfl

theorem Adjusts.drop {e e' : FaultEngine ω D} (h : Adjusts W e e') : Adjusts W e e'.drop := by
  obtain ⟨_, _, _, _, rfl, hused⟩ := h
  exact ⟨_, _, _, _, rfl, hused⟩

/-- The probabilistic drop counts nothing unless it drops the frame. -/
theorem dropLoop_cases (e : FaultEngine ω D) (rs : List (FaultRule D)) :
    ∃ e', Adjusts W e e' ∧ e'.stats = e.stats ∧
      (e.dropLoop W rs = (e', false) ∨ e.dropLoop W rs = (e'.drop, true)) := by
  induction rs generalizing e with
  | nil => exact ⟨e, Adjusts.refl e, rfl, .inl rfl⟩
  | cons r rs ih =>
    rw [FaultEngine.dropLoop]
    split
    · have hdraw : Adjusts W e { e with world := (W.uniformReal e.world).2 } :=
        ⟨_, _, _, _, rfl, .single .uniformReal⟩
      dsimp only
      split
      · exact ⟨_, hdraw, rfl, .inr rfl⟩
      · obtain ⟨e', hrest, hstats, hl⟩ := ih { e with world := (W.uniformReal e.world).2 }
        exact ⟨e', hdraw.trans hrest, hstats, hl⟩
    · exact ih e

/-- So does the token bucket. -/
theorem bandwidthLoop_cases (size : D) (e : FaultEngine ω D) (rs : List (FaultRule D)) :
    ∃ e', Adjusts W e e' ∧ e'.stats = e.stats ∧
      (e.bandwidthLoop W size rs = (e', false) ∨ e.bandwidthLoop W size rs = (e'.drop, true)) := by
  induction rs generalizing e with
  | nil => exact ⟨e, Adjusts.refl e, rfl, .inl rfl⟩
  | cons r rs ih =>
    rw [FaultEngine.bandwidthLoop]
    split
    · have hrefill : Adjusts W e (e.refill W r) := ⟨_, _, _, _, rfl, .single .nowNs⟩
      have hcharge : Adjusts W e
          { e.refill W r with tokensBytes := (e.refill W r).tokensBytes - size } :=
        ⟨_, _, _, _, rfl, .single .nowNs⟩
      dsimp only
      split
      · exact ⟨_, hrefill, rfl, .inr rfl⟩
      · obtain ⟨e', hrest, hstats, hl⟩ := ih
          { e.refill W r with tokensBytes := (e.refill W r).tokensBytes - size }
        exact ⟨e', hcharge.trans hrest, hstats, hl⟩
    · exact ih e

theorem dropLoop_adjusts (e : FaultEngine ω D) (rs : List (FaultRule D)) :
    Adjusts W e (e.dropLoop W rs).1 := by
  obtain ⟨e', h, _, hl | hl⟩ := dropLoop_cases (W := W) e rs
  · rwa [hl]
  · rw [hl]
    exact h.drop

theorem bandwidthLoop_adjusts (size : D) (e : FaultEngine ω D) (rs : List (FaultRule D)) :
    Adjusts W e (e.bandwidthLoop W size rs).1 := by
  obtain ⟨e', h, _, hl | hl⟩ := bandwidthLoop_cases (W := W) size e rs
  · rwa [hl]
  · rw [hl]
    exact h.drop

omit [Double D] in
theorem flipMany_used (n : Nat) (s : ω × Frame) :
    Relation.ReflTransGen W.Used s.1 ((flipOnce W)^[n] s).1 := by
  induction n generalizing s with
  | zero => exact .refl
  | succ n ih =>
    rw [Function.iterate_succ_apply]
    have hbit : W.Used s.1 (W.uniformInt 7 s.1).2 := .uniformInt 7
    have hpos : W.Used (W.uniformInt 7 s.1).2 (flipOnce W s).1 := .uniformInt _
    exact .head hbit (.head hpos (ih _))

theorem corruptLoop_adjusts (e : FaultEngine ω D) (f : Frame) (rs : List (FaultRule D)) :
    Adjusts W e (e.corruptLoop W f rs).1 := by
  induction rs generalizing e f with
  | nil => exact Adjusts.refl e
  | cons r rs ih =>
    rw [FaultEngine.corruptLoop]
    split
    · exact Adjusts.trans ⟨_, _, _, _, rfl, flipMany_used r.corruptBits (e.world, f)⟩ (ih _ _)
    · exact ih e f

theorem dispatchOrDelay_onwards (e : FaultEngine ω D) (active : List (FaultRule D)) (f : Frame) :
    Onwards e (e.dispatchOrDelay W active f) := by
  unfold FaultEngine.dispatchOrDelay
  split
  · apply Onwards.of_same <;> rfl
  · exact ⟨rfl, rfl, rfl, rfl, rfl, List.prefix_append _ _⟩

theorem duplicates_onwards (active : List (FaultRule D)) (f : Frame) (e : FaultEngine ω D)
    (rs : List (FaultRule D)) : Onwards e (rs.foldl (FaultEngine.duplicate W active f) e) := by
  induction rs generalizing e with
  | nil => exact Onwards.refl e
  | cons r rs ih =>
    refine Onwards.trans ?_ (ih (e.duplicate W active f r))
    unfold FaultEngine.duplicate
    split
    · exact { dispatchOrDelay_onwards (W := W) e active f with }
    · exact Onwards.refl e

theorem forward_onwards (e : FaultEngine ω D) (active : List (FaultRule D)) (f : Frame) :
    Onwards e (e.forward W active f) := by
  unfold FaultEngine.forward
  split
  · cases e.held with
    | none => apply Onwards.of_same <;> rfl
    | some prev =>
      have hgo := (dispatchOrDelay_onwards (W := W) { e with held := none } active f).trans
        (dispatchOrDelay_onwards (W := W) _ active prev)
      exact { hgo with }
  · exact (dispatchOrDelay_onwards e active f).trans (duplicates_onwards active f _ active)

theorem process_onwards (e : FaultEngine ω D) (c : ProcessCall D) :
    Onwards (({ e with calls := e.calls ++ [c] } : FaultEngine ω D).trackRestarts
      (e.active c.tS c.stream) c.stream) (e.process W c) := by
  rw [FaultEngine.process]
  dsimp only
  generalize ({ e with calls := e.calls ++ [c] } : FaultEngine ω D).trackRestarts _ _ = tracked
  split
  · apply Onwards.of_same <;> rfl
  · have hdrop := (dropLoop_adjusts (W := W) tracked (e.active c.tS c.stream)).onwards
    generalize tracked.dropLoop W (e.active c.tS c.stream) = dropped at hdrop ⊢
    obtain ⟨e₁, _ | _⟩ := dropped
    · have hband := (bandwidthLoop_adjusts (W := W) (Double.ofInt c.data.length) e₁
        (e.active c.tS c.stream)).onwards
      dsimp only
      generalize e₁.bandwidthLoop W (Double.ofInt c.data.length) (e.active c.tS c.stream) = limited
        at hband ⊢
      obtain ⟨e₂, _ | _⟩ := limited
      · exact hdrop.trans (hband.trans
          ((corruptLoop_adjusts e₂ _ _).onwards.trans (forward_onwards _ _ _)))
      · exact hdrop.trans hband
    · exact hdrop

end SensorForge.Faults
