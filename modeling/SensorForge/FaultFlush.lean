import SensorForge.QuietRules

/-! What is in the engine after `flush`: the queue is empty, but a frame held back for a
swap stays where it is. -/

namespace SensorForge.Faults

open Transition
open Double (ofInt)

variable {ω D : Type} [Double D] {W : World ω D} {rules : List (FaultRule D)}

def EngineAction.ofFlush : EngineAction D → Bool
  | .flush | .flushPop _ | .flushEmit | .flushReturn => true
  | _ => false

theorem ofFlush_next {e e' : FaultEngine ω D} {a : EngineAction D} (ha : a.ofFlush = true)
    (h : e.next W a = some e') : e'.held = e.held ∧ e'.workerHand = e.workerHand := by
  cases next_step h with
  | process c => cases ha
  | workerWait i => cases ha
  | workerPop i => cases ha
  | workerEmit => cases ha
  | flush => exact ⟨rfl, rfl⟩
  | flushPop i => exact ⟨rfl, rfl⟩
  | flushEmit => exact ⟨rfl, rfl⟩
  | flushReturn => exact ⟨rfl, rfl⟩

theorem ofFlush_run {e e' : FaultEngine ω D} {as : List (EngineAction D)}
    (has : ∀ a ∈ as, a.ofFlush = true) (h : (system W rules).run anyStep e as = some e') :
    e'.held = e.held ∧ e'.workerHand = e.workerHand := by
  induction as generalizing e with
  | nil =>
    cases h
    exact ⟨rfl, rfl⟩
  | cons a as ih =>
    obtain ⟨u, _, hu, h⟩ := System.run_cons.mp h
    obtain ⟨hheld, hworker⟩ := ofFlush_next (has a (by simp)) hu
    obtain ⟨hheld', hworker'⟩ := ih (fun b hb => has b (by simp [hb])) h
    exact ⟨hheld'.trans hheld, hworker'.trans hworker⟩

omit [Double D] in
theorem flushActions_ofFlush (is : List Nat) :
    ∀ a ∈ (flushActions is : List (EngineAction D)), a.ofFlush = true := by
  intro a ha
  simp only [flushActions, List.mem_append, List.mem_cons, List.mem_flatMap, List.not_mem_nil,
    or_false] at ha
  rcases ha with (rfl | ⟨i, _, rfl | rfl⟩) | rfl <;> rfl

theorem flushReturn_next {e e' : FaultEngine ω D} (h : e.next W .flushReturn = some e') :
    e'.delayed = [] ∧ e'.flushHand = none := by
  cases next_step h with
  | flushReturn hf hhand hempty => exact ⟨hempty, hhand⟩

theorem flush_returned {e e' : FaultEngine ω D} {is : List Nat}
    (h : (system W rules).run anyStep e (flushActions is) = some e') :
    e'.delayed = [] ∧ e'.flushHand = none := by
  obtain ⟨u, _, h⟩ := System.run_append.mp h
  obtain ⟨v, _, hv, h⟩ := System.run_cons.mp h
  cases h
  exact flushReturn_next (W := W) hv

theorem flush_waiting {e e' : FaultEngine ω D} {is : List Nat} (hidle : e.workerHand = none)
    (h : (system W rules).run anyStep e (flushActions is) = some e') :
    e'.waiting = ↑e.held.toList := by
  obtain ⟨hheld, hworker⟩ := ofFlush_run (flushActions_ofFlush is) h
  obtain ⟨hdelayed, hhand⟩ := flush_returned h
  simp [FaultEngine.waiting, hheld, hworker, hidle, hdelayed, hhand]

theorem exists_first_due [IsStrictOrder D (· < ·)] {q : List (Delayed D)} (hq : q ≠ []) :
    ∃ d ∈ q, ∀ d' ∈ q, ¬ d'.dueNs < d.dueNs := by
  induction q with
  | nil => exact absurd rfl hq
  | cons d q ih =>
    by_cases hne : q = []
    · exact ⟨d, by simp, by simp [hne, irrefl_of (· < ·) d.dueNs]⟩
    · obtain ⟨m, hm, hmin⟩ := ih hne
      by_cases hlt : d.dueNs < m.dueNs
      · refine ⟨d, by simp, ?_⟩
        intro d' hd' hlt'
        rcases List.mem_cons.mp hd' with rfl | hd'
        · exact irrefl_of (· < ·) _ hlt'
        · exact hmin d' hd' (trans_of (· < ·) hlt' hlt)
      · refine ⟨m, by simp [hm], ?_⟩
        intro d' hd'
        rcases List.mem_cons.mp hd' with rfl | hd'
        · exact hlt
        · exact hmin d' hd'

theorem exists_top [IsStrictOrder D (· < ·)] {e : FaultEngine ω D} (hne : e.delayed ≠ []) :
    ∃ i d, e.top i = some d := by
  obtain ⟨d, hd, hmin⟩ := exists_first_due hne
  obtain ⟨i, hi, rfl⟩ := List.getElem_of_mem hd
  refine ⟨i, e.delayed[i], ?_⟩
  rw [FaultEngine.top, Option.filter_eq_some_iff]
  exact ⟨List.getElem?_eq_getElem hi, by simpa using hmin⟩

theorem flush_loop_returns [IsStrictOrder D (· < ·)] (n : Nat) {e : FaultEngine ω D}
    (hlen : e.delayed.length = n) (hf : e.flushing = true) (hhand : e.flushHand = none) :
    ∃ (is : List Nat) (e' : FaultEngine ω D), (system W rules).run anyStep e
      (is.flatMap (fun i => [.flushPop i, .flushEmit]) ++ [.flushReturn]) = some e' := by
  induction n generalizing e with
  | zero =>
    refine ⟨[], { e with flushing := false }, ?_⟩
    rw [List.flatMap_nil, List.nil_append, System.run_cons]
    refine ⟨_, trivial, ?_, rfl⟩
    exact if_pos ⟨hf, hhand, List.isEmpty_iff_length_eq_zero.mpr hlen⟩
  | succ n ih =>
    obtain ⟨i, d, htop⟩ := exists_top (e := e) (List.ne_nil_of_length_pos (by omega))
    have hi : i < e.delayed.length := by
      obtain ⟨hget, _⟩ := Option.filter_eq_some_iff.mp htop
      exact (List.getElem?_eq_some_iff.mp hget).1
    have hlen' : (e.delayed.eraseIdx i).length = n := by
      rw [List.length_eraseIdx_of_lt hi]
      omega
    obtain ⟨is, e', hrun⟩ := ih
      (e := ({ e with delayed := e.delayed.eraseIdx i } : FaultEngine ω D).emit W d.frame)
      hlen' hf hhand
    refine ⟨i :: is, e', ?_⟩
    rw [List.flatMap_cons, List.append_assoc, List.cons_append, System.run_cons]
    refine ⟨{ e with delayed := e.delayed.eraseIdx i, flushHand := some d.frame }, trivial, ?_, ?_⟩
    · change FaultEngine.next W e (.flushPop i) = _
      rw [FaultEngine.next, if_pos ⟨hf, hhand⟩, htop, Option.map_some]
    · rw [List.cons_append, List.nil_append, System.run_cons]
      refine ⟨_, trivial, rfl, ?_⟩
      rw [← hrun]
      congr 1
      simp [FaultEngine.emit, hhand]

/-- `flush` comes to its end, whatever the due times are. -/
theorem flush_returns [IsStrictOrder D (· < ·)] {e : FaultEngine ω D} (hf : e.flushing = false)
    (hhand : e.flushHand = none) :
    ∃ (is : List Nat) (e' : FaultEngine ω D),
      (system W rules).run anyStep e (flushActions is) = some e' := by
  obtain ⟨is, e', hrun⟩ : ∃ (is : List Nat) (e' : FaultEngine ω D),
      (system W rules).run anyStep { e with flushing := true }
        (is.flatMap (fun i => [.flushPop i, .flushEmit]) ++ [.flushReturn]) = some e' :=
    flush_loop_returns _ (e := { e with flushing := true }) rfl rfl hhand
  refine ⟨is, e', ?_⟩
  rw [flushActions, List.cons_append, System.run_cons]
  refine ⟨_, trivial, ?_, hrun⟩
  change FaultEngine.next W e .flush = _
  rw [FaultEngine.next, hf]
  rfl

/-- No rule suppresses the payload of the call, no draw drops it, and the token bucket has room
for it. -/
def FaultEngine.admits (W : World ω D) (e : FaultEngine ω D) (c : ProcessCall D) : Bool :=
  let active := e.active c.tS c.stream
  let dropped := e.dropLoop W active
  !suppressed active && !dropped.2 && !(dropped.1.bandwidthLoop W (ofInt c.data.length) active).2

def FaultEngine.swaps (W : World ω D) (e : FaultEngine ω D) : EngineAction D → Bool
  | .process c => e.admits W c && reorderActive e.rules c
  | _ => false

/-- How many calls of a run come through while a reorder rule is active for them. -/
def swapCalls (W : World ω D) (e : FaultEngine ω D) : List (EngineAction D) → Nat
  | [] => 0
  | a :: as =>
    (if e.swaps W a then 1 else 0) + (e.next W a).elim 0 fun e' => swapCalls W e' as

/-- What the draws and the token bucket depend on. -/
structure SameBudget (e e' : FaultEngine ω D) : Prop where
  world : e.world = e'.world
  tokensBytes : e.tokensBytes = e'.tokensBytes
  lastRefillNs : e.lastRefillNs = e'.lastRefillNs

theorem SameBudget.dropLoop {e e' : FaultEngine ω D} (h : SameBudget e e')
    (rs : List (FaultRule D)) :
    (e.dropLoop W rs).2 = (e'.dropLoop W rs).2 ∧
      SameBudget (e.dropLoop W rs).1 (e'.dropLoop W rs).1 := by
  induction rs generalizing e e' with
  | nil => exact ⟨rfl, h⟩
  | cons r rs ih =>
    rw [FaultEngine.dropLoop, FaultEngine.dropLoop, h.world]
    have hdraw : SameBudget { e with world := (W.uniformReal e'.world).2 }
        { e' with world := (W.uniformReal e'.world).2 } := ⟨rfl, h.tokensBytes, h.lastRefillNs⟩
    split
    · dsimp only
      split
      · exact ⟨rfl, rfl, h.tokensBytes, h.lastRefillNs⟩
      · exact ih hdraw
    · exact ih h

theorem SameBudget.bandwidthLoop {e e' : FaultEngine ω D} (h : SameBudget e e') (size : D)
    (rs : List (FaultRule D)) :
    (e.bandwidthLoop W size rs).2 = (e'.bandwidthLoop W size rs).2 := by
  induction rs generalizing e e' with
  | nil => rfl
  | cons r rs ih =>
    have hrefill : SameBudget (e.refill W r) (e'.refill W r) := by
      unfold FaultEngine.refill
      rw [h.world, h.tokensBytes, h.lastRefillNs]
      exact ⟨rfl, rfl, rfl⟩
    rw [FaultEngine.bandwidthLoop, FaultEngine.bandwidthLoop]
    split
    · dsimp only
      rw [hrefill.tokensBytes]
      split
      · rfl
      · exact ih ⟨hrefill.world, rfl, hrefill.lastRefillNs⟩
    · exact ih h

theorem Adjusts.held {e e' : FaultEngine ω D} (h : Adjusts W e e') : e'.held = e.held := by
  obtain ⟨_, _, _, _, rfl, _⟩ := h
  rfl

theorem dispatchOrDelay_held (e : FaultEngine ω D) (active : List (FaultRule D)) (f : Frame) :
    (e.dispatchOrDelay W active f).held = e.held := by
  unfold FaultEngine.dispatchOrDelay
  split <;> rfl

theorem duplicates_held (active : List (FaultRule D)) (f : Frame) (e : FaultEngine ω D)
    (rs : List (FaultRule D)) :
    (rs.foldl (FaultEngine.duplicate W active f) e).held = e.held := by
  induction rs generalizing e with
  | nil => rfl
  | cons r rs ih =>
    rw [List.foldl_cons, ih, FaultEngine.duplicate]
    split
    · exact dispatchOrDelay_held e active f
    · rfl

/-- A frame that finds a reorder rule active takes the slot, or empties it. -/
theorem forward_held (e : FaultEngine ω D) (active : List (FaultRule D)) (f : Frame) :
    (e.forward W active f).held = none ↔
      (e.held = none ↔ (active.any fun r => r.kind = .kReorder) = false) := by
  rw [FaultEngine.forward]
  cases hre : active.any fun r => r.kind = .kReorder with
  | true =>
    rw [if_pos rfl]
    cases hheld : e.held with
    | none => simp
    | some prev => simp [dispatchOrDelay_held]
  | false =>
    rw [if_neg Bool.false_ne_true, duplicates_held, dispatchOrDelay_held]
    simp

theorem process_held (e : FaultEngine ω D) (c : ProcessCall D) :
    (e.process W c).held = none ↔
      (e.held = none ↔ (e.admits W c && reorderActive e.rules c) = false) := by
  obtain ⟨window, restarts, htrack⟩ := trackRestarts_eq { e with calls := e.calls ++ [c] }
    (e.active c.tS c.stream) c.stream
  have hsame : SameBudget (({ e with calls := e.calls ++ [c] } : FaultEngine ω D).trackRestarts
      (e.active c.tS c.stream) c.stream) e := by
    rw [htrack]
    exact ⟨rfl, rfl, rfl⟩
  have hheld : (({ e with calls := e.calls ++ [c] } : FaultEngine ω D).trackRestarts
      (e.active c.tS c.stream) c.stream).held = e.held := by
    rw [htrack]
  clear htrack
  rw [FaultEngine.process, FaultEngine.admits]
  dsimp only
  generalize ({ e with calls := e.calls ++ [c] } : FaultEngine ω D).trackRestarts _ _ = tracked
    at hsame hheld ⊢
  obtain ⟨hdrop, hbudget⟩ := hsame.dropLoop (W := W) (e.active c.tS c.stream)
  have hband := hbudget.bandwidthLoop (W := W) (ofInt c.data.length) (e.active c.tS c.stream)
  have hheld₁ := (dropLoop_adjusts (W := W) tracked (e.active c.tS c.stream)).held
  rw [← hdrop, ← hband]
  cases hsup : suppressed (e.active c.tS c.stream) with
  | true => simp [FaultEngine.drop, hheld]
  | false =>
    rw [if_neg Bool.false_ne_true]
    rcases hl : tracked.dropLoop W (e.active c.tS c.stream) with ⟨e₁, _ | _⟩
    · rw [hl] at hheld₁
      have hheld₂ := (bandwidthLoop_adjusts (W := W) (ofInt c.data.length) e₁
        (e.active c.tS c.stream)).held
      dsimp only
      rcases hl' : e₁.bandwidthLoop W (ofInt c.data.length) (e.active c.tS c.stream) with
        ⟨e₂, _ | _⟩
      · rw [hl'] at hheld₂
        dsimp only
        rw [forward_held, (corruptLoop_adjusts e₂ _ _).held, hheld₂, hheld₁, hheld,
          active_any_reorder]
        simp
      · rw [hl'] at hheld₂
        have hsame : e₂.held = e.held := hheld₂.trans (hheld₁.trans hheld)
        simp [hsame]
    · rw [hl] at hheld₁
      have hsame : e₁.held = e.held := hheld₁.trans hheld
      simp [hsame]

/-- Only calls that come through to an active reorder rule change whether the slot is free. -/
theorem next_held {e e' : FaultEngine ω D} {a : EngineAction D} (h : e.next W a = some e') :
    e'.held = none ↔ (e.held = none ↔ e.swaps W a = false) := by
  cases next_step h with
  | process c => exact process_held e c
  | workerWait | workerPop | workerEmit | flush | flushPop | flushEmit | flushReturn =>
    simp [FaultEngine.swaps, FaultEngine.emit]

/-- The slot is free after an even number of them. -/
theorem run_held {e e' : FaultEngine ω D} {as : List (EngineAction D)}
    (h : (system W rules).run anyStep e as = some e') :
    e'.held = none ↔ (e.held = none ↔ Even (swapCalls W e as)) := by
  induction as generalizing e with
  | nil =>
    cases h
    simp [swapCalls]
  | cons a as ih =>
    obtain ⟨u, _, hu, h⟩ := System.run_cons.mp h
    have hstep := next_held (W := W) hu
    have hcount : swapCalls W e (a :: as) = (if e.swaps W a then 1 else 0) + swapCalls W u as := by
      rw [swapCalls, show e.next W a = some u from hu, Option.elim_some]
    have heven : Even (if e.swaps W a then 1 else 0) ↔ e.swaps W a = false := by
      cases e.swaps W a <;> decide
    rw [ih h, hstep, hcount, Nat.even_add, heven]
    exact iff_assoc

/-- After a flush that the worker keeps away from, the counters agree if and only if an even
number of the calls before it have come through to an active reorder rule, and so it is with the
frames that still wait. -/
theorem flush_conserves_iff {start e e' : FaultEngine ω D} {as : List (EngineAction D)}
    {is : List Nat} (hstart : (system W rules).start start)
    (hrun : (system W rules).run anyStep start as = some e) (hidle : e.workerHand = none)
    (hflush : (system W rules).run anyStep e (flushActions is) = some e') :
    (UInt64.ofNat e'.calls.length + e'.stats.duplicated = e'.stats.forwarded + e'.stats.dropped ↔
      Even (swapCalls W start as)) ∧ (e'.waiting = 0 ↔ Even (swapCalls W start as)) := by
  have hreach : (system W rules).Reachable anyStep e := System.Reachable.run (.start hstart) hrun
  have hbal := reachable_balanced (hreach.run hflush)
  have hwait := flush_waiting hidle hflush
  have hbalance := hbal.balance
  have hcard : e'.frames.card = e.held.toList.length + e'.written.length := by
    rw [FaultEngine.frames, Multiset.card_add, hwait, Multiset.coe_card, Multiset.coe_card,
      List.length_map]
  have heven : e.held = none ↔ Even (swapCalls W start as) := by
    obtain ⟨world, rfl⟩ := hstart
    simpa using run_held hrun
  rw [hcard, UInt64.ofNat_add, ← hbal.forwarded] at hbalance
  rw [hwait, ← heven]
  cases hheld : e.held with
  | none =>
    rw [hheld, Option.toList_none, List.length_nil] at hbalance
    simp only [Option.toList_none, Multiset.coe_nil, iff_true, and_true]
    grind
  | some f =>
    rw [hheld, Option.toList_some, List.length_singleton] at hbalance
    simp only [Option.toList_some, Multiset.coe_singleton, Multiset.singleton_ne_zero,
      reduceCtorEq, iff_false, and_true]
    grind

def swapRule : FaultRule Int64 := { kind := .kReorder, durationS := 10 }

def swapCall : ProcessCall Int64 := { data := [7], tS := 1, stream := "imu" }

/-- The engine of `swapRule` after `n` frames. -/
def swapped (n : Nat) : FaultEngine (List Int64 × List Int) Int64 :=
  (FaultEngine.process scriptedWorld · swapCall)^[n] { rules := [swapRule], world := ([], []) }

/-- Two frames are swapped. -/
theorem flush_conserves_pair :
    ∃ e', (system scriptedWorld [swapRule]).run anyStep (swapped 2) (flushActions []) = some e' ∧
      UInt64.ofNat e'.calls.length + e'.stats.duplicated =
        e'.stats.forwarded + e'.stats.dropped := by
  obtain ⟨e', hflush⟩ : ∃ e', (system scriptedWorld [swapRule]).run anyStep (swapped 2)
      (flushActions []) = some e' := ⟨_, rfl⟩
  have hrun : (system scriptedWorld [swapRule]).run anyStep (swapped 0)
      [.process swapCall, .process swapCall] = some (swapped 2) := rfl
  have heven : Even (swapCalls scriptedWorld (swapped 0) [.process swapCall, .process swapCall]) :=
    by decide
  exact ⟨e', hflush, (flush_conserves_iff ⟨_, rfl⟩ hrun rfl hflush).1.mpr heven⟩

theorem swapped_one_reachable :
    (system scriptedWorld [swapRule]).Reachable anyStep (swapped 1) :=
  .step (a := EngineAction.process swapCall) (.start ⟨([], []), rfl⟩) trivial rfl

/-- One is held back for good. -/
theorem flush_leaves_held :
    ¬ ∀ (rules : List (FaultRule Int64)) (e e' : FaultEngine (List Int64 × List Int) Int64)
      (is : List Nat),
      (system scriptedWorld rules).Reachable anyStep e → e.workerHand = none →
      (system scriptedWorld rules).run anyStep e (flushActions is) = some e' →
      UInt64.ofNat e'.calls.length + e'.stats.duplicated =
        e'.stats.forwarded + e'.stats.dropped := by
  intro h
  have hone := h [swapRule] (swapped 1) _ [] swapped_one_reachable rfl rfl
  revert hone
  decide

end SensorForge.Faults
