import SensorForge.EngineSteps

/-! Every payload that `process` does not drop is a frame of the engine from then on,
waiting or written; copies are counted where they are made. -/

namespace SensorForge.Faults

open BitFlips Transition

variable {ω D : Type} [Double D] {W : World ω D}

/-- The frames that are in the engine but not yet written. -/
def FaultEngine.waiting (e : FaultEngine ω D) : Multiset Frame :=
  ↑e.held.toList + ↑(e.delayed.map Delayed.frame) + ↑e.workerHand.toList + ↑e.flushHand.toList

def FaultEngine.frames (e : FaultEngine ω D) : Multiset Frame :=
  e.waiting + ↑(e.written.map Written.frame)

/-- From `e` to `e'` the frames `fs` come in, `copies` of them as duplicates. -/
structure Carries (copies : Nat) (fs : Multiset Frame) (e e' : FaultEngine ω D) : Prop where
  rules : e'.rules = e.rules
  calls : e'.calls = e.calls
  dropped : e'.stats.dropped = e.stats.dropped
  duplicated : e'.stats.duplicated = e.stats.duplicated + UInt64.ofNat copies
  frames : e'.frames = fs + e.frames
  written : ∃ ws, e'.written = e.written ++ ws ∧
    e'.stats.forwarded = e.stats.forwarded + UInt64.ofNat ws.length

/-- The payload of the `k`-th call, as what the corrupt rules have left of it. -/
structure Frame.From (f : Frame) (calls : List (ProcessCall D)) (c : ProcessCall D) : Prop where
  call : calls[f.call]? = some c
  inside : ∀ x ∈ f.flips, x.1 < c.data.length
  data : f.data = flipAll c.data f.flips

structure Flipped (f f' : Frame) : Prop where
  call : f'.call = f.call
  flips : ∃ xs, f'.flips = f.flips ++ xs ∧ f'.data = flipAll f.data xs ∧
    ∀ x ∈ xs, x.1 < f.data.length

theorem Carries.of_same {e e' : FaultEngine ω D} (hrules : e'.rules = e.rules)
    (hcalls : e'.calls = e.calls) (hheld : e'.held = e.held) (hdelayed : e'.delayed = e.delayed)
    (hworker : e'.workerHand = e.workerHand) (hflush : e'.flushHand = e.flushHand)
    (hwritten : e'.written = e.written) (hforwarded : e'.stats.forwarded = e.stats.forwarded)
    (hdropped : e'.stats.dropped = e.stats.dropped)
    (hduplicated : e'.stats.duplicated = e.stats.duplicated) : Carries 0 0 e e' where
  rules := hrules
  calls := hcalls
  dropped := hdropped
  duplicated := hduplicated.trans (UInt64.add_zero _).symm
  frames := by
    simp only [FaultEngine.frames, FaultEngine.waiting, hheld, hdelayed, hworker, hflush, hwritten,
      zero_add]
  written := ⟨[], by simp [hwritten], by simp [hforwarded]⟩

theorem Carries.refl (e : FaultEngine ω D) : Carries 0 0 e e := by
  apply Carries.of_same <;> rfl

theorem Carries.trans {m n : Nat} {fs gs : Multiset Frame} {e e' e'' : FaultEngine ω D}
    (h : Carries m fs e e') (h' : Carries n gs e' e'') : Carries (m + n) (fs + gs) e e'' where
  rules := h'.rules.trans h.rules
  calls := h'.calls.trans h.calls
  dropped := h'.dropped.trans h.dropped
  duplicated := by rw [h'.duplicated, h.duplicated, UInt64.ofNat_add, UInt64.add_assoc]
  frames := by
    rw [h'.frames, h.frames]
    abel
  written := by
    obtain ⟨ws, hws, hf⟩ := h.written
    obtain ⟨ws', hws', hf'⟩ := h'.written
    exact ⟨ws ++ ws', by rw [hws', hws, List.append_assoc],
      by rw [hf', hf, List.length_append, UInt64.ofNat_add, UInt64.add_assoc]⟩

/-- A stretch in which no frame comes in may go before. -/
theorem Carries.after {n : Nat} {fs : Multiset Frame} {e e' e'' : FaultEngine ω D}
    (h : Carries 0 0 e e') (h' : Carries n fs e' e'') : Carries n fs e e'' := by
  have hboth := h.trans h'
  rwa [Nat.zero_add, zero_add] at hboth

theorem Flipped.refl (f : Frame) : Flipped f f := ⟨rfl, [], by simp⟩

theorem Flipped.trans {f g h : Frame} (hfg : Flipped f g) (hgh : Flipped g h) : Flipped f h := by
  obtain ⟨xs, hflips, hdata, hxs⟩ := hfg.flips
  obtain ⟨ys, hflips', hdata', hys⟩ := hgh.flips
  refine ⟨hgh.call.trans hfg.call, xs ++ ys, ?_, ?_, ?_⟩
  · rw [hflips', hflips, List.append_assoc]
  · rw [hdata', hdata, flipAll_append]
  · intro x hx
    rcases List.mem_append.mp hx with hx | hx
    · exact hxs x hx
    · have hin := hys x hx
      rwa [hdata, flipAll_length] at hin

omit [Double D] in
theorem flipOnce_flipped {s : ω × Frame} (hne : s.2.data ≠ []) :
    Flipped s.2 (flipOnce W s).2 := by
  have hpos := List.length_pos_iff.mpr hne
  refine ⟨rfl, _, rfl, rfl, ?_⟩
  intro x hx
  rw [List.mem_singleton.mp hx]
  dsimp only
  omega

omit [Double D] in
theorem flipMany_flipped (n : Nat) {s : ω × Frame} (hne : s.2.data ≠ []) :
    Flipped s.2 ((flipOnce W)^[n] s).2 := by
  induction n generalizing s with
  | zero => exact Flipped.refl _
  | succ n ih =>
    have hone := flipOnce_flipped (W := W) hne
    have hne' : (flipOnce W s).2.data ≠ [] := by
      obtain ⟨xs, _, hdata, _⟩ := hone.flips
      rw [hdata, ← List.length_pos_iff, flipAll_length]
      exact List.length_pos_iff.mpr hne
    rw [Function.iterate_succ_apply]
    exact hone.trans (ih hne')

theorem restarts_eq (stream : String) (e : FaultEngine ω D) (rs : List (FaultRule D)) :
    ∃ window restarts, rs.foldl (FaultEngine.restart stream) e =
      { e with restartedThisWindow := window, restarts := restarts } := by
  induction rs generalizing e with
  | nil => exact ⟨_, _, rfl⟩
  | cons r rs ih =>
    rw [List.foldl_cons, FaultEngine.restart]
    split
    · exact ih _
    · exact ih e

/-- Nothing but the restarts depends on the edge tracking. -/
theorem trackRestarts_eq (e : FaultEngine ω D) (active : List (FaultRule D)) (stream : String) :
    ∃ window restarts, e.trackRestarts active stream =
      { e with restartedThisWindow := window, restarts := restarts } := by
  obtain ⟨window, restarts, hfold⟩ := restarts_eq stream e active
  unfold FaultEngine.trackRestarts
  rw [hfold]
  split <;> exact ⟨_, _, rfl⟩

theorem trackRestarts_carries (e : FaultEngine ω D) (active : List (FaultRule D))
    (stream : String) : Carries 0 0 e (e.trackRestarts active stream) := by
  obtain ⟨window, restarts, heq⟩ := trackRestarts_eq e active stream
  rw [heq]
  apply Carries.of_same <;> rfl

theorem Adjusts.carries {e e' : FaultEngine ω D} (h : Adjusts W e e') (hstats : e'.stats = e.stats) :
    Carries 0 0 e e' := by
  obtain ⟨_, _, _, _, rfl, _⟩ := h
  apply Carries.of_same <;> first | rfl | exact congrArg _ hstats

theorem dropLoop_carries (e : FaultEngine ω D) (rs : List (FaultRule D)) :
    ∃ e', Carries 0 0 e e' ∧ e'.stats.corrupted = e.stats.corrupted ∧
      (e.dropLoop W rs = (e', false) ∨ e.dropLoop W rs = (e'.drop, true)) := by
  obtain ⟨e', h, hstats, hl⟩ := dropLoop_cases (W := W) e rs
  exact ⟨e', h.carries hstats, congrArg _ hstats, hl⟩

theorem bandwidthLoop_carries (size : D) (e : FaultEngine ω D) (rs : List (FaultRule D)) :
    ∃ e', Carries 0 0 e e' ∧ e'.stats.corrupted = e.stats.corrupted ∧
      (e.bandwidthLoop W size rs = (e', false) ∨ e.bandwidthLoop W size rs = (e'.drop, true)) := by
  obtain ⟨e', h, hstats, hl⟩ := bandwidthLoop_cases (W := W) size e rs
  exact ⟨e', h.carries hstats, congrArg _ hstats, hl⟩

theorem corruptLoop_carries (e : FaultEngine ω D) (f : Frame) (rs : List (FaultRule D)) :
    Carries 0 0 e (e.corruptLoop W f rs).1 ∧ Flipped f (e.corruptLoop W f rs).2 := by
  induction rs generalizing e f with
  | nil => exact ⟨Carries.refl e, Flipped.refl f⟩
  | cons r rs ih =>
    rw [FaultEngine.corruptLoop]
    split
    · next h =>
      obtain ⟨hc, hf⟩ := ih
        { e with
          world := ((flipOnce W)^[r.corruptBits] (e.world, f)).1
          stats := { e.stats with corrupted := e.stats.corrupted + 1 } }
        ((flipOnce W)^[r.corruptBits] (e.world, f)).2
      have hflip := flipMany_flipped (W := W) r.corruptBits (s := (e.world, f)) h.2
      refine ⟨Carries.after ?_ hc, hflip.trans hf⟩
      apply Carries.of_same <;> rfl
    · exact ih e f

theorem emit_carries (e : FaultEngine ω D) (f : Frame) : Carries 0 {f} e (e.emit W f) where
  rules := rfl
  calls := rfl
  dropped := rfl
  duplicated := (UInt64.add_zero _).symm
  frames := by
    simp only [FaultEngine.frames, FaultEngine.waiting, FaultEngine.emit, List.map_append,
      List.map_cons, List.map_nil, ← Multiset.coe_add, Multiset.coe_singleton]
    abel
  written := ⟨_, rfl, rfl⟩

/-- A frame that was waiting in `e`, and no longer is in `u`, is written. -/
theorem emit_moved {e u : FaultEngine ω D} {f : Frame} (hrules : u.rules = e.rules)
    (hcalls : u.calls = e.calls) (hstats : u.stats = e.stats) (hwritten : u.written = e.written)
    (hwaiting : e.waiting = {f} + u.waiting) : Carries 0 0 e (u.emit W f) := by
  have hemit := emit_carries (W := W) u f
  refine ⟨hemit.rules.trans hrules, hemit.calls.trans hcalls, ?_, ?_, ?_, ?_⟩
  · rw [hemit.dropped, hstats]
  · rw [hemit.duplicated, hstats]
  · rw [hemit.frames, FaultEngine.frames, FaultEngine.frames, hwaiting, hwritten, zero_add,
      add_assoc]
  · rw [← hwritten, ← hstats]
    exact hemit.written

theorem dispatchOrDelay_carries (e : FaultEngine ω D) (active : List (FaultRule D)) (f : Frame) :
    Carries 0 {f} e (e.dispatchOrDelay W active f) := by
  unfold FaultEngine.dispatchOrDelay
  split
  · exact emit_carries e f
  · constructor
    case frames =>
      simp only [FaultEngine.frames, FaultEngine.waiting, List.map_append, List.map_cons,
        List.map_nil, ← Multiset.coe_add, Multiset.coe_singleton]
      abel
    case written => exact ⟨[], by simp, by simp⟩
    case duplicated => exact (UInt64.add_zero _).symm
    all_goals rfl

theorem duplicate_carries (active : List (FaultRule D)) (f : Frame) (e : FaultEngine ω D)
    (r : FaultRule D) :
    ∃ k, Carries k (Multiset.replicate k f) e (e.duplicate W active f r) := by
  unfold FaultEngine.duplicate
  split
  · refine ⟨1, ?_⟩
    have hd := dispatchOrDelay_carries (W := W) e active f
    have hcount : (e.dispatchOrDelay W active f).stats.duplicated = e.stats.duplicated :=
      hd.duplicated.trans (UInt64.add_zero _)
    exact { hd with duplicated := congrArg (· + 1) hcount }
  · exact ⟨0, Carries.refl e⟩

theorem duplicates_carries (active : List (FaultRule D)) (f : Frame) (e : FaultEngine ω D)
    (rs : List (FaultRule D)) :
    ∃ k, Carries k (Multiset.replicate k f) e (rs.foldl (FaultEngine.duplicate W active f) e) := by
  induction rs generalizing e with
  | nil => exact ⟨0, Carries.refl e⟩
  | cons r rs ih =>
    obtain ⟨k, hk⟩ := duplicate_carries (W := W) active f e r
    obtain ⟨l, hl⟩ := ih (e.duplicate W active f r)
    exact ⟨k + l, Multiset.replicate_add k l f ▸ hk.trans hl⟩

/-- A payload that goes on is a frame once, and once more for each copy counted. -/
theorem forward_carries (e : FaultEngine ω D) (active : List (FaultRule D)) (f : Frame) :
    ∃ k, Carries k (Multiset.replicate (k + 1) f) e (e.forward W active f) := by
  unfold FaultEngine.forward
  split
  · refine ⟨0, ?_⟩
    cases hheld : e.held with
    | none =>
      constructor
      case frames =>
        simp only [FaultEngine.frames, FaultEngine.waiting, hheld, Option.toList_some,
          Option.toList_none, Multiset.coe_singleton, Multiset.coe_nil, Nat.zero_add,
          Multiset.replicate_one]
        abel
      case written => exact ⟨[], by simp, by simp⟩
      case duplicated => exact (UInt64.add_zero _).symm
      all_goals rfl
    | some prev =>
      have hgo := (dispatchOrDelay_carries (W := W) { e with held := none } active f).trans
        (dispatchOrDelay_carries (W := W) _ active prev)
      refine ⟨hgo.rules, hgo.calls, hgo.dropped, hgo.duplicated, ?_, hgo.written⟩
      refine hgo.frames.trans ?_
      simp only [FaultEngine.frames, FaultEngine.waiting, hheld, Option.toList_some,
        Option.toList_none, Multiset.coe_singleton, Multiset.coe_nil, Nat.zero_add,
          Multiset.replicate_one]
      abel
  · obtain ⟨k, hk⟩ := duplicates_carries (W := W) active f (e.dispatchOrDelay W active f) active
    have hgo := (dispatchOrDelay_carries (W := W) e active f).trans hk
    rw [Nat.zero_add] at hgo
    refine ⟨k, ?_⟩
    rwa [Multiset.replicate_succ, ← Multiset.singleton_add]

theorem Carries.drop {n : Nat} {fs : Multiset Frame} {e e' : FaultEngine ω D}
    (h : Carries n fs e e') : Carries n fs e.drop e'.drop :=
  { h with dropped := congrArg (· + 1) h.dropped }

theorem process_suppressed {e : FaultEngine ω D} {c : ProcessCall D}
    (h : suppressed (e.active c.tS c.stream) = true) :
    ∃ window restarts, e.process W c = ({ e with
      calls := e.calls ++ [c], restartedThisWindow := window
      restarts := restarts } : FaultEngine ω D).drop := by
  obtain ⟨window, restarts, heq⟩ := trackRestarts_eq { e with calls := e.calls ++ [c] }
    (e.active c.tS c.stream) c.stream
  refine ⟨window, restarts, ?_⟩
  simp only [FaultEngine.process, h, if_true, heq]

/-- The stages of a call of `process`: one of them drops the payload, or the corrupt rules
and the last stage have it. -/
theorem process_stages (e : FaultEngine ω D) (c : ProcessCall D) :
    ∃ e', Carries 0 0 { e with calls := e.calls ++ [c] } e' ∧
      e'.stats.corrupted = e.stats.corrupted ∧ (e.process W c = e'.drop ∨
        suppressed (e.active c.tS c.stream) = false ∧ e.process W c =
          (e'.corruptLoop W { data := c.data, call := e.calls.length }
            (e.active c.tS c.stream)).1.forward W (e.active c.tS c.stream)
          (e'.corruptLoop W { data := c.data, call := e.calls.length }
            (e.active c.tS c.stream)).2) := by
  have htrack := trackRestarts_carries { e with calls := e.calls ++ [c] }
    (e.active c.tS c.stream) c.stream
  have hcount : (({ e with calls := e.calls ++ [c] } : FaultEngine ω D).trackRestarts
      (e.active c.tS c.stream) c.stream).stats.corrupted = e.stats.corrupted := by
    obtain ⟨window, restarts, heq⟩ := trackRestarts_eq { e with calls := e.calls ++ [c] }
      (e.active c.tS c.stream) c.stream
    rw [heq]
  rw [FaultEngine.process]
  dsimp only
  split
  · exact ⟨_, htrack, hcount, .inl rfl⟩
  · next hsup =>
    obtain ⟨e₁, hdrop, hcount₁, hl | hl⟩ := dropLoop_carries (W := W)
      (({ e with calls := e.calls ++ [c] } : FaultEngine ω D).trackRestarts
        (e.active c.tS c.stream) c.stream) (e.active c.tS c.stream)
    · obtain ⟨e₂, hband, hcount₂, hl' | hl'⟩ := bandwidthLoop_carries (W := W)
        (Double.ofInt c.data.length) e₁ (e.active c.tS c.stream)
      · simp only [hl, hl']
        exact ⟨e₂, htrack.after (hdrop.after hband), hcount₂.trans (hcount₁.trans hcount),
          .inr ⟨by simpa using hsup, rfl⟩⟩
      · simp only [hl, hl']
        exact ⟨e₂, htrack.after (hdrop.after hband), hcount₂.trans (hcount₁.trans hcount), .inl rfl⟩
    · simp only [hl]
      exact ⟨e₁, htrack.after hdrop, hcount₁.trans hcount, .inl rfl⟩

/-- What a call of `process` does: the payload is dropped, or it is a frame from now on,
with its copies. -/
theorem process_cases (e : FaultEngine ω D) (c : ProcessCall D) :
    Carries 0 0 ({ e with calls := e.calls ++ [c] } : FaultEngine ω D).drop (e.process W c) ∨
      suppressed (e.active c.tS c.stream) = false ∧
        ∃ k f, Flipped { data := c.data, call := e.calls.length } f ∧
          Carries k (Multiset.replicate (k + 1) f) { e with calls := e.calls ++ [c] }
            (e.process W c) := by
  obtain ⟨e', hcarries, _, heq | ⟨hsup, heq⟩⟩ := process_stages (W := W) e c
  · rw [heq]
    exact .inl hcarries.drop
  · obtain ⟨hcorrupt, hf⟩ := corruptLoop_carries (W := W) e'
      { data := c.data, call := e.calls.length } (e.active c.tS c.stream)
    obtain ⟨k, hforward⟩ := forward_carries (W := W)
      (e'.corruptLoop W { data := c.data, call := e.calls.length } (e.active c.tS c.stream)).1
      (e.active c.tS c.stream)
      (e'.corruptLoop W { data := c.data, call := e.calls.length } (e.active c.tS c.stream)).2
    rw [heq]
    exact .inr ⟨hsup, k, _, hf, hcarries.after (hcorrupt.after hforward)⟩

theorem process_rules (e : FaultEngine ω D) (c : ProcessCall D) :
    (e.process W c).rules = e.rules := by
  rcases process_cases (W := W) e c with h | ⟨_, k, f, _, h⟩ <;> exact h.rules

theorem process_calls (e : FaultEngine ω D) (c : ProcessCall D) :
    (e.process W c).calls = e.calls ++ [c] := by
  rcases process_cases (W := W) e c with h | ⟨_, k, f, _, h⟩ <;> exact h.calls

theorem process_written (e : FaultEngine ω D) (c : ProcessCall D) :
    ∃ ws, (e.process W c).written = e.written ++ ws := by
  rcases process_cases (W := W) e c with h | ⟨_, k, f, _, h⟩ <;>
  · obtain ⟨ws, hws, _⟩ := h.written
    exact ⟨ws, hws⟩

theorem top_mem {e : FaultEngine ω D} {i : Nat} {d : Delayed D} (h : e.top i = some d) :
    (↑(e.delayed.map Delayed.frame) : Multiset Frame) =
      {d.frame} + ↑((e.delayed.eraseIdx i).map Delayed.frame) := by
  obtain ⟨hget, _⟩ := Option.filter_eq_some_iff.mp h
  obtain ⟨hi, rfl⟩ := List.getElem?_eq_some_iff.mp hget
  rw [Multiset.singleton_add, Multiset.cons_coe, ← List.map_cons]
  exact Multiset.coe_eq_coe.mpr ((List.getElem_cons_eraseIdx_perm hi).symm.map _)

/-- Between two calls frames only move on. -/
theorem next_carries {e e' : FaultEngine ω D} {a : EngineAction D} (h : e.next W a = some e')
    (ha : ∀ c, a ≠ .process c) : Carries 0 0 e e' := by
  cases next_step h with
  | process c => exact absurd rfl (ha c)
  | workerWait i d hfree htop hearly => apply Carries.of_same <;> rfl
  | workerPop i d hfree htop hdue =>
    constructor
    case frames =>
      simp only [FaultEngine.frames, FaultEngine.waiting, top_mem htop, hfree,
        Option.toList_none, Option.toList_some, Multiset.coe_nil, Multiset.coe_singleton]
      abel
    case written => exact ⟨[], by simp, by simp⟩
    case duplicated => exact (UInt64.add_zero _).symm
    all_goals rfl
  | workerEmit f hhand =>
    apply emit_moved (u := { e with workerHand := none }) <;> try rfl
    simp only [FaultEngine.waiting, hhand, Option.toList_none, Option.toList_some,
      Multiset.coe_nil, Multiset.coe_singleton]
    abel
  | flush hidle => apply Carries.of_same <;> rfl
  | flushPop i d hf hfree htop =>
    constructor
    case frames =>
      simp only [FaultEngine.frames, FaultEngine.waiting, top_mem htop, hfree,
        Option.toList_none, Option.toList_some, Multiset.coe_nil, Multiset.coe_singleton]
      abel
    case written => exact ⟨[], by simp, by simp⟩
    case duplicated => exact (UInt64.add_zero _).symm
    all_goals rfl
  | flushEmit f hhand =>
    apply emit_moved (u := { e with flushHand := none }) <;> try rfl
    simp only [FaultEngine.waiting, hhand, Option.toList_none, Option.toList_some,
      Multiset.coe_nil, Multiset.coe_singleton]
    abel
  | flushReturn hf hfree hempty => apply Carries.of_same <;> rfl

theorem next_rules {e e' : FaultEngine ω D} {a : EngineAction D} (h : e.next W a = some e') :
    e'.rules = e.rules := by
  cases next_step h with
  | process c => exact process_rules e c
  | _ => rfl

/-- The counters account for every call, copy and frame. -/
structure FaultEngine.Balanced (e : FaultEngine ω D) : Prop where
  forwarded : e.stats.forwarded = UInt64.ofNat e.written.length
  balance : UInt64.ofNat e.calls.length + e.stats.duplicated =
    e.stats.dropped + UInt64.ofNat e.frames.card

def FaultEngine.FromCalls (e : FaultEngine ω D) : Prop := ∀ f ∈ e.frames, ∃ c, f.From e.calls c

theorem Carries.forwarded {n : Nat} {fs : Multiset Frame} {e e' : FaultEngine ω D}
    (h : Carries n fs e e') (hf : e.stats.forwarded = UInt64.ofNat e.written.length) :
    e'.stats.forwarded = UInt64.ofNat e'.written.length := by
  obtain ⟨ws, hws, hfw⟩ := h.written
  rw [hfw, hf, hws, List.length_append, UInt64.ofNat_add]

theorem Carries.balanced {n : Nat} {fs : Multiset Frame} {e e' : FaultEngine ω D}
    (h : Carries n fs e e') (hb : e.Balanced) (hfs : fs.card = n) : e'.Balanced where
  forwarded := h.forwarded hb.forwarded
  balance := by
    have hbal := hb.balance
    rw [h.calls, h.duplicated, h.dropped, h.frames, Multiset.card_add, hfs, UInt64.ofNat_add]
    grind

theorem FaultEngine.Balanced.process {e : FaultEngine ω D} (hb : e.Balanced) (c : ProcessCall D) :
    (e.process W c).Balanced := by
  have hbal := hb.balance
  rcases process_cases (W := W) e c with h | ⟨_, k, f, _, h⟩
  · apply h.balanced _ Multiset.card_zero
    refine ⟨hb.forwarded, ?_⟩
    change UInt64.ofNat (e.calls ++ [c]).length + e.stats.duplicated =
      e.stats.dropped + 1 + UInt64.ofNat e.frames.card
    rw [List.length_append, List.length_singleton, UInt64.ofNat_add]
    grind
  · refine ⟨h.forwarded hb.forwarded, ?_⟩
    rw [h.calls, h.duplicated, h.dropped, h.frames, Multiset.card_add, Multiset.card_replicate]
    change UInt64.ofNat (e.calls ++ [c]).length + (e.stats.duplicated + UInt64.ofNat k) =
      e.stats.dropped + UInt64.ofNat (k + 1 + e.frames.card)
    rw [List.length_append, List.length_singleton, UInt64.ofNat_add, UInt64.ofNat_add,
      UInt64.ofNat_add]
    grind

omit [Double D] in
theorem Frame.From.append {f : Frame} {calls : List (ProcessCall D)} {c : ProcessCall D}
    (h : f.From calls c) (c' : ProcessCall D) : f.From (calls ++ [c']) c where
  call := by
    obtain ⟨hlt, _⟩ := List.getElem?_eq_some_iff.mp h.call
    rw [List.getElem?_append_left hlt, h.call]
  inside := h.inside
  data := h.data

omit [Double D] in
theorem Flipped.fromCall {f : Frame} {calls : List (ProcessCall D)} {c : ProcessCall D}
    (h : Flipped { data := c.data, call := calls.length } f) : f.From (calls ++ [c]) c := by
  obtain ⟨xs, hflips, hdata, hin⟩ := h.flips
  rw [List.nil_append] at hflips
  refine ⟨?_, hflips ▸ hin, hflips ▸ hdata⟩
  rw [h.call]
  simp

theorem FaultEngine.FromCalls.process {e : FaultEngine ω D} (hfrom : e.FromCalls)
    (c : ProcessCall D) : (e.process W c).FromCalls := by
  have hold : ∀ f ∈ e.frames, ∃ c', f.From (e.calls ++ [c]) c' := fun f hf => by
    obtain ⟨c', hc'⟩ := hfrom f hf
    exact ⟨c', hc'.append c⟩
  intro f hf
  rcases process_cases (W := W) e c with h | ⟨_, k, g, hg, h⟩
  · rw [h.frames, zero_add] at hf
    rw [h.calls]
    exact hold f hf
  · rw [h.frames, Multiset.mem_add] at hf
    rw [h.calls]
    rcases hf with hf | hf
    · rw [Multiset.eq_of_mem_replicate hf]
      exact ⟨c, hg.fromCall⟩
    · exact hold f hf

theorem Carries.fromCalls {e e' : FaultEngine ω D} (h : Carries 0 0 e e') (hfrom : e.FromCalls) :
    e'.FromCalls := by
  intro f hf
  rw [h.frames, zero_add] at hf
  rw [h.calls]
  exact hfrom f hf

theorem next_balanced {e e' : FaultEngine ω D} {a : EngineAction D} (h : e.next W a = some e')
    (hb : e.Balanced) : e'.Balanced := by
  by_cases ha : ∃ c, a = .process c
  · obtain ⟨c, rfl⟩ := ha
    cases next_step h
    exact hb.process c
  · exact (next_carries h fun c hc => ha ⟨c, hc⟩).balanced hb Multiset.card_zero

theorem reachable_balanced {rules : List (FaultRule D)} {e : FaultEngine ω D}
    (h : (system W rules).Reachable anyStep e) : e.Balanced := by
  apply h.invariant
  · rintro s ⟨world, rfl⟩
    exact ⟨rfl, rfl⟩
  · intro s a t hs _ hn
    exact next_balanced hn hs

end SensorForge.Faults
