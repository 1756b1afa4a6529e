import SensorForge.Metrics
import SensorForge.QuietRules

/-! The order in which frames are written that all wait equally long. It is lost where two
of them are due at the same time, and where one thread overtakes the other. -/

namespace SensorForge.Faults

open Transition
open Double (ofInt)

variable {ω D : Type} [Double D] {W : World ω D} {rules : List (FaultRule D)} {last : ω → D}
  {ms : D}

/-- The clock does not go back; `last` is what it has shown last. -/
structure World.Steady (W : World ω D) (last : ω → D) : Prop where
  nowNs : ∀ w, last w ≤ (W.nowNs w).1 ∧ last (W.nowNs w).2 = (W.nowNs w).1
  uniformReal : ∀ w, last (W.uniformReal w).2 = last w
  uniformInt : ∀ hi w, last (W.uniformInt hi w).2 = last w
  callbackTime : ∀ w, last (W.callbackTime w).2 = last w

/-- Every call finds the same delay, and no rule that swaps frames. -/
def ConstantDelay (ms : D) (e : FaultEngine ω D) : EngineAction D → Prop
  | .process c => delayOf (e.active c.tS c.stream) = ms ∧
      ∀ r ∈ e.active c.tS c.stream, r.kind ≠ .kReorder
  | _ => True

/-- No waiting frame of an earlier call is due at the same time as the one at `i`. -/
def FaultEngine.Untied (e : FaultEngine ω D) (i : Nat) : Prop :=
  ∀ d ∈ e.delayed[i]?, ∀ d' ∈ e.delayed, d'.frame.call < d.frame.call →
    d'.dueNs < d.dueNs ∨ d.dueNs < d'.dueNs

/-- A thread takes out no frame that is tied with an earlier one. -/
def NoTie (e : FaultEngine ω D) : EngineAction D → Prop
  | .workerPop i => e.Untied i
  | .flushPop i => e.Untied i
  | _ => True

/-- A thread writes no frame while the other thread has an earlier one in hand. -/
def NoOvertaking (e : FaultEngine ω D) : EngineAction D → Prop
  | .workerEmit => ∀ f ∈ e.workerHand, ∀ g ∈ e.flushHand, f.call ≤ g.call
  | .flushEmit => ∀ f ∈ e.flushHand, ∀ g ∈ e.workerHand, f.call ≤ g.call
  | _ => True

section Decide

variable [DecidableEq D] (e : FaultEngine ω D)

instance : ∀ a : EngineAction D, Decidable (ConstantDelay ms e a)
  | .process _ => inferInstanceAs (Decidable (_ ∧ _))
  | .workerPop _ | .workerEmit | .flush | .flushPop _ | .flushEmit | .flushReturn => .isTrue trivial

instance (i : Nat) : Decidable (e.Untied i) := inferInstanceAs (Decidable (∀ d ∈ e.delayed[i]?, _))

instance : ∀ a : EngineAction D, Decidable (NoTie e a)
  | .workerPop i | .flushPop i => inferInstanceAs (Decidable (e.Untied i))
  | .process _ | .workerEmit | .flush | .flushEmit | .flushReturn => .isTrue trivial

instance : ∀ a : EngineAction D, Decidable (NoOvertaking e a)
  | .workerEmit => inferInstanceAs (Decidable (∀ f ∈ e.workerHand, ∀ g ∈ e.flushHand, f.call ≤ g.call))
  | .flushEmit => inferInstanceAs (Decidable (∀ f ∈ e.flushHand, ∀ g ∈ e.workerHand, f.call ≤ g.call))
  | .process _ | .workerPop _ | .flush | .flushPop _ | .flushReturn => .isTrue trivial

end Decide

/-- The calls of the frames that have been handed to the write callback. -/
def FaultEngine.writtenCalls (e : FaultEngine ω D) : List Nat :=
  e.written.map fun w => w.frame.call

def FaultEngine.hands (e : FaultEngine ω D) : List Frame :=
  e.workerHand.toList ++ e.flushHand.toList

/-- Written frames come before those in hand, and these before the ones in the queue, whose
due times grow with their calls. -/
structure InOrder (last : ω → D) (ms : D) (e : FaultEngine ω D) : Prop where
  held : e.held = none
  timed : ∃ ts : List D, e.delayed.map Delayed.dueNs = ts.map (fun t => t + ms * ofInt 1000000) ∧
    ts.Pairwise (· ≤ ·) ∧ ∀ t ∈ ts, t ≤ last e.world
  queue : (e.delayed.map fun d => d.frame.call).Pairwise (· ≤ ·)
  hands : ∀ f ∈ e.hands, ∀ d ∈ e.delayed, f.call ≤ d.frame.call
  written : e.writtenCalls.Pairwise (· ≤ ·)
  ahead : ∀ k ∈ e.writtenCalls,
    (∀ f ∈ e.hands, k ≤ f.call) ∧ ∀ d ∈ e.delayed, k ≤ d.frame.call
  direct : ms ≤ ofInt 0 → e.delayed = [] ∧ e.hands = []

/-- What leaves the frames of the engine alone. -/
structure Aside (last : ω → D) (e e' : FaultEngine ω D) : Prop where
  held : e'.held = e.held
  delayed : e'.delayed = e.delayed
  workerHand : e'.workerHand = e.workerHand
  flushHand : e'.flushHand = e.flushHand
  written : e'.written = e.written
  clock : last e.world ≤ last e'.world

section Stages

variable [IsPreorder D (· ≤ ·)]

theorem Aside.of_world {e e' : FaultEngine ω D} (hheld : e'.held = e.held)
    (hdelayed : e'.delayed = e.delayed) (hworker : e'.workerHand = e.workerHand)
    (hflush : e'.flushHand = e.flushHand) (hwritten : e'.written = e.written)
    (hclock : last e'.world = last e.world) : Aside last e e' :=
  ⟨hheld, hdelayed, hworker, hflush, hwritten, hclock ▸ refl_of (· ≤ ·) _⟩

theorem Aside.trans {e e' e'' : FaultEngine ω D} (h : Aside last e e') (h' : Aside last e' e'') :
    Aside last e e'' where
  held := h'.held.trans h.held
  delayed := h'.delayed.trans h.delayed
  workerHand := h'.workerHand.trans h.workerHand
  flushHand := h'.flushHand.trans h.flushHand
  written := h'.written.trans h.written
  clock := trans_of (· ≤ ·) h.clock h'.clock

theorem World.Steady.used (hclock : W.Steady last) {w w' : ω}
    (h : Relation.ReflTransGen W.Used w w') : last w ≤ last w' := by
  induction h with
  | refl => exact refl_of (· ≤ ·) _
  | tail _ hused ih =>
    cases hused with
    | uniformReal => rwa [hclock.uniformReal]
    | uniformInt hi => rwa [hclock.uniformInt]
    | nowNs =>
      obtain ⟨hle, hlast⟩ := hclock.nowNs _
      rw [hlast]
      exact trans_of (· ≤ ·) ih hle

theorem Adjusts.aside (hclock : W.Steady last) {e e' : FaultEngine ω D} (h : Adjusts W e e') :
    Aside last e e' := by
  obtain ⟨_, _, _, _, rfl, hused⟩ := h
  exact ⟨rfl, rfl, rfl, rfl, rfl, hclock.used hused⟩

omit [IsPreorder D (· ≤ ·)] in
theorem Aside.frames {e e' : FaultEngine ω D} (h : Aside last e e') : e'.frames = e.frames := by
  simp only [FaultEngine.frames, FaultEngine.waiting, h.held, h.delayed, h.workerHand,
    h.flushHand, h.written]

theorem InOrder.aside {e e' : FaultEngine ω D} (h : InOrder last ms e) (ha : Aside last e e') :
    InOrder last ms e' := by
  have hhands : e'.hands = e.hands := by
    rw [FaultEngine.hands, ha.workerHand, ha.flushHand, FaultEngine.hands]
  have hwritten : e'.writtenCalls = e.writtenCalls := by
    rw [FaultEngine.writtenCalls, ha.written, FaultEngine.writtenCalls]
  constructor
  · exact ha.held.trans h.held
  · obtain ⟨ts, hdue, hsorted, hle⟩ := h.timed
    rw [ha.delayed]
    exact ⟨ts, hdue, hsorted, fun t ht => trans_of (· ≤ ·) (hle t ht) ha.clock⟩
  · rw [ha.delayed]
    exact h.queue
  · rw [ha.delayed, hhands]
    exact h.hands
  · rw [hwritten]
    exact h.written
  · rw [hwritten, hhands, ha.delayed]
    exact h.ahead
  · rw [hhands, ha.delayed]
    exact h.direct

end Stages

section Forward

variable {active : List (FaultRule D)} {f : Frame} {e : FaultEngine ω D}

theorem mem_frames_written {k : Nat} (hk : k ∈ e.writtenCalls) : ∃ g ∈ e.frames, g.call = k := by
  obtain ⟨w, hw, rfl⟩ := List.mem_map.mp hk
  exact ⟨w.frame, Multiset.mem_add.mpr (.inr (List.mem_map_of_mem hw)), rfl⟩

theorem mem_frames_hands {g : Frame} (hg : g ∈ e.hands) : g ∈ e.frames := by
  simp only [FaultEngine.hands, List.mem_append] at hg
  simp only [FaultEngine.frames, FaultEngine.waiting, Multiset.mem_add, Multiset.mem_coe]
  tauto

theorem mem_frames_delayed {d : Delayed D} (hd : d ∈ e.delayed) : d.frame ∈ e.frames := by
  have hmem : d.frame ∈ e.delayed.map Delayed.frame := List.mem_map_of_mem hd
  simp only [FaultEngine.frames, FaultEngine.waiting, Multiset.mem_add, Multiset.mem_coe]
  tauto

theorem emit_writtenCalls (e : FaultEngine ω D) (f : Frame) :
    (e.emit W f).writtenCalls = e.writtenCalls ++ [f.call] := by
  simp [FaultEngine.writtenCalls, FaultEngine.emit]

/-- A frame is written that is later than the written ones and no later than the others. -/
theorem InOrder.emit (hclock : W.Steady last) (h : InOrder last ms e)
    (hwritten : ∀ k ∈ e.writtenCalls, k ≤ f.call) (hhands : ∀ g ∈ e.hands, f.call ≤ g.call)
    (hdelayed : ∀ d ∈ e.delayed, f.call ≤ d.frame.call) : InOrder last ms (e.emit W f) := by
  constructor
  · exact h.held
  · obtain ⟨ts, hdue, hsorted, hle⟩ := h.timed
    exact ⟨ts, hdue, hsorted, fun t ht => (hclock.callbackTime _).symm ▸ hle t ht⟩
  · exact h.queue
  · exact h.hands
  · rw [emit_writtenCalls, List.pairwise_append]
    exact ⟨h.written, List.pairwise_singleton _ _, by simpa using hwritten⟩
  · intro k hk
    rw [emit_writtenCalls, List.mem_append, List.mem_singleton] at hk
    rcases hk with hk | rfl
    · exact h.ahead k hk
    · exact ⟨hhands, hdelayed⟩
  · exact h.direct

variable [IsPreorder D (· ≤ ·)]

/-- A frame joins the queue that is later than all the others. -/
theorem InOrder.push (hclock : W.Steady last) (h : InOrder last ms e) (hms : ¬ms ≤ ofInt 0)
    (hlater : ∀ g ∈ e.frames, g.call ≤ f.call) (stats : FaultStats) :
    InOrder last ms { e with
      world := (W.nowNs e.world).2
      delayed := e.delayed ++
        [{ dueNs := (W.nowNs e.world).1 + ms * ofInt 1000000, frame := f }]
      stats } := by
  obtain ⟨hreading, hlast⟩ := hclock.nowNs e.world
  constructor
  · exact h.held
  · obtain ⟨ts, hdue, hsorted, hle⟩ := h.timed
    have hle' : ∀ t ∈ ts, t ≤ (W.nowNs e.world).1 :=
      fun t ht => trans_of (· ≤ ·) (hle t ht) hreading
    refine ⟨ts ++ [(W.nowNs e.world).1], by simp [hdue], ?_, ?_⟩
    · rw [List.pairwise_append]
      exact ⟨hsorted, List.pairwise_singleton _ _, by simpa using hle'⟩
    · intro t ht
      dsimp only
      rw [hlast]
      rcases List.mem_append.mp ht with ht | ht
      · exact hle' t ht
      · rw [List.mem_singleton.mp ht]
        exact refl_of (· ≤ ·) _
  · rw [List.map_append, List.pairwise_append]
    refine ⟨h.queue, List.pairwise_singleton _ _, ?_⟩
    intro k hk k' hk'
    obtain ⟨d, hd, rfl⟩ := List.mem_map.mp hk
    rw [List.mem_singleton.mp hk']
    exact hlater _ (mem_frames_delayed hd)
  · intro g hg d hd
    rcases List.mem_append.mp hd with hd | hd
    · exact h.hands g hg d hd
    · have hg' : g ∈ e.hands := hg
      rw [List.mem_singleton.mp hd]
      exact hlater g (mem_frames_hands hg')
  · exact h.written
  · intro k hk
    refine ⟨(h.ahead k hk).1, fun d hd => ?_⟩
    rcases List.mem_append.mp hd with hd | hd
    · exact (h.ahead k hk).2 d hd
    · have hk' : k ∈ e.writtenCalls := hk
      obtain ⟨g, hg, rfl⟩ := mem_frames_written hk'
      rw [List.mem_singleton.mp hd]
      exact hlater g hg
  · exact fun hzero => absurd hzero hms

theorem InOrder.dispatch (hclock : W.Steady last) (h : InOrder last ms e)
    (hms : delayOf active = ms) (hlater : ∀ g ∈ e.frames, g.call ≤ f.call) :
    InOrder last ms (e.dispatchOrDelay W active f) := by
  rw [FaultEngine.dispatchOrDelay, hms]
  by_cases hzero : ms ≤ ofInt 0
  · obtain ⟨hdelayed, hhands⟩ := h.direct hzero
    rw [if_pos hzero]
    apply h.emit hclock
    · intro k hk
      obtain ⟨g, hg, rfl⟩ := mem_frames_written hk
      exact hlater g hg
    · simp [hhands]
    · simp [hdelayed]
  · rw [if_neg hzero]
    exact h.push hclock hzero hlater _

theorem InOrder.duplicates (hclock : W.Steady last) (hms : delayOf active = ms)
    {rs : List (FaultRule D)} (h : InOrder last ms e) (hlater : ∀ g ∈ e.frames, g.call ≤ f.call) :
    InOrder last ms (rs.foldl (FaultEngine.duplicate W active f) e) := by
  induction rs generalizing e with
  | nil => exact h
  | cons r rs ih =>
    rw [List.foldl_cons]
    obtain ⟨k, hcarries⟩ := duplicate_carries (W := W) active f e r
    apply ih
    · unfold FaultEngine.duplicate
      split
      · have hdispatch := h.dispatch hclock hms hlater
        exact hdispatch.aside (Aside.of_world rfl rfl rfl rfl rfl rfl)
      · exact h
    · intro g hg
      rw [hcarries.frames, Multiset.mem_add] at hg
      rcases hg with hg | hg
      · rw [Multiset.eq_of_mem_replicate hg]
      · exact hlater g hg

theorem InOrder.forward (hclock : W.Steady last) (hms : delayOf active = ms)
    (hswap : ∀ r ∈ active, r.kind ≠ .kReorder) (h : InOrder last ms e)
    (hlater : ∀ g ∈ e.frames, g.call ≤ f.call) : InOrder last ms (e.forward W active f) := by
  have hreorder : (active.any fun r => r.kind = .kReorder) = false := by
    rw [List.any_eq_false]
    exact fun r hr => by simpa using hswap r hr
  rw [FaultEngine.forward, hreorder]
  apply (h.dispatch hclock hms hlater).duplicates hclock hms
  intro g hg
  rw [(dispatchOrDelay_carries e active f).frames, Multiset.mem_add] at hg
  rcases hg with hg | hg
  · rw [Multiset.mem_singleton.mp hg]
  · exact hlater g hg

theorem InOrder.process (hclock : W.Steady last) (h : InOrder last ms e) (hfrom : e.FromCalls)
    {c : ProcessCall D} (hconst : ConstantDelay ms e (.process c)) :
    InOrder last ms (e.process W c) := by
  obtain ⟨hms, hswap⟩ := hconst
  have hlater : ∀ g ∈ e.frames, g.call ≤ e.calls.length := by
    intro g hg
    obtain ⟨c', hc'⟩ := hfrom g hg
    exact (List.getElem?_eq_some_iff.mp hc'.call).1.le
  obtain ⟨window, restarts, htrack⟩ := trackRestarts_eq { e with calls := e.calls ++ [c] }
    (e.active c.tS c.stream) c.stream
  rw [FaultEngine.process]
  dsimp only
  have hentered : Aside last e (({ e with calls := e.calls ++ [c] } : FaultEngine ω D).trackRestarts
      (e.active c.tS c.stream) c.stream) := by
    rw [htrack]
    apply Aside.of_world <;> rfl
  generalize ({ e with calls := e.calls ++ [c] } : FaultEngine ω D).trackRestarts _ _ = entered
    at hentered ⊢
  split
  · exact h.aside { hentered with }
  · have hdrop := hentered.trans
      ((dropLoop_adjusts entered (e.active c.tS c.stream)).aside hclock)
    generalize entered.dropLoop W (e.active c.tS c.stream) = dropped at hdrop ⊢
    obtain ⟨e₁, _ | _⟩ := dropped
    · have hband := hdrop.trans ((bandwidthLoop_adjusts (ofInt c.data.length) e₁
        (e.active c.tS c.stream)).aside hclock)
      dsimp only
      generalize e₁.bandwidthLoop W (ofInt c.data.length) (e.active c.tS c.stream) = limited
        at hband ⊢
      obtain ⟨e₂, _ | _⟩ := limited
      · dsimp only
        have hcorrupt := hband.trans ((corruptLoop_adjusts e₂
          { data := c.data, call := e.calls.length } (e.active c.tS c.stream)).aside hclock)
        have hcall := (corruptLoop_carries (W := W) e₂
          { data := c.data, call := e.calls.length } (e.active c.tS c.stream)).2.call
        apply (h.aside hcorrupt).forward hclock hms hswap
        rw [hcorrupt.frames, hcall]
        exact hlater
      · exact h.aside hband
    · exact h.aside hdrop

end Forward

section Threads

variable {e u : FaultEngine ω D} {i : Nat} {d : Delayed D}

/-- The top of the heap is of the earliest call, unless it is tied with an earlier one. -/
theorem InOrder.first (hmono : ∀ x y : D, x ≤ y → ¬y + ms * ofInt 1000000 < x + ms * ofInt 1000000)
    (h : InOrder last ms e) (htop : e.top i = some d) (huntied : e.Untied i) :
    ∀ d' ∈ e.delayed, d.frame.call ≤ d'.frame.call := by
  intro d' hd'
  by_contra hlt
  obtain ⟨hget, hmin⟩ := Option.filter_eq_some_iff.mp htop
  have hnotBefore : ¬d'.dueNs < d.dueNs := by simpa using List.all_eq_true.mp hmin d' hd'
  have hafter : d.dueNs < d'.dueNs :=
    (huntied d hget d' hd' (not_le.mp hlt)).resolve_left hnotBefore
  obtain ⟨j, hj, rfl⟩ := List.getElem_of_mem hd'
  obtain ⟨hi, rfl⟩ := List.getElem?_eq_some_iff.mp hget
  have hcalls := List.pairwise_iff_getElem.mp (List.pairwise_map.mp h.queue)
  have hji : j < i := by
    by_contra hij
    rcases Nat.lt_or_eq_of_le (not_lt.mp hij) with hij | rfl
    · exact hlt (hcalls i j hi hj hij)
    · exact hlt (le_refl _)
  obtain ⟨ts, hdue, hsorted, _⟩ := h.timed
  have hlength : ts.length = e.delayed.length := by
    rw [← List.length_map (f := fun t => t + ms * ofInt 1000000), ← hdue, List.length_map]
  have hdueAt : ∀ k (hk : k < e.delayed.length),
      e.delayed[k].dueNs = ts[k] + ms * ofInt 1000000 := by
    intro k hk
    have hget := congrArg (fun l : List D => l[k]?) hdue
    simpa [List.getElem?_eq_getElem, hk, hlength] using hget
  have hle := List.pairwise_iff_getElem.mp hsorted j i (hlength ▸ hj) (hlength ▸ hi) hji
  rw [hdueAt i hi, hdueAt j hj] at hafter
  exact hmono _ _ hle hafter

/-- The earliest of the waiting frames goes into a hand. -/
theorem InOrder.take (h : InOrder last ms e) (hd : d ∈ e.delayed)
    (hfirst : ∀ d' ∈ e.delayed, d.frame.call ≤ d'.frame.call) (hheld : u.held = e.held)
    (hdelayed : u.delayed = e.delayed.eraseIdx i)
    (hhands : ∀ g ∈ u.hands, g = d.frame ∨ g ∈ e.hands) (hwritten : u.written = e.written)
    (hworld : ∀ t, t ≤ last e.world → t ≤ last u.world) : InOrder last ms u := by
  have hsub : u.delayed.Sublist e.delayed := hdelayed ▸ List.eraseIdx_sublist _ _
  have hcalls : u.writtenCalls = e.writtenCalls := by
    rw [FaultEngine.writtenCalls, hwritten, FaultEngine.writtenCalls]
  constructor
  · exact hheld.trans h.held
  · obtain ⟨ts, hdue, hsorted, hle⟩ := h.timed
    refine ⟨ts.eraseIdx i, ?_, hsorted.sublist (List.eraseIdx_sublist _ _), ?_⟩
    · rw [hdelayed, ← List.eraseIdx_map, hdue, List.eraseIdx_map]
    · exact fun t ht => hworld t (hle t ((List.eraseIdx_sublist _ _).subset ht))
  · exact h.queue.sublist (hsub.map _)
  · intro g hg d' hd'
    rcases hhands g hg with rfl | hg
    · exact hfirst d' (hsub.subset hd')
    · exact h.hands g hg d' (hsub.subset hd')
  · rw [hcalls]
    exact h.written
  · rw [hcalls]
    intro k hk
    obtain ⟨hahead, hbehind⟩ := h.ahead k hk
    refine ⟨fun g hg => ?_, fun d' hd' => hbehind d' (hsub.subset hd')⟩
    rcases hhands g hg with rfl | hg
    · exact hbehind d hd
    · exact hahead g hg
  · intro hzero
    rw [(h.direct hzero).1] at hd
    cases hd

/-- A frame leaves a hand, the other hand having none that is earlier. -/
theorem InOrder.release (hclock : W.Steady last) (h : InOrder last ms e) {f : Frame}
    (hf : f ∈ e.hands) (hturn : ∀ g ∈ u.hands, f.call ≤ g.call) (hsub : ∀ g ∈ u.hands, g ∈ e.hands)
    (hheld : u.held = e.held) (hdelayed : u.delayed = e.delayed) (hwritten : u.written = e.written)
    (hworld : u.world = e.world) : InOrder last ms (u.emit W f) := by
  have hcalls : u.writtenCalls = e.writtenCalls := by
    rw [FaultEngine.writtenCalls, hwritten, FaultEngine.writtenCalls]
  have hu : InOrder last ms u := by
    constructor
    · exact hheld.trans h.held
    · rw [hdelayed, hworld]
      exact h.timed
    · rw [hdelayed]
      exact h.queue
    · rw [hdelayed]
      exact fun g hg => h.hands g (hsub g hg)
    · rw [hcalls]
      exact h.written
    · rw [hcalls, hdelayed]
      exact fun k hk => ⟨fun g hg => (h.ahead k hk).1 g (hsub g hg), (h.ahead k hk).2⟩
    · intro hzero
      rw [(h.direct hzero).2] at hf
      cases hf
  apply hu.emit hclock
  · rw [hcalls]
    exact fun k hk => (h.ahead k hk).1 f hf
  · exact hturn
  · rw [hdelayed]
    exact h.hands f hf

theorem next_fromCalls {a : EngineAction D} (hn : e.next W a = some u) (hfrom : e.FromCalls) :
    u.FromCalls := by
  by_cases ha : ∃ c, a = .process c
  · obtain ⟨c, rfl⟩ := ha
    cases next_step hn
    exact hfrom.process c
  · exact (next_carries hn fun c hc => ha ⟨c, hc⟩).fromCalls hfrom

variable [IsPreorder D (· ≤ ·)]

theorem InOrder.next (hclock : W.Steady last)
    (hmono : ∀ x y : D, x ≤ y → ¬y + ms * ofInt 1000000 < x + ms * ofInt 1000000)
    (h : InOrder last ms e) (hfrom : e.FromCalls) {a : EngineAction D} (hconst : ConstantDelay ms e a)
    (htie : NoTie e a) (hturn : NoOvertaking e a) (hn : e.next W a = some u) : InOrder last ms u := by
  have hreading : ∀ t, t ≤ last e.world → t ≤ last (W.nowNs e.world).2 := by
    intro t ht
    obtain ⟨hle, hlast⟩ := hclock.nowNs e.world
    exact hlast ▸ trans_of (· ≤ ·) ht hle
  cases next_step hn with
  | process c hidle => exact h.process hclock hfrom hconst
  | workerWait i d hfree htop hearly =>
    exact h.aside ⟨rfl, rfl, rfl, rfl, rfl, hreading _ (refl_of (· ≤ ·) _)⟩
  | workerPop i d hfree htop hdue =>
    have hget := (Option.filter_eq_some_iff.mp htop).1
    refine h.take (List.mem_of_getElem? hget) (h.first hmono htop htie) rfl rfl ?_ rfl hreading
    simp [FaultEngine.hands, hfree]
  | workerEmit f hhand =>
    refine h.release hclock (u := { e with workerHand := none }) ?_ ?_ ?_ rfl rfl rfl rfl
    · simp [FaultEngine.hands, hhand]
    · simpa [FaultEngine.hands] using hturn f hhand
    · simp +contextual [FaultEngine.hands]
  | flush hidle => exact h.aside (Aside.of_world rfl rfl rfl rfl rfl rfl)
  | flushPop i d hf hfree htop =>
    have hget := (Option.filter_eq_some_iff.mp htop).1
    refine h.take (List.mem_of_getElem? hget) (h.first hmono htop htie) rfl rfl ?_ rfl
      fun t ht => ht
    simp +contextual [FaultEngine.hands, hfree, or_comm]
  | flushEmit f hhand =>
    refine h.release hclock (u := { e with flushHand := none }) ?_ ?_ ?_ rfl rfl rfl rfl
    · simp [FaultEngine.hands, hhand]
    · simpa [FaultEngine.hands] using hturn f hhand
    · simp +contextual [FaultEngine.hands]
  | flushReturn hf hfree hempty => exact h.aside (Aside.of_world rfl rfl rfl rfl rfl rfl)

/-- While every frame waits for the same time, those that reach the write callback do so in
the order of their calls, as long as no tie and no overtaking is met. -/
theorem delay_keeps_order (hclock : W.Steady last)
    (hmono : ∀ x y : D, x ≤ y → ¬y + ms * ofInt 1000000 < x + ms * ofInt 1000000)
    (h : (system W rules).Reachable
      (fun e a => ConstantDelay ms e a ∧ NoTie e a ∧ NoOvertaking e a) e) :
    e.writtenCalls.Pairwise (· ≤ ·) := by
  suffices hboth : e.FromCalls ∧ InOrder last ms e from hboth.2.written
  apply h.invariant
  · rintro e ⟨world, rfl⟩
    refine ⟨by simp [FaultEngine.FromCalls, FaultEngine.frames, FaultEngine.waiting], ?_⟩
    exact ⟨rfl, ⟨[], rfl, .nil, by simp⟩, .nil, by simp, .nil, by simp [FaultEngine.writtenCalls],
      fun _ => ⟨rfl, rfl⟩⟩
  · intro s a t hs hguard hn
    exact ⟨next_fromCalls hn hs.1, hs.2.next hclock hmono hs.1 hguard.1 hguard.2.1 hguard.2.2 hn⟩

end Threads

/-- Every reading of the clock is 10 ms after the one before. -/
def tickWorld : World Nat ℚ where
  uniformReal w := (0, w)
  uniformInt _ w := (⟨0, Nat.succ_pos _⟩, w)
  nowNs w := (w * 10 ^ 7, w + 1)
  callbackTime w := (0, w)

theorem tickWorld_steady : tickWorld.Steady fun w => (w - 1) * 10 ^ 7 where
  nowNs w := by
    constructor <;> simp [tickWorld]
  uniformReal _ := rfl
  uniformInt _ _ := rfl
  callbackTime _ := rfl

/-- The clock shows the same time at every reading. -/
def stillWorld : World Unit ℚ where
  uniformReal w := (0, w)
  uniformInt _ w := (⟨0, Nat.succ_pos _⟩, w)
  nowNs w := (0, w)
  callbackTime w := (0, w)

theorem stillWorld_steady : stillWorld.Steady fun _ => 0 where
  nowNs _ := ⟨le_refl _, rfl⟩
  uniformReal _ := rfl
  uniformInt _ _ := rfl
  callbackTime _ := rfl

theorem rat_delay_mono (ms x y : ℚ) (h : x ≤ y) :
    ¬y + ms * ofInt 1000000 < x + ms * ofInt 1000000 := by
  rw [not_lt]
  exact add_le_add_left h _

def laterRule : FaultRule ℚ := { kind := .kDelay, durationS := 10, delayMs := 5 }

def laterCall : ProcessCall ℚ := { data := [7], tS := 1, stream := "imu" }

/-- The worker takes the first frame out and emits it before it takes out the second. -/
theorem delay_keeps_order_two : ∃ e, (system tickWorld [laterRule]).Reachable
    (fun e a => ConstantDelay 5 e a ∧ NoTie e a ∧ NoOvertaking e a) e ∧ e.written.length = 2 ∧
      e.writtenCalls.Pairwise (· ≤ ·) := by
  have hrun : ((system tickWorld [laterRule]).run
      (fun e a => ConstantDelay 5 e a ∧ NoTie e a ∧ NoOvertaking e a)
      { rules := [laterRule], world := 0 } [.process laterCall, .process laterCall, .workerPop 0,
        .workerEmit, .workerPop 0, .workerEmit]).map (fun e => e.written.length) = some 2 := by
    decide +kernel
  obtain ⟨e, hrun, hlength⟩ := Option.map_eq_some_iff.mp hrun
  have hreach : (system tickWorld [laterRule]).Reachable
      (fun e a => ConstantDelay 5 e a ∧ NoTie e a ∧ NoOvertaking e a) e :=
    System.Reachable.run (.start ⟨0, rfl⟩) hrun
  exact ⟨e, hreach, hlength,
    delay_keeps_order tickWorld_steady (rat_delay_mono 5) hreach⟩

/-- Of four frames that are due at once a heap may take out the third after the first. -/
theorem delay_ties : ∃ e, (system stillWorld [laterRule]).Reachable
    (fun e a => ConstantDelay 5 e a ∧ NoOvertaking e a) e ∧ e.writtenCalls = [0, 2, 1, 3] := by
  have hrun : ((system stillWorld [laterRule]).run
      (fun e a => ConstantDelay 5 e a ∧ NoOvertaking e a) { rules := [laterRule], world := () }
      ([.process laterCall, .process laterCall, .process laterCall, .process laterCall, .flush] ++
        [.flushPop 0, .flushEmit, .flushPop 1, .flushEmit, .flushPop 0, .flushEmit, .flushPop 0,
          .flushEmit])).map FaultEngine.writtenCalls = some [0, 2, 1, 3] := by
    decide +kernel
  obtain ⟨e, hrun, hcalls⟩ := Option.map_eq_some_iff.mp hrun
  exact ⟨e, System.Reachable.run (.start ⟨(), rfl⟩) hrun, hcalls⟩

/-- `flush` emits the second frame while the worker has the first in hand. -/
theorem delay_overtaking : ∃ e, (system tickWorld [laterRule]).Reachable
    (fun e a => ConstantDelay 5 e a ∧ NoTie e a) e ∧ e.writtenCalls = [1, 0] := by
  have hrun : ((system tickWorld [laterRule]).run (fun e a => ConstantDelay 5 e a ∧ NoTie e a)
      { rules := [laterRule], world := 0 }
      [.process laterCall, .process laterCall, .workerPop 0, .flush, .flushPop 0, .flushEmit,
        .workerEmit]).map FaultEngine.writtenCalls = some [1, 0] := by
    decide +kernel
  obtain ⟨e, hrun, hcalls⟩ := Option.map_eq_some_iff.mp hrun
  exact ⟨e, System.Reachable.run (.start ⟨0, rfl⟩) hrun, hcalls⟩

/-- The order of the calls is kept in every run that meets `guard`. -/
def KeepsOrder (guard : ∀ {ω : Type}, FaultEngine ω ℚ → EngineAction ℚ → Prop) : Prop :=
  ∀ (ω : Type) (W : World ω ℚ) (last : ω → ℚ), W.Steady last →
    ∀ (rules : List (FaultRule ℚ)) (e : FaultEngine ω ℚ),
      (system W rules).Reachable guard e → e.writtenCalls.Pairwise (· ≤ ·)

/-- A constant delay does not keep the order, neither where no thread overtakes the other nor
where no two frames are tied. -/
theorem delay_disorders : ¬KeepsOrder (ConstantDelay 5) ∧
    ¬KeepsOrder (fun e a => ConstantDelay 5 e a ∧ NoOvertaking e a) ∧
      ¬KeepsOrder (fun e a => ConstantDelay 5 e a ∧ NoTie e a) := by
  obtain ⟨e, htied, hcalls⟩ := delay_ties
  obtain ⟨e', hovertaken, hcalls'⟩ := delay_overtaking
  refine ⟨fun h => ?_, fun h => ?_, fun h => ?_⟩
  · have horder := h Unit stillWorld _ stillWorld_steady [laterRule] e (htied.mono fun _ _ hg => hg.1)
    rw [hcalls] at horder
    exact absurd horder (by decide)
  · have horder := h Unit stillWorld _ stillWorld_steady [laterRule] e htied
    rw [hcalls] at horder
    exact absurd horder (by decide)
  · have horder := h Nat tickWorld _ tickWorld_steady [laterRule] e' hovertaken
    rw [hcalls'] at horder
    exact absurd horder (by decide)

end SensorForge.Faults
