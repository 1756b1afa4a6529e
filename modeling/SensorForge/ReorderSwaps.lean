import SensorForge.AdjacentSwaps
import SensorForge.QuietRules

/-! Reorder rules swap neighbours of a stream, unless a frame that no rule is active for
passes the one that the slot of the engine still holds. -/

namespace SensorForge.Faults

open AdjacentSwaps
open Double (ofInt)

variable {ω D : Type} [Double D] {W : World ω D} {rules : List (FaultRule D)}

/-- The payloads as they come in. -/
def inputs (calls : List (ProcessCall D)) : List Frame :=
  calls.mapIdx fun i c => { data := c.data, call := i }

def onStream (calls : List (ProcessCall D)) (s : String) (fs : List Frame) : List Frame :=
  fs.filter fun f => (calls[f.call]?).any fun c => c.stream = s

def FaultEngine.inputsOn (e : FaultEngine ω D) (s : String) : List Frame :=
  onStream e.calls s (inputs e.calls)

def FaultEngine.writtenOn (e : FaultEngine ω D) (s : String) : List Frame :=
  onStream e.calls s (e.written.map Written.frame)

/-- What has been written for each stream are its frames with disjoint pairs of neighbours
swapped, and a frame still held back is the last one of its stream. -/
structure FaultEngine.SwapsNeighbours (e : FaultEngine ω D) : Prop where
  pairs : ∀ s, ∃ done, e.inputsOn s = done ++ onStream e.calls s e.held.toList ∧
    Swapped done (e.writtenOn s)
  near : ∀ s f i j, (e.inputsOn s)[i]? = some f → (e.writtenOn s)[j]? = some f →
    i ≤ j + 1 ∧ j ≤ i + 1
  held : ∀ f c, e.held = some f → e.calls[f.call]? = some c →
    ∀ k c', f.call < k → e.calls[k]? = some c' → c'.stream ≠ c.stream

/-- The slot holds a frame of the stream of `c` when `c` comes: an odd number of calls
found a reorder rule active, and the last of them was on that stream. -/
def SwapPending (rules : List (FaultRule D)) (calls : List (ProcessCall D))
    (c : ProcessCall D) : Prop :=
  Odd (calls.filter (reorderActive rules)).length ∧
    ∃ c' ∈ (calls.filter (reorderActive rules)).getLast?, c'.stream = c.stream

/-- What a call does to the slot and to the history, if all rules are reorder rules. -/
inductive Reorders (rules : List (FaultRule D)) (c : ProcessCall D) (f : Frame)
    (held : Option Frame) (written : List Frame) : Option Frame → List Frame → Prop
  | hold : reorderActive rules c = true → held = none →
      Reorders rules c f held written (some f) written
  | swap (prev : Frame) : reorderActive rules c = true → held = some prev →
      Reorders rules c f held written none (written ++ [f, prev])
  | pass : reorderActive rules c = false → Reorders rules c f held written held (written ++ [f])

omit [Double D] in
theorem inputs_append (calls : List (ProcessCall D)) (c : ProcessCall D) :
    inputs (calls ++ [c]) = inputs calls ++ [{ data := c.data, call := calls.length }] := by
  simp [inputs, List.mapIdx_append]

omit [Double D] in
theorem mem_inputs {calls : List (ProcessCall D)} {f : Frame} :
    f ∈ inputs calls ↔ ∃ c, calls[f.call]? = some c ∧ f = { data := c.data, call := f.call } := by
  constructor
  · intro hf
    obtain ⟨i, hi, rfl⟩ := List.mem_mapIdx.mp hf
    exact ⟨calls[i], List.getElem?_eq_getElem hi, rfl⟩
  · rintro ⟨c, hc, hf⟩
    obtain ⟨hi, rfl⟩ := List.getElem?_eq_some_iff.mp hc
    exact List.mem_mapIdx.mpr ⟨f.call, hi, hf.symm⟩

omit [Double D] in
theorem inputs_sorted (calls : List (ProcessCall D)) :
    (inputs calls).Pairwise fun f g => f.call < g.call := by
  induction calls using List.reverseRecOn with
  | nil => exact .nil
  | append_singleton calls c ih =>
    rw [inputs_append, List.pairwise_append]
    refine ⟨ih, List.pairwise_singleton _ _, fun f hf g hg => ?_⟩
    obtain ⟨c', hc', _⟩ := mem_inputs.mp hf
    rw [List.mem_singleton.mp hg]
    exact (List.getElem?_eq_some_iff.mp hc').1

omit [Double D] in
theorem onStream_append (calls : List (ProcessCall D)) (s : String) (fs gs : List Frame) :
    onStream calls s (fs ++ gs) = onStream calls s fs ++ onStream calls s gs :=
  List.filter_append _ _

omit [Double D] in
/-- A new call does not change the streams of the frames that there are. -/
theorem onStream_calls {calls : List (ProcessCall D)} {fs : List Frame}
    (hfs : ∀ f ∈ fs, f.call < calls.length) (c : ProcessCall D) (s : String) :
    onStream (calls ++ [c]) s fs = onStream calls s fs := by
  apply List.filter_congr
  intro f hf
  rw [List.getElem?_append_left (hfs f hf)]

omit [Double D] in
theorem onStream_new (calls : List (ProcessCall D)) (c : ProcessCall D) (s : String) :
    onStream (calls ++ [c]) s [{ data := c.data, call := calls.length }] =
      if c.stream = s then [{ data := c.data, call := calls.length }] else [] := by
  simp [onStream, List.filter_cons]

theorem process_forward {e : FaultEngine ω D} (h : ∀ r ∈ e.rules, r.kind = .kReorder)
    (c : ProcessCall D) : ∃ window restarts, e.process W c =
      ({ e with
          calls := e.calls ++ [c]
          restartedThisWindow := window
          restarts := restarts } : FaultEngine ω D).forward W
        (e.active c.tS c.stream) { data := c.data, call := e.calls.length } := by
  have hactive : ∀ r ∈ e.active c.tS c.stream, r.kind = .kReorder :=
    fun r hr => h r (mem_active hr)
  obtain ⟨window, restarts, htrack⟩ := trackRestarts_eq { e with calls := e.calls ++ [c] }
    (e.active c.tS c.stream) c.stream
  refine ⟨window, restarts, ?_⟩
  have hsup : suppressed (e.active c.tS c.stream) = false :=
    suppressed_quiet fun r hr => by simp [hactive r hr]
  rw [FaultEngine.process]
  dsimp only
  rw [htrack, hsup, dropLoop_quiet _ fun r hr => by simp [hactive r hr]]
  dsimp only
  rw [bandwidthLoop_quiet _ _ fun r hr => by simp [hactive r hr]]
  dsimp only
  rw [corruptLoop_quiet _ _ fun r hr => by simp [hactive r hr]]
  rfl

theorem process_reorders (hzero : (ofInt 0 : D) ≤ ofInt 0) {e : FaultEngine ω D}
    (h : ∀ r ∈ e.rules, r.kind = .kReorder) (c : ProcessCall D) :
    Reorders e.rules c { data := c.data, call := e.calls.length } e.held
      (e.written.map Written.frame) (e.process W c).held
      ((e.process W c).written.map Written.frame) := by
  have hactive : ∀ r ∈ e.active c.tS c.stream, r.kind = .kReorder :=
    fun r hr => h r (mem_active hr)
  have hdelay : ∀ r ∈ e.active c.tS c.stream, r.kind ≠ .kDelay :=
    fun r hr => by simp [hactive r hr]
  obtain ⟨window, restarts, heq⟩ := process_forward (W := W) h c
  have hany := active_any_reorder e c
  rw [heq, FaultEngine.forward]
  by_cases hre : reorderActive e.rules c = true
  · rw [hany, if_pos hre]
    cases hheld : e.held with
    | none => exact .hold hre rfl
    | some prev =>
      dsimp only
      rw [dispatch_quiet hzero _ hdelay, dispatch_quiet hzero _ hdelay]
      have hpass : Reorders e.rules c { data := c.data, call := e.calls.length } (some prev)
          (e.written.map Written.frame) none (e.written.map Written.frame ++
            [{ data := c.data, call := e.calls.length }, prev]) := .swap prev hre rfl
      simpa [FaultEngine.emit] using hpass
  · rw [hany, if_neg hre, dispatch_quiet hzero _ hdelay,
      duplicates_quiet _ _ _ fun r hr => by simp [hactive r hr], emit_written]
    exact .pass (Bool.eq_false_iff.mpr hre)

theorem swapped_filter (p : Frame → Bool) (f g : Frame) :
    Swapped ([f].filter p ++ [g].filter p) ([g, f].filter p) := by
  by_cases hf : p f = true <;> by_cases hg : p g = true
  · simpa [hf, hg] using Swapped.swap f g .nil
  · simpa [hf, hg] using Swapped.refl [f]
  · simpa [hf, hg] using Swapped.refl [g]
  · simpa [hf, hg] using Swapped.nil

/-- A call keeps the pairs of a stream, unless its frame passes the one held back. -/
theorem Reorders.pairs {calls : List (ProcessCall D)} {c : ProcessCall D} {f : Frame}
    {held held' : Option Frame} {w w' ins : List Frame} {s : String}
    (h : Reorders rules c f held w held' w')
    (hpass : reorderActive rules c = false →
      onStream calls s [f] = [] ∨ onStream calls s held.toList = [])
    (hpairs : ∃ done, ins = done ++ onStream calls s held.toList ∧
      Swapped done (onStream calls s w)) :
    ∃ done, ins ++ onStream calls s [f] = done ++ onStream calls s held'.toList ∧
      Swapped done (onStream calls s w') := by
  obtain ⟨done, rfl, hswapped⟩ := hpairs
  cases h with
  | hold _ hnone => exact ⟨done, by simp [hnone, onStream], hswapped⟩
  | swap prev _ hsome =>
    refine ⟨done ++ (onStream calls s [prev] ++ onStream calls s [f]), ?_, ?_⟩
    · simp [hsome, onStream]
    · rw [onStream_append]
      exact hswapped.append (swapped_filter _ prev f)
  | pass hre =>
    rcases hpass hre with hnone | hnone
    · refine ⟨done, by rw [hnone, List.append_nil], ?_⟩
      rwa [onStream_append, hnone, List.append_nil]
    · refine ⟨done ++ onStream calls s [f], by rw [hnone, List.append_nil, List.append_nil], ?_⟩
      rw [onStream_append]
      exact hswapped.append (.refl _)

/-- What the pairs say of the places and of the frame held back. -/
theorem swapsNeighbours_of_pairs {e : FaultEngine ω D}
    (h : ∀ s, ∃ done, e.inputsOn s = done ++ onStream e.calls s e.held.toList ∧
      Swapped done (e.writtenOn s)) : e.SwapsNeighbours where
  pairs := h
  near := by
    intro s f i j hi hj
    obtain ⟨done, hins, hswapped⟩ := h s
    have hnodup : (done ++ onStream e.calls s e.held.toList).Nodup := by
      rw [← hins]
      exact ((inputs_sorted e.calls).filter _).imp fun hlt heq => by simp [heq] at hlt
    have hmem : f ∈ done := hswapped.perm.mem_iff.mpr (List.mem_of_getElem? hj)
    obtain ⟨k, hk⟩ := List.getElem?_of_mem hmem
    obtain ⟨hlt, _⟩ := List.getElem?_eq_some_iff.mp hk
    obtain rfl : k = i := by
      rw [hins] at hi
      refine (List.getElem?_inj (by simp; omega) hnodup).mp ?_
      rw [hi, List.getElem?_append_left hlt, hk]
    exact hswapped.near (List.nodup_append.mp hnodup).1 hk hj
  held := by
    intro f c hheld hc k c' hk hc' hsame
    obtain ⟨done, hins, _⟩ := h c.stream
    have hon : onStream e.calls c.stream e.held.toList = [f] := by
      simp [onStream, hheld, hc]
    have hsorted : (done ++ [f]).Pairwise fun f g => f.call < g.call := by
      rw [← hon, ← hins]
      exact (inputs_sorted e.calls).filter _
    have hlater : ({ data := c'.data, call := k } : Frame) ∈ done ++ [f] := by
      rw [← hon, ← hins]
      refine List.mem_filter.mpr ⟨mem_inputs.mpr ⟨c', hc', rfl⟩, ?_⟩
      simp [hc', hsame]
    rcases List.mem_append.mp hlater with hdone | hlast
    · have hlt := (List.pairwise_append.mp hsorted).2.2 _ hdone f (by simp)
      exact absurd hlt (by simpa using Nat.le_of_lt hk)
    · rw [← List.mem_singleton.mp hlast] at hk
      exact absurd hk (Nat.lt_irrefl _)

theorem held_call_lt {e : FaultEngine ω D} (hfrom : e.FromCalls) :
    ∀ f ∈ e.held.toList, f.call < e.calls.length := by
  intro f hf
  obtain ⟨c, hc⟩ := hfrom f (by simp [FaultEngine.frames, FaultEngine.waiting, hf])
  exact (List.getElem?_eq_some_iff.mp hc.call).1

/-- The slot holds a frame after an odd number of calls that found a reorder rule active:
the frame of the last of them. -/
theorem processed_held (hzero : (ofInt 0 : D) ≤ ofInt 0) (h : ∀ r ∈ rules, r.kind = .kReorder)
    (world : ω) (calls : List (ProcessCall D)) :
    ((processed W rules world calls).held.bind fun f => calls[f.call]?) =
      if Odd (calls.filter (reorderActive rules)).length then
        (calls.filter (reorderActive rules)).getLast? else none := by
  induction calls using List.reverseRecOn with
  | nil => simp [processed]
  | append_singleton calls c ih =>
    have hrules := processed_rules (W := W) rules world calls
    have hcalls := processed_calls (W := W) rules world calls
    have hlt := held_call_lt (processed_fromCalls (W := W) rules world calls)
    have hstep := process_reorders (W := W) hzero (e := processed W rules world calls)
      (hrules.symm ▸ h) c
    rw [processed_append]
    rw [hcalls] at hstep hlt
    rw [hrules] at hstep
    generalize (processed W rules world calls).held = held at ih hlt hstep
    generalize ((processed W rules world calls).process W c).held = held' at hstep ⊢
    generalize ((processed W rules world calls).process W c).written.map Written.frame = w' at hstep
    cases hstep with
    | hold hre hnone =>
      have heven : ¬ Odd (calls.filter (reorderActive rules)).length := by
        intro hodd
        rw [if_pos hodd, hnone] at ih
        have hempty := List.getLast?_eq_none_iff.mp ih.symm
        simp [hempty] at hodd
      simp [List.filter_append, hre, Nat.odd_add_one, heven]
    | swap prev hre hsome =>
      have hodd : Odd (calls.filter (reorderActive rules)).length := by
        by_contra heven
        rw [if_neg heven, hsome] at ih
        have hprev := hlt prev (by simp [hsome])
        simp [hprev] at ih
      simp [List.filter_append, hre, Nat.odd_add_one, hodd]
    | pass hre =>
      have hsame : (held.bind fun f => (calls ++ [c])[f.call]?) =
          held.bind fun f => calls[f.call]? := by
        cases held with
        | none => rfl
        | some f =>
          exact List.getElem?_append_left (hlt f (by simp))
      simp [List.filter_append, hre, hsame, ih]

theorem swapPending_iff (hzero : (ofInt 0 : D) ≤ ofInt 0) (h : ∀ r ∈ rules, r.kind = .kReorder)
    (world : ω) (calls : List (ProcessCall D)) (c : ProcessCall D) :
    SwapPending rules calls c ↔
      onStream calls c.stream (processed W rules world calls).held.toList ≠ [] := by
  have hheld := processed_held (W := W) hzero h world calls
  have hbind : SwapPending rules calls c ↔
      ∃ c' ∈ (processed W rules world calls).held.bind fun f => calls[f.call]?,
        c'.stream = c.stream := by
    rw [hheld, SwapPending]
    by_cases hodd : Odd (calls.filter (reorderActive rules)).length <;> simp [hodd]
  rw [hbind]
  cases (processed W rules world calls).held with
  | none => simp [onStream]
  | some f => simp [onStream, Option.any_eq_true]

/-- A frame that no rule is active for leaves the slot as it is. -/
theorem Reorders.passes {c : ProcessCall D} {f : Frame} {held held' : Option Frame}
    {w w' : List Frame} (h : Reorders rules c f held w held' w')
    (hre : reorderActive rules c = false) : held' = held := by
  cases h with
  | hold htrue => rw [hre] at htrue; cases htrue
  | swap prev htrue => rw [hre] at htrue; cases htrue
  | pass => rfl

omit [Double D] in
theorem onStream_held {calls : List (ProcessCall D)} {s : String} {held : Option Frame}
    (h : onStream calls s held.toList ≠ []) :
    ∃ f, held = some f ∧ onStream calls s held.toList = [f] := by
  cases held with
  | none => exact absurd rfl h
  | some f =>
    refine ⟨f, rfl, ?_⟩
    obtain ⟨g, hg⟩ := List.exists_mem_of_ne_nil _ h
    have hon := (List.mem_filter.mp hg).2
    rw [List.mem_singleton.mp (List.mem_filter.mp hg).1] at hon
    exact List.filter_cons_of_pos hon

theorem inputsOn_append (world : ω) (calls : List (ProcessCall D)) (c : ProcessCall D)
    (s : String) : (processed W rules world (calls ++ [c])).inputsOn s =
      (processed W rules world calls).inputsOn s ++
        onStream (calls ++ [c]) s [{ data := c.data, call := calls.length }] := by
  rw [FaultEngine.inputsOn, FaultEngine.inputsOn, processed_calls, processed_calls,
    inputs_append, onStream_append, onStream_calls]
  intro f hf
  obtain ⟨c', hc', _⟩ := mem_inputs.mp hf
  exact (List.getElem?_eq_some_iff.mp hc').1

/-- One call keeps the pairs of every stream exactly if its frame does not pass one that is
held back for the same stream. -/
theorem process_pairs_iff (hzero : (ofInt 0 : D) ≤ ofInt 0) (h : ∀ r ∈ rules, r.kind = .kReorder)
    (world : ω) (calls : List (ProcessCall D)) (c : ProcessCall D)
    (hpairs : (processed W rules world calls).SwapsNeighbours) :
    (processed W rules world (calls ++ [c])).SwapsNeighbours ↔
      (reorderActive rules c = false → ¬ SwapPending rules calls c) := by
  have hrules := processed_rules (W := W) rules world calls
  have hcalls := processed_calls (W := W) rules world calls
  have hcalls' := processed_calls (W := W) rules world (calls ++ [c])
  have hheld := held_call_lt (processed_fromCalls (W := W) rules world calls)
  have hwritten := written_call_lt (processed_fromCalls (W := W) rules world calls)
  have hstep := process_reorders (W := W) hzero (e := processed W rules world calls)
    (hrules.symm ▸ h) c
  have hpending := swapPending_iff (W := W) hzero h world calls c
  rw [hcalls] at hstep hheld hwritten
  rw [hrules, ← processed_append] at hstep
  constructor
  · intro hafter hre hpend
    obtain ⟨f, hslot, hon⟩ := onStream_held (hpending.mp hpend)
    obtain ⟨done, hdone, _⟩ := hafter.pairs c.stream
    -- the new frame is the last one that came in, and so is the one in the slot
    rw [inputsOn_append, hcalls', hstep.passes hre, onStream_calls hheld, onStream_new,
      if_pos rfl, hon] at hdone
    have hlast := (List.append_inj' hdone rfl).2
    have hlt := hheld f (by simp [hslot])
    rw [← List.singleton_inj.mp hlast] at hlt
    exact absurd hlt (Nat.lt_irrefl _)
  · intro hfree
    apply swapsNeighbours_of_pairs
    intro s
    have hbefore := hpairs.pairs s
    rw [FaultEngine.writtenOn, hcalls, ← onStream_calls hheld c, ← onStream_calls hwritten c]
      at hbefore
    rw [FaultEngine.writtenOn, inputsOn_append, hcalls']
    apply hstep.pairs _ hbefore
    intro hre
    rw [onStream_new, onStream_calls hheld]
    by_cases hs : c.stream = s
    · subst hs
      exact .inr (by_contra fun hne => hfree hre (hpending.mpr hne))
    · exact .inl (if_neg hs)

/-- Reorder rules only swap neighbours, all along a run, exactly if no frame that finds no
such rule active comes on the stream for which the slot still holds a frame. -/
theorem reorder_swaps_iff (hzero : (ofInt 0 : D) ≤ ofInt 0) (h : ∀ r ∈ rules, r.kind = .kReorder)
    (world : ω) (calls : List (ProcessCall D)) :
    (∀ cs, cs <+: calls → (processed W rules world cs).SwapsNeighbours) ↔
      ∀ cs c, cs ++ [c] <+: calls → reorderActive rules c = false → ¬ SwapPending rules cs c := by
  constructor
  · intro hall cs c hcs
    have hbefore := hall cs ((List.prefix_append cs [c]).trans hcs)
    exact (process_pairs_iff hzero h world cs c hbefore).mp (hall _ hcs)
  · intro hfree cs hcs
    induction cs using List.reverseRecOn with
    | nil =>
      apply swapsNeighbours_of_pairs
      intro s
      exact ⟨[], rfl, .nil⟩
    | append_singleton cs c ih =>
      have hbefore := ih ((List.prefix_append cs [c]).trans hcs)
      exact (process_pairs_iff hzero h world cs c hbefore).mpr (hfree cs c hcs)

def reorderWindow : FaultRule Int64 := { kind := .kReorder, durationS := 2 }

/-- Frames of one stream at the given seconds. -/
def imuFrames (seconds : List Int64) : List (ProcessCall Int64) :=
  seconds.map fun t => { data := [7], tS := t, stream := "imu" }

theorem reorder_swaps_pair :
    (processed scriptedWorld [reorderWindow] ([], []) (imuFrames [0, 1, 3])).SwapsNeighbours := by
  refine (reorder_swaps_iff (by decide) (by simp [reorderWindow]) ([], [])
    (imuFrames [0, 1, 3])).mpr ?_ _ List.prefix_rfl
  rintro cs c ⟨later, hcs⟩ hre ⟨hodd, _⟩
  match cs with
  | [] =>
    cases hcs
    exact absurd hre (by decide)
  | [_] =>
    cases hcs
    exact absurd hre (by decide)
  | [_, _] =>
    cases hcs
    exact absurd hodd (by decide)
  | _ :: _ :: _ :: _ =>
    have hlen := congrArg List.length hcs
    simp [imuFrames] at hlen

/-- A frame is held back when the window closes, and the next one passes it. -/
theorem reorder_passes_held :
    ¬ ∀ (rules : List (FaultRule Int64)) (world : List Int64 × List Int)
      (calls : List (ProcessCall Int64)), (∀ r ∈ rules, r.kind = .kReorder) →
      (processed scriptedWorld rules world calls).SwapsNeighbours := by
  intro h
  have hheld := (h [reorderWindow] ([], []) (imuFrames [1, 3]) (by simp [reorderWindow])).held
    { data := [7], call := 0 } { data := [7], tS := 1, stream := "imu" } (by decide) rfl
  exact hheld 1 { data := [7], tS := 3, stream := "imu" } (by decide) rfl rfl

end SensorForge.Faults
