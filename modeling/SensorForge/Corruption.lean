import SensorForge.QuietRules

/-! What the corrupt rules do to a frame, as a function of the draws: the length stays, and
the bits that change are those drawn an odd number of times. -/

namespace SensorForge.Faults

open BitFlips Transition
open Double (ofInt)

variable {ω D : Type} [Double D] {W : World ω D} {rules : List (FaultRule D)}

/-- The next bit and byte that the generator draws for a payload of the given length. -/
def drawFlip (W : World ω D) (length : Nat) (world : ω) : Flip × ω :=
  let (bit, world) := W.uniformInt 7 world
  let (pos, world) := W.uniformInt (length - 1) world
  ((pos.val, bit), world)

def drawFlips (W : World ω D) (length : Nat) : Nat → ω → List Flip × ω
  | 0, world => ([], world)
  | n + 1, world =>
    let (x, world) := drawFlip W length world
    let (xs, world) := drawFlips W length n world
    (x :: xs, world)

/-- The rules that count a frame of the call as corrupted. -/
def corrupting (rules : List (FaultRule D)) (c : ProcessCall D) : List (FaultRule D) :=
  if c.data = [] then []
  else rules.filter fun r => r.matchesStream c.stream && r.activeAt c.tS && r.kind = .kCorrupt

def corruptBitsOf (rs : List (FaultRule D)) : Nat := (rs.map FaultRule.corruptBits).sum

omit [Double D] in
@[simp] theorem drawFlips_length (length n : Nat) (world : ω) :
    (drawFlips W length n world).1.length = n := by
  induction n generalizing world with
  | zero => rfl
  | succ n ih => simp [drawFlips, ih]

omit [Double D] in
theorem drawFlips_add (length m n : Nat) (world : ω) :
    drawFlips W length (m + n) world =
      ((drawFlips W length m world).1 ++
        (drawFlips W length n (drawFlips W length m world).2).1,
        (drawFlips W length n (drawFlips W length m world).2).2) := by
  induction m generalizing world with
  | zero => simp [drawFlips]
  | succ m ih => simp [drawFlips, Nat.succ_add, ih]

omit [Double D] in
theorem flipMany_eq (n : Nat) (world : ω) (f : Frame) :
    (flipOnce W)^[n] (world, f) = ((drawFlips W f.data.length n world).2,
      { f with
        data := flipAll f.data (drawFlips W f.data.length n world).1
        flips := f.flips ++ (drawFlips W f.data.length n world).1 }) := by
  induction n generalizing world f with
  | zero => simp [drawFlips]
  | succ n ih =>
    rw [Function.iterate_succ_apply]
    exact (ih _ _).trans (by simp [drawFlips, drawFlip])

/-- The frame after all active rules, and what they add to the counter. -/
theorem corruptLoop_eq (e : FaultEngine ω D) {f : Frame} (hf : f.data ≠ [])
    (rs : List (FaultRule D)) :
    (e.corruptLoop W f rs).2 = { f with
      data := flipAll f.data (drawFlips W f.data.length
        (corruptBitsOf (rs.filter fun r => r.kind = .kCorrupt)) e.world).1
      flips := f.flips ++ (drawFlips W f.data.length
        (corruptBitsOf (rs.filter fun r => r.kind = .kCorrupt)) e.world).1 } ∧
    (e.corruptLoop W f rs).1.stats.corrupted =
      e.stats.corrupted + UInt64.ofNat (rs.filter fun r => r.kind = .kCorrupt).length := by
  induction rs generalizing e f with
  | nil => simp [FaultEngine.corruptLoop, corruptBitsOf, drawFlips]
  | cons r rs ih =>
    by_cases hr : r.kind = .kCorrupt
    · have hlen := List.length_pos_iff.mpr hf
      have hf' : flipAll f.data (drawFlips W f.data.length r.corruptBits e.world).1 ≠ [] := by
        rw [← List.length_pos_iff, flipAll_length]
        exact hlen
      rw [FaultEngine.corruptLoop, if_pos ⟨hr, hf⟩, flipMany_eq]
      obtain ⟨hframe, hcount⟩ := ih
        { e with
          world := (drawFlips W f.data.length r.corruptBits e.world).2
          stats := { e.stats with corrupted := e.stats.corrupted + 1 } }
        (f := { f with
          data := flipAll f.data (drawFlips W f.data.length r.corruptBits e.world).1
          flips := f.flips ++ (drawFlips W f.data.length r.corruptBits e.world).1 }) hf'
      dsimp only
      rw [hframe, hcount]
      simp [hr, corruptBitsOf, drawFlips_add, flipAll_append]
      grind
    · rw [FaultEngine.corruptLoop, if_neg fun h => hr h.1]
      simpa [hr] using ih e hf

theorem corruptLoop_empty (e : FaultEngine ω D) {f : Frame} (hf : f.data = [])
    (rs : List (FaultRule D)) : e.corruptLoop W f rs = (e, f) := by
  induction rs with
  | nil => rfl
  | cons r rs ih => rwa [FaultEngine.corruptLoop, if_neg fun h => h.2 hf]

theorem corrupting_eq (e : FaultEngine ω D) {c : ProcessCall D} (hc : c.data ≠ []) :
    (e.active c.tS c.stream).filter (fun r => r.kind = .kCorrupt) = corrupting e.rules c := by
  rw [FaultEngine.active, List.filter_filter, corrupting, if_neg hc]
  exact List.filter_congr fun r _ => Bool.and_comm _ _

/-- The loop makes of a payload what the draws say, whether it is empty or not. -/
theorem corruptLoop_spec (e e' : FaultEngine ω D) (c : ProcessCall D) (k : Nat) :
    let xs := (drawFlips W c.data.length (corruptBitsOf (corrupting e.rules c)) e'.world).1
    (e'.corruptLoop W { data := c.data, call := k } (e.active c.tS c.stream)).2 =
        { data := flipAll c.data xs, call := k, flips := xs } ∧
      (e'.corruptLoop W { data := c.data, call := k }
        (e.active c.tS c.stream)).1.stats.corrupted =
          e'.stats.corrupted + UInt64.ofNat (corrupting e.rules c).length := by
  by_cases hc : c.data = []
  · simp [corruptLoop_empty, hc, corrupting, corruptBitsOf, drawFlips]
  · rw [← corrupting_eq e hc]
    simpa using corruptLoop_eq e' (f := { data := c.data, call := k }) hc (e.active c.tS c.stream)

theorem dispatchOrDelay_corrupted (e : FaultEngine ω D) (active : List (FaultRule D)) (f : Frame) :
    (e.dispatchOrDelay W active f).stats.corrupted = e.stats.corrupted := by
  unfold FaultEngine.dispatchOrDelay
  split <;> rfl

theorem duplicates_corrupted (active : List (FaultRule D)) (f : Frame) (e : FaultEngine ω D)
    (rs : List (FaultRule D)) :
    (rs.foldl (FaultEngine.duplicate W active f) e).stats.corrupted = e.stats.corrupted := by
  induction rs generalizing e with
  | nil => rfl
  | cons r rs ih =>
    rw [List.foldl_cons, ih, FaultEngine.duplicate]
    split
    · exact dispatchOrDelay_corrupted e active f
    · rfl

theorem forward_corrupted (e : FaultEngine ω D) (active : List (FaultRule D)) (f : Frame) :
    (e.forward W active f).stats.corrupted = e.stats.corrupted := by
  unfold FaultEngine.forward
  split
  · split
    · rfl
    · exact (dispatchOrDelay_corrupted _ active _).trans (dispatchOrDelay_corrupted _ active f)
  · exact (duplicates_corrupted active f _ active).trans (dispatchOrDelay_corrupted e active f)

/-- A frame is its payload with the bits flipped that were drawn for it. -/
def Frame.Drawn (W : World ω D) (rules : List (FaultRule D)) (calls : List (ProcessCall D))
    (f : Frame) : Prop :=
  ∃ c world, f.From calls c ∧
    f.flips = (drawFlips W c.data.length (corruptBitsOf (corrupting rules c)) world).1

/-- What the calls that have come through have added to `stats.corrupted`. -/
def FaultEngine.corruptions (e : FaultEngine ω D) : Nat :=
  ∑ k ∈ (e.frames.map Frame.call).toFinset, (e.calls[k]?.elim [] (corrupting e.rules)).length

/-- Every frame is as the draws left it, and the counter counts each once for each rule. -/
structure FaultEngine.Corrupted (W : World ω D) (e : FaultEngine ω D) : Prop where
  drawn : ∀ f ∈ e.frames, f.Drawn W e.rules e.calls
  counted : e.stats.corrupted = UInt64.ofNat e.corruptions

theorem Frame.Drawn.append {calls : List (ProcessCall D)} {f : Frame} (h : f.Drawn W rules calls)
    (c : ProcessCall D) : f.Drawn W rules (calls ++ [c]) := by
  obtain ⟨c', world, hfrom, hflips⟩ := h
  exact ⟨c', world, hfrom.append c, hflips⟩

/-- What a call does to the frames and the counter. -/
theorem process_corrupts (e : FaultEngine ω D) (c : ProcessCall D) :
    (e.process W c).frames = e.frames ∧ (e.process W c).stats.corrupted = e.stats.corrupted ∨
      ∃ n f, f.call = e.calls.length ∧ f.Drawn W e.rules (e.calls ++ [c]) ∧
        (e.process W c).frames = Multiset.replicate (n + 1) f + e.frames ∧
        (e.process W c).stats.corrupted =
          e.stats.corrupted + UInt64.ofNat (corrupting e.rules c).length := by
  obtain ⟨e', hcarries, hcount, heq | ⟨_, heq⟩⟩ := process_stages (W := W) e c
  · rw [heq]
    exact .inl ⟨hcarries.frames.trans (zero_add _), hcount⟩
  · obtain ⟨hframe, hcorrupted⟩ := corruptLoop_spec (W := W) e e' c e.calls.length
    obtain ⟨hcorrupt, hflipped⟩ := corruptLoop_carries (W := W) e'
      { data := c.data, call := e.calls.length } (e.active c.tS c.stream)
    obtain ⟨n, hforward⟩ := forward_carries (W := W)
      (e'.corruptLoop W { data := c.data, call := e.calls.length } (e.active c.tS c.stream)).1
      (e.active c.tS c.stream)
      (e'.corruptLoop W { data := c.data, call := e.calls.length } (e.active c.tS c.stream)).2
    refine .inr ⟨n, _, hflipped.call, ⟨c, e'.world, hflipped.fromCall, by rw [hframe]⟩, ?_, ?_⟩
    · rw [heq]
      exact (hcarries.after (hcorrupt.after hforward)).frames
    · rw [heq, forward_corrupted, hcorrupted, hcount]

theorem FaultEngine.corruptions_old {e : FaultEngine ω D} (hfrom : ∀ f ∈ e.frames,
    f.Drawn W e.rules e.calls) (c : ProcessCall D) :
    ∑ k ∈ (e.frames.map Frame.call).toFinset,
      ((e.calls ++ [c])[k]?.elim [] (corrupting e.rules)).length = e.corruptions := by
  apply Finset.sum_congr rfl
  intro k hk
  obtain ⟨f, hf, rfl⟩ := Multiset.mem_map.mp (Multiset.mem_toFinset.mp hk)
  obtain ⟨c', _, hc', _⟩ := hfrom f hf
  rw [List.getElem?_append_left (List.getElem?_eq_some_iff.mp hc'.call).1]

theorem FaultEngine.Corrupted.process {e : FaultEngine ω D} (h : e.Corrupted W)
    (c : ProcessCall D) : (e.process W c).Corrupted W := by
  have hold := FaultEngine.corruptions_old h.drawn c
  have hrules := process_rules (W := W) e c
  have hcalls := process_calls (W := W) e c
  obtain ⟨hframes, hcount⟩ | ⟨n, f, hcall, hdrawn, hframes, hcount⟩ := process_corrupts (W := W) e c
  · refine ⟨fun f hf => ?_, ?_⟩
    · rw [hrules, hcalls]
      exact (h.drawn f (hframes ▸ hf)).append c
    · rw [FaultEngine.corruptions, hframes, hrules, hcalls, hold, hcount, h.counted]
  · refine ⟨fun g hg => ?_, ?_⟩
    · rw [hrules, hcalls]
      rw [hframes, Multiset.mem_add] at hg
      rcases hg with hg | hg
      · rw [Multiset.eq_of_mem_replicate hg]
        exact hdrawn
      · exact (h.drawn g hg).append c
    · have hset : ((e.process W c).frames.map Frame.call).toFinset =
          insert e.calls.length (e.frames.map Frame.call).toFinset := by
        rw [hframes, Multiset.map_add, Multiset.map_replicate, Multiset.toFinset_add,
          Multiset.toFinset_replicate, if_neg n.succ_ne_zero, hcall]
        rfl
      have hnew : e.calls.length ∉ (e.frames.map Frame.call).toFinset := by
        intro hmem
        obtain ⟨g, hg, hlen⟩ := Multiset.mem_map.mp (Multiset.mem_toFinset.mp hmem)
        obtain ⟨c', _, hc', _⟩ := h.drawn g hg
        exact absurd (List.getElem?_eq_some_iff.mp hc'.call).1 (by omega)
      rw [FaultEngine.corruptions, hset, Finset.sum_insert hnew, hrules, hcalls, hold, hcount,
        h.counted, List.getElem?_concat_length, Option.elim_some, UInt64.ofNat_add,
        UInt64.add_comm]

theorem next_corrupted {e e' : FaultEngine ω D} {a : EngineAction D} (h : e.next W a = some e')
    (ha : ∀ c, a ≠ .process c) : e'.stats.corrupted = e.stats.corrupted := by
  cases next_step h with
  | process c => exact absurd rfl (ha c)
  | _ => rfl

theorem FaultEngine.Corrupted.next {e e' : FaultEngine ω D} {a : EngineAction D}
    (he : e.Corrupted W) (h : e.next W a = some e') : e'.Corrupted W := by
  by_cases ha : ∃ c, a = .process c
  · obtain ⟨c, rfl⟩ := ha
    cases next_step h
    exact he.process c
  · have hother : ∀ c, a ≠ .process c := fun c hc => ha ⟨c, hc⟩
    have hcarries := next_carries h hother
    have hframes : e'.frames = e.frames := hcarries.frames.trans (zero_add _)
    refine ⟨fun f hf => ?_, ?_⟩
    · rw [hcarries.rules, hcarries.calls]
      exact he.drawn f (hframes ▸ hf)
    · rw [next_corrupted h hother, he.counted, FaultEngine.corruptions, FaultEngine.corruptions,
        hframes, hcarries.rules, hcarries.calls]

theorem reachable_corrupted {e : FaultEngine ω D} (h : (system W rules).Reachable anyStep e) :
    e.rules = rules ∧ e.Corrupted W := by
  refine h.invariant (P := fun e => e.rules = rules ∧ e.Corrupted W) ?_ ?_
  · rintro e ⟨world, rfl⟩
    refine ⟨rfl, fun f hf => ?_, rfl⟩
    simp [FaultEngine.frames, FaultEngine.waiting] at hf
  · rintro e a e' ⟨hrules, he⟩ _ hn
    exact ⟨(next_rules hn).trans hrules, he.next hn⟩

/-- A payload of the same length, with at least one bit changed and at most `bits`. -/
structure CorruptedLittle (bits : Nat) (before after : Bytes) : Prop where
  length : after.length = before.length
  some : 1 ≤ (differing before after).card
  few : (differing before after).card ≤ bits

theorem differing_flipAll_iff {data : Bytes} {xs : List Flip}
    (hxs : ∀ x ∈ xs, x.1 < data.length) :
    1 ≤ (differing data (flipAll data xs)).card ↔ ¬ Cancel xs := by
  rw [Nat.one_le_iff_ne_zero, Ne, Finset.card_eq_zero,
    differing_eq_empty_iff (flipAll_length data xs).symm, eq_comm, flipAll_eq_self_iff hxs]

/-- The counter counts every call that came through once for each rule that corrupted it. A
written frame is its payload with the drawn bits flipped: it is as long and differs in at most
as many bits as the rules have drawn, and it differs at all exactly if the draws do not cancel
out. An odd number of draws cannot. -/
theorem corruption_iff {e : FaultEngine ω D} (h : (system W rules).Reachable anyStep e) :
    e.stats.corrupted = UInt64.ofNat e.corruptions ∧
    ∀ w ∈ e.written, ∃ c, e.calls[w.frame.call]? = some c ∧
      (∃ world, w.frame.flips =
        (drawFlips W c.data.length (corruptBitsOf (corrupting rules c)) world).1) ∧
      w.frame.data.length = c.data.length ∧
      (differing c.data w.frame.data).card ≤ corruptBitsOf (corrupting rules c) ∧
      (1 ≤ (differing c.data w.frame.data).card ↔ ¬ Cancel w.frame.flips) ∧
      (Odd (corruptBitsOf (corrupting rules c)) → ¬ Cancel w.frame.flips) := by
  obtain ⟨rfl, he⟩ := reachable_corrupted h
  refine ⟨he.counted, fun w hw => ?_⟩
  obtain ⟨c, world, hfrom, hflips⟩ :=
    he.drawn w.frame (Multiset.mem_add.mpr (.inr (List.mem_map_of_mem hw)))
  have hlen : w.frame.flips.length = corruptBitsOf (corrupting e.rules c) := by
    rw [hflips, drawFlips_length]
  refine ⟨c, hfrom.call, ⟨world, hflips⟩, ?_, ?_, ?_, ?_⟩
  · rw [hfrom.data, flipAll_length]
  · rw [hfrom.data, ← hlen]
    exact differing_flipAll_card_le hfrom.inside
  · rw [hfrom.data]
    exact differing_flipAll_iff hfrom.inside
  · intro hodd hcancel
    rw [← hlen] at hodd
    exact Nat.not_even_iff_odd.mpr hodd hcancel.even_length

/-- Every rule that corrupts flips so many bits. -/
def corruptRule (bits : Nat) : FaultRule Int64 :=
  { kind := .kCorrupt, durationS := 10, corruptBits := bits }

def corruptCall : ProcessCall Int64 := { data := [7, 9], tS := 1, stream := "imu" }

def corruptedOnce (bits : Nat) : FaultEngine (List Int64 × List Int) Int64 :=
  { rules := [corruptRule bits], world := ([], []) : FaultEngine _ _ }.process scriptedWorld
    corruptCall

theorem corruptedOnce_reachable (bits : Nat) :
    (system scriptedWorld [corruptRule bits]).Reachable anyStep (corruptedOnce bits) :=
  .step (a := EngineAction.process corruptCall) (.start ⟨([], []), rfl⟩) trivial rfl

theorem corruption_odd :
    ∃ w ∈ (corruptedOnce 3).written, CorruptedLittle 3 corruptCall.data w.frame.data := by
  obtain ⟨w, hw, hcall⟩ : ∃ w ∈ (corruptedOnce 3).written, w.frame.call = 0 := by decide
  obtain ⟨c, hc, _, hlength, hfew, hsome, hodd⟩ :=
    (corruption_iff (corruptedOnce_reachable 3)).2 w hw
  obtain rfl : corruptCall = c := by
    rw [hcall] at hc
    exact Option.some.inj hc
  exact ⟨w, hw, hlength, hsome.mpr (hodd (by decide)), hfew⟩

/-- With the default of four bits, the same bit is drawn every time and ends up as it was. -/
theorem corruption_cancels :
    ¬ ∀ (rules : List (FaultRule Int64)) (e : FaultEngine (List Int64 × List Int) Int64)
      (w : Written) (c : ProcessCall Int64), (system scriptedWorld rules).Reachable anyStep e →
      w ∈ e.written → e.calls[w.frame.call]? = some c → corrupting rules c ≠ [] →
      (∀ r ∈ corrupting rules c, 1 ≤ r.corruptBits) →
      CorruptedLittle (corruptBitsOf (corrupting rules c)) c.data w.frame.data := by
  intro h
  obtain ⟨w, hw, hcall, hdata⟩ : ∃ w ∈ (corruptedOnce 4).written, w.frame.call = 0 ∧
      w.frame.data = corruptCall.data := by decide
  have hlittle := h [corruptRule 4] _ w corruptCall (corruptedOnce_reachable 4) hw
    (hcall ▸ rfl) (List.ne_nil_of_length_pos (by decide)) (by decide)
  have hsame := (differing_eq_empty_iff rfl).mpr (Eq.refl corruptCall.data)
  have hsome := hlittle.some
  rw [hdata, hsame] at hsome
  exact absurd hsome (by decide)

end SensorForge.Faults
