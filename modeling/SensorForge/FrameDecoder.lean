import SensorForge.FrameCodec

/-! The stateful decoder and its history specification: what a call returns is
decided by the accepted frames of its own key since the last reset. -/

namespace SensorForge.Protocol

structure StreamState where
  lastSequence : UInt64 := 0
  lastTimestampNs : UInt64 := 0
  seen : Bool := false
  deriving DecidableEq, Repr

structure FrameDecoder where
  last : UInt64 → Option StreamState := fun _ => none

def FrameDecoder.decode (d : FrameDecoder) (data : Bytes) (streamKey : UInt64) :
    FrameDecoder × Except FrameError FrameHeader :=
  match decodeHeader data with
  | .error err => (d, .error err)
  | .ok out =>
    let st := (d.last streamKey).getD {}
    -- `last_[stream_key]` inserts a default state when the key is new
    let d : FrameDecoder := ⟨Function.update d.last streamKey (some st)⟩
    if st.seen ∧ out.sequence < st.lastSequence then (d, .error .sequenceRegression)
    else if st.seen ∧ out.timestampNs < st.lastTimestampNs then (d, .error .timestampRegression)
    else
      let st : StreamState :=
        { seen := true, lastSequence := out.sequence, lastTimestampNs := out.timestampNs }
      (⟨Function.update d.last streamKey (some st)⟩, .ok out)

def FrameDecoder.reset (_ : FrameDecoder) : FrameDecoder := {}

inductive DecoderCall
  | decode (data : Bytes) (streamKey : UInt64)
  | reset

inductive DecoderEvent
  | decode (data : Bytes) (streamKey : UInt64) (result : Except FrameError FrameHeader)
  | reset

def FrameDecoder.step (d : FrameDecoder) : DecoderCall → FrameDecoder × DecoderEvent
  | .decode data key => ((d.decode data key).1, .decode data key (d.decode data key).2)
  | .reset => (d.reset, .reset)

def FrameDecoder.trace (d : FrameDecoder) : List DecoderCall → List DecoderEvent
  | [] => []
  | c :: cs => (d.step c).2 :: (d.step c).1.trace cs

def FrameDecoder.after (d : FrameDecoder) (calls : List DecoderCall) : FrameDecoder :=
  calls.foldl (fun d c => (d.step c).1) d

def acceptedStep (key : UInt64) (acc : List FrameHeader) : DecoderEvent → List FrameHeader
  | .decode _ k (.ok h) => if k = key then acc ++ [h] else acc
  | .decode _ _ (.error _) => acc
  | .reset => []

/-- The frames of a key accepted since the last reset, oldest first. -/
def accepted (key : UInt64) (events : List DecoderEvent) : List FrameHeader :=
  events.foldl (acceptedStep key) []

def NotBefore (prev h : FrameHeader) : Prop :=
  prev.sequence ≤ h.sequence ∧ prev.timestampNs ≤ h.timestampNs

def DecoderCall.concerns (key : UInt64) : DecoderCall → Bool
  | .decode _ k => k = key
  | .reset => true

def DecoderEvent.concerns (key : UInt64) : DecoderEvent → Bool
  | .decode _ k _ => k = key
  | .reset => true

@[simp] theorem DecoderCall.concerns_decode (key k : UInt64) (data : Bytes) :
    (DecoderCall.decode data k).concerns key = decide (k = key) := rfl

@[simp] theorem DecoderEvent.concerns_decode (key k : UInt64) (data : Bytes)
    (result : Except FrameError FrameHeader) :
    (DecoderEvent.decode data k result).concerns key = decide (k = key) := rfl

def StreamState.ofFrame (h : FrameHeader) : StreamState :=
  { seen := true, lastSequence := h.sequence, lastTimestampNs := h.timestampNs }

/-- The history of a key as the decoder keeps it. -/
def FrameDecoder.Remembers (d : FrameDecoder) (events : List DecoderEvent) : Prop :=
  ∀ key, d.last key = (accepted key events).getLast?.map StreamState.ofFrame

/-- What one call does. A refused call leaves the decoder as it was. -/
theorem FrameDecoder.decode_cases (d : FrameDecoder) (data : Bytes) (key : UInt64) :
    (∃ err, d.decode data key = (d, .error err)) ∨
    ∃ h, decodeHeader data = .ok h ∧
      (∀ st, d.last key = some st → st.seen = true →
        st.lastSequence ≤ h.sequence ∧ st.lastTimestampNs ≤ h.timestampNs) ∧
      d.decode data key =
        (⟨Function.update d.last key (some (StreamState.ofFrame h))⟩, .ok h) := by
  unfold FrameDecoder.decode
  cases hdec : decodeHeader data with
  | error err => exact .inl ⟨err, rfl⟩
  | ok h =>
    have hsame : ((d.last key).getD {}).seen = true →
        (⟨Function.update d.last key (some ((d.last key).getD {}))⟩ : FrameDecoder) = d := by
      intro hs
      cases hl : d.last key with
      | none => simp [hl] at hs
      | some st => rw [Option.getD_some, ← hl, Function.update_eq_self]
    by_cases hseq : ((d.last key).getD {}).seen ∧ h.sequence < ((d.last key).getD {}).lastSequence
    · refine .inl ⟨.sequenceRegression, ?_⟩
      simp only [if_pos hseq, hsame hseq.1]
    · by_cases hts : ((d.last key).getD {}).seen ∧
          h.timestampNs < ((d.last key).getD {}).lastTimestampNs
      · refine .inl ⟨.timestampRegression, ?_⟩
        simp only [if_neg hseq, if_pos hts, hsame hts.1]
      · refine .inr ⟨h, rfl, ?_, ?_⟩
        · intro st hst hseen
          simp only [hst, Option.getD_some, hseen, true_and, UInt64.not_lt] at hseq hts
          exact ⟨hseq, hts⟩
        · simp only [if_neg hseq, if_neg hts, Function.update_idem]
          rfl

theorem accepted_append_singleton (key : UInt64) (events : List DecoderEvent) (e : DecoderEvent) :
    accepted key (events ++ [e]) = acceptedStep key (accepted key events) e := by
  simp [accepted, List.foldl_append]

theorem FrameDecoder.Remembers.step {d : FrameDecoder} {events : List DecoderEvent}
    (hr : d.Remembers events) (c : DecoderCall) :
    (d.step c).1.Remembers (events ++ [(d.step c).2]) := by
  intro k
  rw [accepted_append_singleton]
  cases c with
  | reset => rfl
  | decode data key =>
    rcases d.decode_cases data key with ⟨err, he⟩ | ⟨h, _, _, he⟩
    · simp only [FrameDecoder.step, he, acceptedStep]
      exact hr k
    · simp only [FrameDecoder.step, he, acceptedStep]
      by_cases hk : key = k
      · subst hk
        simp
      · rw [if_neg hk, Function.update_of_ne (Ne.symm hk)]
        exact hr k

theorem FrameDecoder.Remembers.decode_ok_iff {d : FrameDecoder} {events : List DecoderEvent}
    (hr : d.Remembers events) (data : Bytes) (key : UInt64) (h : FrameHeader) :
    (d.decode data key).2 = .ok h ↔
      decodeHeader data = .ok h ∧ ∀ prev ∈ (accepted key events).getLast?, NotBefore prev h := by
  have hlast := hr key
  constructor
  · intro hok
    rcases d.decode_cases data key with ⟨err, he⟩ | ⟨h', hdec, hmono, he⟩
    · simp [he] at hok
    · rw [he, Except.ok.injEq] at hok
      subst hok
      refine ⟨hdec, ?_⟩
      intro prev hprev
      rw [Option.mem_def.mp hprev] at hlast
      exact hmono _ hlast rfl
  · rintro ⟨hdec, hmono⟩
    unfold FrameDecoder.decode
    simp only [hdec]
    cases hp : (accepted key events).getLast? with
    | none => simp [hlast, hp]
    | some prev =>
      obtain ⟨hs, ht⟩ := hmono prev hp
      simp [hlast, hp, StreamState.ofFrame, UInt64.not_lt.mpr hs, UInt64.not_lt.mpr ht]

theorem FrameDecoder.trace_append (d : FrameDecoder) (cs cs' : List DecoderCall) :
    d.trace (cs ++ cs') = d.trace cs ++ (d.after cs).trace cs' := by
  induction cs generalizing d with
  | nil => rfl
  | cons c cs ih => simp [FrameDecoder.trace, FrameDecoder.after, ih]

theorem FrameDecoder.after_append_singleton (d : FrameDecoder) (cs : List DecoderCall)
    (c : DecoderCall) : d.after (cs ++ [c]) = ((d.after cs).step c).1 := by
  simp [FrameDecoder.after, List.foldl_append]

theorem FrameDecoder.trace_length (d : FrameDecoder) (cs : List DecoderCall) :
    (d.trace cs).length = cs.length := by
  induction cs generalizing d with
  | nil => rfl
  | cons c cs ih => simp [FrameDecoder.trace, ih]

theorem FrameDecoder.remembers_after (cs : List DecoderCall) :
    (FrameDecoder.after {} cs).Remembers (FrameDecoder.trace {} cs) := by
  induction cs using List.reverseRecOn with
  | nil => exact fun _ => rfl
  | append_singleton cs c ih =>
    have hh := ih.step c
    rw [FrameDecoder.trace_append]
    simpa [FrameDecoder.after, FrameDecoder.trace, List.foldl_append] using hh

theorem FrameDecoder.trace_split {cs : List DecoderCall} {pre post : List DecoderEvent}
    {e : DecoderEvent} (h : FrameDecoder.trace {} cs = pre ++ e :: post) :
    ∃ before c later, cs = before ++ c :: later ∧ FrameDecoder.trace {} before = pre ∧
      (FrameDecoder.after {} before).step c = ((FrameDecoder.after {} (before ++ [c])), e) ∧
      (FrameDecoder.after {} (before ++ [c])).trace later = post := by
  have hlen : pre.length < cs.length := by
    rw [← FrameDecoder.trace_length {} cs, h]
    simp
  have hcs : cs = cs.take pre.length ++ cs[pre.length] :: cs.drop (pre.length + 1) := by simp
  rw [hcs, FrameDecoder.trace_append, FrameDecoder.trace] at h
  have hpre : (FrameDecoder.trace {} (cs.take pre.length)).length = pre.length := by
    rw [FrameDecoder.trace_length, List.length_take]
    omega
  obtain ⟨h1, h2⟩ := List.append_inj h hpre
  obtain ⟨h3, h4⟩ := List.cons.inj h2
  have hafter := FrameDecoder.after_append_singleton {} (cs.take pre.length) cs[pre.length]
  refine ⟨_, _, _, hcs, h1, ?_, ?_⟩
  · rw [hafter, ← h3]
  · rw [hafter, h4]

theorem accepted_pairwise (key : UInt64) (cs : List DecoderCall) :
    (accepted key (FrameDecoder.trace {} cs)).Pairwise NotBefore := by
  have htrans : ∀ {a b c}, NotBefore a b → NotBefore b c → NotBefore a c := fun hab hbc =>
    ⟨UInt64.le_trans hab.1 hbc.1, UInt64.le_trans hab.2 hbc.2⟩
  induction cs using List.reverseRecOn with
  | nil => exact List.Pairwise.nil
  | append_singleton cs c ih =>
    have hr := FrameDecoder.remembers_after cs
    rw [FrameDecoder.trace_append, FrameDecoder.trace, FrameDecoder.trace,
      accepted_append_singleton]
    cases c with
    | reset => exact List.Pairwise.nil
    | decode data k =>
      simp only [FrameDecoder.step]
      cases hres : ((FrameDecoder.after {} cs).decode data k).2 with
      | error err => exact ih
      | ok h =>
        simp only [acceptedStep]
        by_cases hk : k = key
        · subst hk
          rw [if_pos rfl]
          have hmono := ((hr.decode_ok_iff data k h).mp hres).2
          refine List.pairwise_append.mpr ⟨ih, List.pairwise_singleton _ _, ?_⟩
          intro a ha b hb
          rw [List.mem_singleton.mp hb]
          obtain ⟨front, last, hl⟩ := List.eq_nil_or_concat _ |>.resolve_left (List.ne_nil_of_mem ha)
          have hlast := hmono last (by simp [hl])
          rw [hl, List.concat_eq_append, List.mem_append, List.mem_singleton] at ha
          rcases ha with ha | rfl
          · rw [hl, List.concat_eq_append] at ih
            exact htrans ((List.pairwise_append.mp ih).2.2 a ha last (by simp)) hlast
          · exact hlast
        · rw [if_neg hk]
          exact ih

theorem FrameDecoder.trace_filter {d d' : FrameDecoder} {key : UInt64}
    (h : d.last key = d'.last key) (cs : List DecoderCall) :
    (d.trace cs).filter (·.concerns key) = d'.trace (cs.filter (·.concerns key)) := by
  induction cs generalizing d d' with
  | nil => rfl
  | cons c cs ih =>
    cases c with
    | reset =>
      have hempty : d.reset.last key = d'.reset.last key := rfl
      have hh := ih hempty
      simpa [FrameDecoder.trace, FrameDecoder.step, DecoderCall.concerns,
        DecoderEvent.concerns] using hh
    | decode data k =>
      by_cases hk : k = key
      · subst hk
        have hres : (d.decode data k).2 = (d'.decode data k).2 ∧
            (d.decode data k).1.last k = (d'.decode data k).1.last k := by
          unfold FrameDecoder.decode
          cases decodeHeader data with
          | error err => exact ⟨rfl, h⟩
          | ok out =>
            simp only [h]
            split_ifs <;> simp
        have hh := ih hres.2
        simp only [FrameDecoder.trace, FrameDecoder.step, List.filter_cons,
          DecoderCall.concerns_decode, DecoderEvent.concerns_decode, decide_true, if_true, hres.1,
          hh]
      · have hlast : (d.decode data k).1.last key = d'.last key := by
          rcases d.decode_cases data k with ⟨err, he⟩ | ⟨out, _, _, he⟩
          · rw [he, ← h]
          · rw [he, ← h]
            exact Function.update_of_ne (Ne.symm hk) _ _
        have hh := ih hlast
        simp only [FrameDecoder.trace, FrameDecoder.step, List.filter_cons,
          DecoderCall.concerns_decode, DecoderEvent.concerns_decode, hk, decide_false,
          Bool.false_eq_true, if_false, hh]

/-- The history specification of the decoder, over every run of calls. -/
theorem decode_history (cs : List DecoderCall) :
    (∀ pre data key result post,
      FrameDecoder.trace {} cs = pre ++ .decode data key result :: post →
      ∀ h, result = .ok h ↔
        decodeHeader data = .ok h ∧ ∀ prev ∈ (accepted key pre).getLast?, NotBefore prev h) ∧
    (∀ key, (accepted key (FrameDecoder.trace {} cs)).Pairwise NotBefore) ∧
    (∀ before data key later pre err post, cs = before ++ .decode data key :: later →
      FrameDecoder.trace {} cs = pre ++ .decode data key (.error err) :: post →
      pre.length = before.length → FrameDecoder.trace {} (before ++ later) = pre ++ post) ∧
    (∀ key, (FrameDecoder.trace {} cs).filter (·.concerns key) =
      FrameDecoder.trace {} (cs.filter (·.concerns key))) := by
  refine ⟨?_, fun key => accepted_pairwise key cs, ?_, fun key => FrameDecoder.trace_filter rfl cs⟩
  · intro pre data key result post htrace h
    obtain ⟨before, c, later, _, hpre, hstep, _⟩ := FrameDecoder.trace_split htrace
    have hr := FrameDecoder.remembers_after before
    rw [hpre] at hr
    cases c with
    | reset => simp [FrameDecoder.step] at hstep
    | decode data' key' =>
      simp only [FrameDecoder.step, Prod.mk.injEq, DecoderEvent.decode.injEq] at hstep
      obtain ⟨_, rfl, rfl, rfl⟩ := hstep
      exact hr.decode_ok_iff data' key' h
  · intro before data key later pre err post hcs htrace hlen
    rw [hcs, FrameDecoder.trace_append, FrameDecoder.trace] at htrace
    obtain ⟨h1, h2⟩ := List.append_inj htrace (by rw [FrameDecoder.trace_length, hlen])
    obtain ⟨h3, h4⟩ := List.cons.inj h2
    have hstay : ((FrameDecoder.after {} before).step (.decode data key)).1 =
        FrameDecoder.after {} before := by
      simp only [FrameDecoder.step, DecoderEvent.decode.injEq, true_and] at h3 ⊢
      rcases (FrameDecoder.after {} before).decode_cases data key with ⟨_, he⟩ | ⟨_, _, _, he⟩
      · rw [he]
      · simp [he] at h3
    rw [hstay] at h4
    rw [FrameDecoder.trace_append, h1, h4]

end SensorForge.Protocol
