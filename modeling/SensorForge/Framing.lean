import Mathlib

/-! Streams of length-prefixed payloads behind a two-byte marker. `frames` says what a
stream contains; a decoder that works byte by byte is compared with it through what is
still `pending` after the bytes it has seen. -/

namespace Framing

abbrev Stream := List UInt8

/-- A marker, a size field of `width` bytes and how it is read, and the sizes that are
accepted; after any other size the search for a marker starts anew. -/
structure Format where
  first : UInt8
  second : UInt8
  ne : first ≠ second
  width : Nat
  readSize : Stream → Nat
  fits : Nat → Bool

def afterMarker (first second : UInt8) : Stream → Option Stream
  | a :: b :: rest =>
    if a = first ∧ b = second then some rest else afterMarker first second (b :: rest)
  | _ => none

theorem afterMarker_length {first second : UInt8} {bs rest : Stream}
    (h : afterMarker first second bs = some rest) : rest.length + 2 ≤ bs.length := by
  fun_induction afterMarker first second bs with
  | case1 a b tail hab =>
    cases h
    simp
  | case2 a b tail hab ih =>
    have := ih h
    simp only [List.length_cons] at this ⊢
    omega
  | case3 => cases h

variable (F : Format)

def Format.frames (bs : Stream) : List Stream :=
  match _h : afterMarker F.first F.second bs with
  | none => []
  | some rest =>
    if rest.length < F.width then [] else
    let n := F.readSize (rest.take F.width)
    let body := rest.drop F.width
    if F.fits n then
      if body.length < n then [] else body.take n :: Format.frames (body.drop n)
    else Format.frames body
termination_by bs.length
decreasing_by
  · have := afterMarker_length _h
    simp only [List.length_drop]
    omega
  · have := afterMarker_length _h
    simp only [List.length_drop]
    omega

/-- The size fields of a stream, each with what follows it, all sizes being accepted. -/
def Format.announced (bs : Stream) : List (Stream × Stream) :=
  match _h : afterMarker F.first F.second bs with
  | none => []
  | some rest =>
    if rest.length < F.width then [] else
    (rest.take F.width, rest.drop F.width) ::
      Format.announced ((rest.drop F.width).drop (F.readSize (rest.take F.width)))
termination_by bs.length
decreasing_by
  have := afterMarker_length _h
  simp only [List.length_drop]
  omega

inductive Phase where
  | hunt
  | marked
  | size (got : Stream)
  | payload (n : Nat) (got : Stream)

/-- The payloads that are complete once `more` has followed. -/
def Format.pending : Phase → Stream → List Stream
  | .hunt, more => F.frames more
  | .marked, more => F.frames (F.first :: more)
  | .size got, more => F.frames (F.first :: F.second :: (got ++ more))
  | .payload n got, more =>
    if (got ++ more).length < n then [] else
    (got ++ more).take n :: F.frames ((got ++ more).drop n)

theorem Format.frames_none {bs : Stream} (h : afterMarker F.first F.second bs = none) :
    F.frames bs = [] := by
  rw [Format.frames]
  split
  · rfl
  · next heq =>
    rw [h] at heq
    cases heq

@[simp] theorem Format.frames_nil : F.frames [] = [] := F.frames_none rfl

theorem Format.pending_payload_nil (n : Nat) (body : Stream) :
    F.pending (.payload n []) body =
      if body.length < n then [] else body.take n :: F.frames (body.drop n) := rfl

theorem Format.frames_some {bs rest : Stream} (h : afterMarker F.first F.second bs = some rest) :
    F.frames bs =
      if rest.length < F.width then [] else
      if F.fits (F.readSize (rest.take F.width)) then
        F.pending (.payload (F.readSize (rest.take F.width)) []) (rest.drop F.width)
      else F.pending .hunt (rest.drop F.width) := by
  rw [Format.frames]
  split
  · next heq =>
    rw [h] at heq
    cases heq
  · next rest' heq =>
    rw [h, Option.some.injEq] at heq
    subst heq
    rfl

theorem Format.frames_congr {bs bs' : Stream}
    (h : afterMarker F.first F.second bs = afterMarker F.first F.second bs') :
    F.frames bs = F.frames bs' := by
  cases hm : afterMarker F.first F.second bs' with
  | none => rw [F.frames_none hm, F.frames_none (h.trans hm)]
  | some rest => rw [F.frames_some hm, F.frames_some (h.trans hm)]

theorem Format.pending_hunt {b : UInt8} (hb : b ≠ F.first) (more : Stream) :
    F.pending .hunt (b :: more) = F.pending .hunt more := by
  refine F.frames_congr ?_
  cases more with
  | nil => rfl
  | cons c more => rw [afterMarker, if_neg (fun h => hb h.1)]

theorem Format.pending_marked_first (more : Stream) :
    F.pending .marked (F.first :: more) = F.pending .marked more := by
  refine F.frames_congr ?_
  rw [afterMarker, if_neg (fun h => F.ne h.2)]

theorem Format.pending_marked_other {b : UInt8} (hfirst : b ≠ F.first) (hsecond : b ≠ F.second)
    (more : Stream) : F.pending .marked (b :: more) = F.pending .hunt more := by
  have hskip : F.pending .marked (b :: more) = F.pending .hunt (b :: more) := by
    refine F.frames_congr ?_
    rw [afterMarker, if_neg (fun h => hsecond h.2)]
  rw [hskip, F.pending_hunt hfirst]

theorem Format.pending_size_cons (got : Stream) (b : UInt8) (more : Stream) :
    F.pending (.size got) (b :: more) = F.pending (.size (got ++ [b])) more := by
  simp [Format.pending]

theorem Format.pending_payload_cons (n : Nat) (got : Stream) (b : UInt8) (more : Stream) :
    F.pending (.payload n got) (b :: more) = F.pending (.payload n (got ++ [b])) more := by
  simp [Format.pending]

theorem Format.pending_size_done {got : Stream} (h : got.length = F.width) (more : Stream) :
    F.pending (.size got) more =
      if F.fits (F.readSize got) then F.pending (.payload (F.readSize got) []) more
      else F.pending .hunt more := by
  have hmark : afterMarker F.first F.second (F.first :: F.second :: (got ++ more)) =
      some (got ++ more) := by
    rw [afterMarker, if_pos ⟨rfl, rfl⟩]
  have hlen : ¬ (got ++ more).length < F.width := by
    rw [List.length_append]
    omega
  simp only [Format.pending]
  rw [F.frames_some hmark, if_neg hlen, List.take_left' h, List.drop_left' h]
  rfl

theorem Format.pending_payload_done {n : Nat} {got : Stream} (h : got.length = n) (more : Stream) :
    F.pending (.payload n got) more = got :: F.pending .hunt more := by
  have hlen : ¬ (got ++ more).length < n := by
    rw [List.length_append]
    omega
  simp only [Format.pending, if_neg hlen, List.take_left' h, List.drop_left' h]

def Format.Unfinished : Phase → Prop
  | .hunt => True
  | .marked => True
  | .size got => got.length < F.width
  | .payload n got => got.length < n

theorem Format.pending_nil (phase : Phase) (h : F.Unfinished phase) : F.pending phase [] = [] := by
  cases phase with
  | hunt => exact F.frames_nil
  | marked => exact F.frames_none rfl
  | size got =>
    have hmark : afterMarker F.first F.second (F.first :: F.second :: (got ++ [])) = some got := by
      rw [afterMarker, if_pos ⟨rfl, rfl⟩, List.append_nil]
    have hlen : got.length < F.width := h
    rw [Format.pending, F.frames_some hmark, if_pos hlen]
  | payload n got =>
    have hlen : got.length < n := h
    rw [Format.pending, List.append_nil, if_pos hlen]

theorem afterMarker_eq_none {first second : UInt8} {bs : Stream} (h : first ∉ bs) :
    afterMarker first second bs = none := by
  fun_induction afterMarker first second bs with
  | case1 a b tail hab => exact absurd (by simp [hab.1]) h
  | case2 a b tail hab ih => exact ih fun hmem => h (List.mem_cons_of_mem a hmem)
  | case3 => rfl

theorem Format.frames_replicate_second (k : Nat) : F.frames (List.replicate k F.second) = [] :=
  F.frames_none (afterMarker_eq_none fun h => F.ne (List.eq_of_mem_replicate h))

/-- Where every size is accepted, only a decoder that hunts for a marker finds nothing in
any number of copies of the second marker byte. -/
theorem Format.exists_pending_ne_nil (hfits : ∀ n, F.fits n = true) {phase : Phase}
    (h : F.Unfinished phase) (hne : phase ≠ .hunt) :
    ∃ k, F.pending phase (List.replicate k F.second) ≠ [] := by
  have hpayload : ∀ n got, ∃ k, F.pending (.payload n got) (List.replicate k F.second) ≠ [] := by
    intro n got
    refine ⟨n, ?_⟩
    have hlen : ¬ (got ++ List.replicate n F.second).length < n := by
      rw [List.length_append, List.length_replicate]
      omega
    rw [Format.pending, if_neg hlen]
    exact List.cons_ne_nil _ _
  have hsize : ∀ got : Stream, got.length ≤ F.width →
      ∃ k, F.pending (.size got) (List.replicate k F.second) ≠ [] := by
    intro got hgot
    let field := got ++ List.replicate (F.width - got.length) F.second
    have hfield : field.length = F.width := by
      rw [List.length_append, List.length_replicate]
      omega
    obtain ⟨k, hk⟩ := hpayload (F.readSize field) []
    refine ⟨F.width - got.length + k, ?_⟩
    have hsplit : F.pending (.size got) (List.replicate (F.width - got.length + k) F.second) =
        F.pending (.size field) (List.replicate k F.second) := by
      rw [List.replicate_add, Format.pending, Format.pending, ← List.append_assoc]
    rwa [hsplit, F.pending_size_done hfield, if_pos (hfits _)]
  cases phase with
  | hunt => exact absurd rfl hne
  | marked =>
    obtain ⟨k, hk⟩ := hsize [] (Nat.zero_le _)
    exact ⟨k + 1, hk⟩
  | size got => exact hsize got (le_of_lt h)
  | payload n got => exact hpayload n got

theorem Format.frames_cost (bs : Stream) :
    ((F.frames bs).map fun p => p.length + F.width + 2).sum ≤ bs.length := by
  fun_induction Format.frames F bs with
  | case1 => simp
  | case2 => simp
  | case3 => simp
  | case4 bs rest hmark hwidth n body hfits hlen ih =>
    have hle := afterMarker_length hmark
    have hbody : body.length = rest.length - F.width := List.length_drop
    have hdrop : (body.drop n).length = body.length - n := List.length_drop
    rw [List.map_cons, List.sum_cons, List.length_take]
    omega
  | case5 bs rest hmark hwidth n body hfits ih =>
    have hle := afterMarker_length hmark
    have hbody : body.length = rest.length - F.width := List.length_drop
    omega

theorem Format.announced_none {bs : Stream} (h : afterMarker F.first F.second bs = none) :
    F.announced bs = [] := by
  rw [Format.announced]
  split
  · rfl
  · next heq =>
    rw [h] at heq
    cases heq

theorem Format.announced_marked {field : Stream} (h : field.length = F.width) (body : Stream) :
    F.announced (F.first :: F.second :: (field ++ body)) =
      (field, body) :: F.announced (body.drop (F.readSize field)) := by
  have hlen : ¬ (field ++ body).length < F.width := by
    rw [List.length_append]
    omega
  rw [Format.announced]
  split
  · next heq =>
    rw [afterMarker, if_pos ⟨rfl, rfl⟩] at heq
    cases heq
  · next rest heq =>
    rw [afterMarker, if_pos ⟨rfl, rfl⟩, Option.some.injEq] at heq
    subst heq
    rw [if_neg hlen, List.take_left' h, List.drop_left' h]

def Format.withSize (readSize : Stream → Nat) : Format :=
  { F with readSize, fits := fun _ => true }

section Compare

variable {F} {G : Format}

theorem Format.pending_payload_eq_iff (n : Nat) (body : Stream) :
    F.pending (.payload n []) body = G.pending (.payload n []) body ↔
      F.frames (body.drop n) = G.frames (body.drop n) := by
  rw [F.pending_payload_nil, G.pending_payload_nil]
  split
  · next hshort => simp [List.drop_eq_nil_of_le (le_of_lt hshort)]
  · simp

theorem Format.pending_payload_ne_iff {n m : Nat} (hne : n ≠ m) (body : Stream) :
    F.pending (.payload n []) body = G.pending (.payload m []) body ↔
      body.length < min n m := by
  rw [F.pending_payload_nil, G.pending_payload_nil]
  split
  · split
    · simp only [true_iff]
      omega
    · simp only [reduceCtorEq, false_iff]
      omega
  · split
    · simp only [reduceCtorEq, false_iff]
      omega
    · constructor
      · intro h
        have hlen := congrArg List.length (List.cons.inj h).1
        simp only [List.length_take] at hlen
        omega
      · omega

end Compare

/-- Two readings find the same payloads in a stream, unless the first size field on
which they differ is followed by as many bytes as one of them asks for. -/
theorem Format.frames_eq_iff (readSize : Stream → Nat) (bs : Stream)
    (hfits : ∀ x ∈ F.announced bs, F.fits (F.readSize x.1) = true) :
    F.frames bs = (F.withSize readSize).frames bs ↔
      ∀ x, (F.announced bs).find? (fun x => F.readSize x.1 ≠ readSize x.1) = some x →
        x.2.length < min (F.readSize x.1) (readSize x.1) := by
  fun_induction Format.announced F bs with
  | case1 bs hmark => simp [F.frames_none hmark, (F.withSize readSize).frames_none hmark]
  | case2 bs rest hmark hwidth =>
    have hwidth' : rest.length < (F.withSize readSize).width := hwidth
    simp [F.frames_some hmark, (F.withSize readSize).frames_some hmark, hwidth, hwidth']
  | case3 bs rest hmark hwidth ih =>
    have hwidth' : ¬ rest.length < (F.withSize readSize).width := hwidth
    have hhead := hfits _ List.mem_cons_self
    have htail := ih (fun x hx => hfits x (List.mem_cons_of_mem _ hx))
    have hother : (F.withSize readSize).frames bs = (F.withSize readSize).pending
        (.payload (readSize (rest.take F.width)) []) (rest.drop F.width) := by
      rw [(F.withSize readSize).frames_some hmark, if_neg hwidth']
      rfl
    rw [F.frames_some hmark, if_neg hwidth, if_pos hhead, hother]
    by_cases hsame : F.readSize (rest.take F.width) = readSize (rest.take F.width)
    · rw [List.find?_cons_of_neg (by simpa using hsame), ← htail, ← hsame,
        Format.pending_payload_eq_iff]
    · rw [List.find?_cons_of_pos (by simpa using hsame), Format.pending_payload_ne_iff hsame]
      simp

def Format.wire (encode : Nat → Stream) (payloads : List Stream) : Stream :=
  payloads.flatMap fun p => F.first :: F.second :: (encode p.length ++ p)

theorem Format.wire_length {encode : Nat → Stream} {payloads : List Stream}
    (hwidth : ∀ p ∈ payloads, (encode p.length).length = F.width) :
    (F.wire encode payloads).length = (payloads.map fun p => p.length + F.width + 2).sum := by
  rw [Format.wire, List.length_flatMap]
  refine congrArg List.sum (List.map_congr_left fun p hp => ?_)
  simp only [List.length_cons, List.length_append, hwidth p hp]
  omega

theorem afterMarker_noise {first second : UInt8} (hne : first ≠ second) {noise : Stream}
    (h : ¬ [first, second] <:+: noise) (rest : Stream) :
    afterMarker first second (noise ++ first :: second :: rest) = some rest := by
  induction noise with
  | nil => rw [List.nil_append, afterMarker, if_pos ⟨rfl, rfl⟩]
  | cons a noise ih =>
    have htail := ih fun hin => h (hin.trans (List.suffix_cons a noise).isInfix)
    cases noise with
    | nil =>
      have hmark : ¬ (a = first ∧ first = second) := fun hab => hne hab.2
      rw [List.cons_append, List.nil_append, afterMarker, if_neg hmark]
      exact htail
    | cons b noise =>
      have hmark : ¬ (a = first ∧ b = second) := by
        rintro ⟨rfl, rfl⟩
        exact h ⟨[], noise, rfl⟩
      rw [List.cons_append, List.cons_append, afterMarker, if_neg hmark]
      exact htail

theorem Format.frames_noise {noise : Stream} (h : ¬ [F.first, F.second] <:+: noise)
    (rest : Stream) :
    F.frames (noise ++ F.first :: F.second :: rest) = F.frames (F.first :: F.second :: rest) := by
  refine F.frames_congr ?_
  rw [afterMarker_noise F.ne h, afterMarker, if_pos ⟨rfl, rfl⟩]

theorem Format.frames_payload {field payload : Stream} (hwidth : field.length = F.width)
    (hfits : F.fits payload.length = true) (hread : F.readSize field = payload.length)
    (more : Stream) :
    F.frames (F.first :: F.second :: (field ++ (payload ++ more))) = payload :: F.frames more := by
  have hsize : F.frames (F.first :: F.second :: (field ++ (payload ++ more))) =
      F.pending (.size field) (payload ++ more) := rfl
  rw [hsize, F.pending_size_done hwidth, hread, if_pos hfits, F.pending_payload_nil,
    if_neg (by simp), List.take_left' rfl, List.drop_left' rfl]

theorem Format.frames_wire_append {encode : Nat → Stream} {payloads : List Stream}
    (hwidth : ∀ p ∈ payloads, (encode p.length).length = F.width)
    (hfits : ∀ p ∈ payloads, F.fits p.length = true)
    (hread : ∀ p ∈ payloads, F.readSize (encode p.length) = p.length) (more : Stream) :
    F.frames (F.wire encode payloads ++ more) = payloads ++ F.frames more := by
  induction payloads with
  | nil => rfl
  | cons p ps ih =>
    have htail := ih (fun q hq => hwidth q (List.mem_cons_of_mem p hq))
      (fun q hq => hfits q (List.mem_cons_of_mem p hq))
      (fun q hq => hread q (List.mem_cons_of_mem p hq))
    have hwire : F.wire encode (p :: ps) ++ more =
        F.first :: F.second :: (encode p.length ++ (p ++ (F.wire encode ps ++ more))) := by
      simp [Format.wire]
    rw [hwire, F.frames_payload (hwidth p List.mem_cons_self) (hfits p List.mem_cons_self)
      (hread p List.mem_cons_self), htail]
    rfl

/-- Pieces of noise, each followed by a payload behind its marker and size. -/
def Format.noisyWire (encode : Nat → Stream) (items : List (Stream × Stream)) : Stream :=
  items.flatMap fun x => x.1 ++ F.first :: F.second :: (encode x.2.length ++ x.2)

/-- Noise without a marker is passed over, also where it ends in the marker's first
byte. -/
theorem Format.frames_noisyWire {encode : Nat → Stream} {items : List (Stream × Stream)}
    (hnoise : ∀ x ∈ items, ¬ [F.first, F.second] <:+: x.1)
    (hwidth : ∀ x ∈ items, (encode x.2.length).length = F.width)
    (hfits : ∀ x ∈ items, F.fits x.2.length = true)
    (hread : ∀ x ∈ items, F.readSize (encode x.2.length) = x.2.length) :
    F.frames (F.noisyWire encode items) = items.map Prod.snd := by
  induction items with
  | nil => exact F.frames_nil
  | cons x items ih =>
    have htail := ih (fun y hy => hnoise y (List.mem_cons_of_mem x hy))
      (fun y hy => hwidth y (List.mem_cons_of_mem x hy))
      (fun y hy => hfits y (List.mem_cons_of_mem x hy))
      (fun y hy => hread y (List.mem_cons_of_mem x hy))
    have hwire : F.noisyWire encode (x :: items) = x.1 ++ F.first :: F.second ::
        (encode x.2.length ++ (x.2 ++ F.noisyWire encode items)) := by
      simp [Format.noisyWire]
    rw [hwire, F.frames_noise (hnoise x List.mem_cons_self),
      F.frames_payload (hwidth x List.mem_cons_self) (hfits x List.mem_cons_self)
        (hread x List.mem_cons_self), htail, List.map_cons]

/-- Written payloads are found exactly if every size is read as it was written. A reader
that misses one cannot make up for the bytes it has passed over. -/
theorem Format.frames_wire_iff {encode : Nat → Stream} {payloads : List Stream}
    (hwidth : ∀ p ∈ payloads, (encode p.length).length = F.width)
    (hfits : ∀ p ∈ payloads, F.fits p.length = true) :
    F.frames (F.wire encode payloads) = payloads ↔
      ∀ p ∈ payloads, F.readSize (encode p.length) = p.length := by
  induction payloads with
  | nil => simp [Format.wire]
  | cons p ps ih =>
    have htail := ih (fun q hq => hwidth q (List.mem_cons_of_mem p hq))
      (fun q hq => hfits q (List.mem_cons_of_mem p hq))
    have hsize := hwidth p List.mem_cons_self
    have hwire : F.wire encode (p :: ps) =
        F.first :: F.second :: (encode p.length ++ (p ++ F.wire encode ps)) := by
      simp [Format.wire]
    have hframes : F.frames (F.wire encode (p :: ps)) =
        F.pending (.size (encode p.length)) (p ++ F.wire encode ps) := by
      rw [hwire]
      rfl
    rw [hframes, F.pending_size_done hsize, List.forall_mem_cons]
    by_cases hread : F.readSize (encode p.length) = p.length
    · rw [hread, if_pos (hfits p List.mem_cons_self), F.pending_payload_nil, if_neg (by simp),
        List.take_left' rfl, List.drop_left' rfl]
      simpa using htail
    · simp only [hread, false_and, iff_false]
      split
      · rw [F.pending_payload_nil]
        split
        · simp
        · next hlong =>
          intro h
          have hlen := congrArg List.length (List.cons.inj h).1
          rw [List.length_take] at hlen
          omega
      · intro h
        have hcost := F.frames_cost (p ++ F.wire encode ps)
        have hwritten := F.wire_length fun q hq => hwidth q (List.mem_cons_of_mem p hq)
        rw [show F.frames (p ++ F.wire encode ps) = p :: ps from h, List.map_cons, List.sum_cons,
          List.length_append, hwritten] at hcost
        omega

end Framing
