import SensorForge.WalReader

/-! Which names are read as the number of a segment, and when it is the number that the
name was made of. -/

namespace SensorForge.Replay

open Nat (ofDigitChars)

/-- A number as `segmentFilename` prints it: in six digits, or in more without a zero in
front. -/
structure Printed (digits : List Char) : Prop where
  inRange : ofDigitChars 10 digits 0 < 2 ^ 32
  width : 6 ≤ digits.length
  padded : digits.head? = some '0' → digits.length = 6

/-- If the name is that of a segment at all, it has been printed. -/
def PlainName (name : String) : Prop :=
  ∀ digits, name = kSegmentPrefix ++ String.ofList digits ++ kSegmentSuffix →
    (∀ c ∈ digits, isDecimal c) → ofDigitChars 10 digits 0 % 2 ^ 32 ≠ 0 → Printed digits

theorem parseDigits_value {digits : List Char} (h : ∀ c ∈ digits, isDecimal c) (n : Nat) :
    parseDigits digits n.toUInt32 = (ofDigitChars 10 digits n).toUInt32 := by
  induction digits generalizing n with
  | nil => rfl
  | cons c cs ih =>
    obtain ⟨h0, h9⟩ := h c List.mem_cons_self
    have hc : ¬ (c < '0' ∨ c > '9') := not_or.mpr ⟨not_lt.mpr h0, not_lt.mpr h9⟩
    have hstep : n.toUInt32 * 10 + (c.toNat - '0'.toNat).toUInt32 =
        (10 * n + (c.toNat - '0'.toNat)).toUInt32 := by
      simp [Nat.toUInt32, mul_comm]
    rw [parseDigits, if_neg hc, hstep, Nat.ofDigitChars_cons]
    exact ih (fun d hd => h d (List.mem_cons_of_mem c hd)) _

theorem parseDigits_decimal {digits : List Char} {id : UInt32} (h : parseDigits digits id ≠ 0) :
    ∀ c ∈ digits, isDecimal c := by
  induction digits generalizing id with
  | nil => simp
  | cons c cs ih =>
    rw [parseDigits] at h
    split at h
    · exact absurd rfl h
    · next hc =>
      rw [not_or, not_lt, not_lt] at hc
      intro d hd
      rcases List.mem_cons.mp hd with rfl | hd
      · exact hc
      · exact ih h d hd

theorem take_middle_drop {l : List Char} {m n : Nat} (h : m + n ≤ l.length) :
    l.take m ++ (l.drop m).take (l.length - m - n) ++ l.drop (l.length - n) = l := by
  have hdrop : l.drop (l.length - n) = (l.drop m).drop (l.length - m - n) := by
    rw [List.drop_drop]
    congr 1
    omega
  rw [hdrop, List.append_assoc, List.take_append_drop, List.take_append_drop]

/-- A name that is read as a number holds the digits of it. -/
theorem exists_digits {name : String} (h : segmentIdFromFilename name ≠ 0) :
    ∃ digits, name = kSegmentPrefix ++ String.ofList digits ++ kSegmentSuffix ∧
      (∀ c ∈ digits, isDecimal c) ∧
      segmentIdFromFilename name = (ofDigitChars 10 digits 0).toUInt32 := by
  obtain ⟨digits, hne, hname⟩ : ∃ digits, digits ≠ [] ∧
      name = kSegmentPrefix ++ String.ofList digits ++ kSegmentSuffix := by
    by_contra hnone
    apply h
    simp only [segmentIdFromFilename]
    split_ifs with hlen hfront hback hempty
    · rfl
    · rfl
    · rfl
    · rfl
    · rw [not_not] at hfront hback
      refine absurd ⟨_, mt List.isEmpty_iff.mpr hempty, ?_⟩ hnone
      have hmiddle := take_middle_drop (Nat.le_of_not_le hlen)
      rw [hfront, hback] at hmiddle
      apply String.toList_injective
      rw [String.toList_append, String.toList_append, String.toList_ofList]
      exact hmiddle.symm
  have hid := segmentIdFromFilename_digits hne
  rw [← hname] at hid
  have hdecimal := parseDigits_decimal (hid ▸ h)
  exact ⟨digits, hname, hdecimal, hid.trans (parseDigits_value hdecimal 0)⟩

theorem isDecimal_digit {c : Char} (h : isDecimal c) : ∃ d < 10, c = d.digitChar := by
  obtain ⟨h0, h9⟩ := h
  have hlo : '0'.toNat ≤ c.toNat := h0
  have hhi : c.toNat ≤ '9'.toNat := h9
  have hlt : c.toNat - '0'.toNat < 10 := by
    simp only [Char.reduceToNat] at hhi ⊢
    omega
  refine ⟨c.toNat - '0'.toNat, hlt, Char.toNat_inj.mp ?_⟩
  have hval := (digitChar_decimal hlt).2
  have hle : '0'.toNat ≤ (c.toNat - '0'.toNat).digitChar.toNat := (digitChar_decimal hlt).1.1
  omega

theorem value_append {ds : List Char} {d : Nat} (hd : d < 10) :
    ofDigitChars 10 (ds ++ [d.digitChar]) 0 = 10 * ofDigitChars 10 ds 0 + d := by
  rw [Nat.ofDigitChars_append, Nat.ofDigitChars_cons_digitChar_of_lt_ten hd, Nat.ofDigitChars_nil]

theorem dropWhile_of_value_zero {digits : List Char} (h : ∀ c ∈ digits, isDecimal c)
    (hzero : ofDigitChars 10 digits 0 = 0) : digits.dropWhile (· = '0') = [] := by
  induction digits using List.reverseRecOn with
  | nil => rfl
  | append_singleton ds c ih =>
    obtain ⟨d, hd, rfl⟩ := isDecimal_digit (h c (by simp))
    rw [value_append hd] at hzero
    obtain rfl : d = 0 := by omega
    rw [List.dropWhile_append, ih (fun e he => h e (List.mem_append_left _ he)) (by omega)]
    rfl

/-- Printing the value of some digits drops the zeros in front of them. -/
theorem toDigits_value {digits : List Char} (h : ∀ c ∈ digits, isDecimal c)
    (hne : ofDigitChars 10 digits 0 ≠ 0) :
    Nat.toDigits 10 (ofDigitChars 10 digits 0) = digits.dropWhile (· = '0') := by
  induction digits using List.reverseRecOn with
  | nil => exact absurd rfl hne
  | append_singleton ds c ih =>
    have hds : ∀ d ∈ ds, isDecimal d := fun d hd => h d (List.mem_append_left _ hd)
    obtain ⟨d, hd, rfl⟩ := isDecimal_digit (h c (by simp))
    rw [value_append hd] at hne ⊢
    rw [List.dropWhile_append]
    by_cases hzero : ofDigitChars 10 ds 0 = 0
    · have hd0 : d.digitChar ≠ '0' := by
        rw [ne_eq, Nat.digitChar_eq_zero]
        omega
      rw [dropWhile_of_value_zero hds hzero, hzero]
      simp [Nat.toDigits_of_lt_base hd, hd0]
    · have hfront : (ds.dropWhile (· = '0')).isEmpty = false := by
        rw [← ih hds hzero, List.isEmpty_eq_false_iff]
        exact List.ne_nil_of_length_pos Nat.length_toDigits_pos
      rw [Nat.toDigits_of_base_le (by omega) (by omega), hfront, ← ih hds hzero]
      have hdiv : (10 * ofDigitChars 10 ds 0 + d) / 10 = ofDigitChars 10 ds 0 := by omega
      have hmod : (10 * ofDigitChars 10 ds 0 + d) % 10 = d := by omega
      rw [hdiv, hmod]
      rfl

/-- The digits are the ones that are printed for their value. -/
theorem eq_paddedDigits_iff {digits : List Char} (h : ∀ c ∈ digits, isDecimal c)
    (hne : ofDigitChars 10 digits 0 ≠ 0) :
    digits = paddedDigits (ofDigitChars 10 digits 0) ↔
      6 ≤ digits.length ∧ (digits.head? = some '0' → digits.length = 6) := by
  rw [paddedDigits, toDigits_value h hne, List.leftpad]
  have hzeros : digits.takeWhile (· = '0') =
      List.replicate (digits.takeWhile (· = '0')).length '0' := by
    refine List.eq_replicate_iff.mpr ⟨rfl, fun c hc => ?_⟩
    simpa using List.mem_takeWhile_imp hc
  have hsplit : digits = List.replicate (digits.takeWhile (· = '0')).length '0' ++
      digits.dropWhile (· = '0') := by
    rw [← hzeros, List.takeWhile_append_dropWhile]
  have hlength := congrArg List.length hsplit
  rw [List.length_append, List.length_replicate] at hlength
  have hhead : digits.head? = some '0' ↔ 0 < (digits.takeWhile (· = '0')).length := by
    cases digits with
    | nil => simp
    | cons c cs =>
      by_cases hc : c = '0'
      · simp [hc]
      · simp [hc]
  have heq : digits = List.replicate (6 - (digits.dropWhile (· = '0')).length) '0' ++
      digits.dropWhile (· = '0') ↔ (digits.takeWhile (· = '0')).length =
        6 - (digits.dropWhile (· = '0')).length := by
    nth_rewrite 1 [hsplit]
    rw [List.append_cancel_right_eq, List.replicate_left_inj]
  rw [heq, hhead]
  omega

theorem name_inj {as bs : List Char} (h : kSegmentPrefix ++ String.ofList as ++ kSegmentSuffix =
    kSegmentPrefix ++ String.ofList bs ++ kSegmentSuffix) : as = bs := by
  have hlists := congrArg String.toList h
  simpa [String.toList_append] using hlists

/-- A name is read as the number that it was made of exactly if it is not the name of a
segment, or its digits have been printed. -/
theorem reads_plain_iff (name : String) :
    (segmentIdFromFilename name ≠ 0 → name = segmentFilename (segmentIdFromFilename name)) ↔
      PlainName name := by
  constructor
  · intro h digits hname hdecimal hvalue
    have hne : digits ≠ [] := by
      rintro rfl
      exact hvalue rfl
    have hid : segmentIdFromFilename name = (ofDigitChars 10 digits 0).toUInt32 := by
      rw [hname, segmentIdFromFilename_digits hne]
      exact parseDigits_value hdecimal 0
    have hmod : (segmentIdFromFilename name).toNat = ofDigitChars 10 digits 0 % 2 ^ 32 := by
      rw [hid, Nat.toUInt32_eq, UInt32.toNat_ofNat']
    have hnonzero : segmentIdFromFilename name ≠ 0 := by
      intro hzero
      rw [hzero] at hmod
      exact hvalue hmod.symm
    have hdigits : digits = paddedDigits (segmentIdFromFilename name).toNat :=
      name_inj (hname.symm.trans (h hnonzero))
    have hback : ofDigitChars 10 (paddedDigits (segmentIdFromFilename name).toNat) 0 =
        (segmentIdFromFilename name).toNat := by
      rw [paddedDigits, List.leftpad, Nat.ofDigitChars_append, Nat.ofDigitChars_replicate_zero,
        Nat.mul_zero, Nat.ofDigitChars_ten_toDigits]
    rw [← hdigits] at hback
    have hprinted := (eq_paddedDigits_iff hdecimal (by omega)).mp (hback ▸ hdigits)
    exact ⟨by omega, hprinted.1, hprinted.2⟩
  · intro h hid
    obtain ⟨digits, hname, hdecimal, hvalue⟩ := exists_digits hid
    have hmod : (segmentIdFromFilename name).toNat = ofDigitChars 10 digits 0 % 2 ^ 32 := by
      rw [hvalue, Nat.toUInt32_eq, UInt32.toNat_ofNat']
    have hnonzero : ofDigitChars 10 digits 0 % 2 ^ 32 ≠ 0 := by
      intro hzero
      rw [hzero] at hmod
      exact hid (UInt32.toNat_inj.mp hmod)
    obtain ⟨hrange, hwidth, hpadded⟩ := h digits hname hdecimal hnonzero
    rw [Nat.mod_eq_of_lt hrange] at hmod hnonzero
    rw [segmentFilename, hmod, ← (eq_paddedDigits_iff hdecimal hnonzero).mpr ⟨hwidth, hpadded⟩]
    exact hname

/-- A number is read back from its name, and a name gives a number only if it is the name
of it, exactly for the plain names; among files of such names no two are the same segment. -/
theorem segment_names_iff (id : UInt32) (name : String) (listing : List File) :
    segmentIdFromFilename (segmentFilename id) = id ∧
    ((segmentIdFromFilename name ≠ 0 → name = segmentFilename (segmentIdFromFilename name)) ↔
      PlainName name) ∧
    ((listing.map Sigma.fst).Nodup → (∀ f ∈ listing, PlainName f.1) →
      ((segmentFiles listing).map Prod.fst).Nodup) := by
  refine ⟨segmentIdFromFilename_segmentFilename id, reads_plain_iff name, fun hnames hplain => ?_⟩
  rw [List.nodup_iff_pairwise_ne, List.pairwise_map] at hnames ⊢
  rw [segmentFiles, List.pairwise_filterMap]
  refine hnames.imp_of_mem fun {f g} hf hg hne a ha b hb => ?_
  dsimp only at ha hb
  split at ha <;> cases ha
  next hfid =>
  split at hb <;> cases hb
  next hgid =>
  intro hsame
  dsimp only at hsame
  apply hne
  rw [(reads_plain_iff f.1).mpr (hplain f hf) hfid, (reads_plain_iff g.1).mpr (hplain g hg) hgid,
    hsame]

/-- Three files are read as segment 1: one number has no zeros in front, one is too large. -/
theorem segment_names_clash :
    ¬ ((∀ id : UInt32, segmentIdFromFilename (segmentFilename id) = id) ∧
      ∀ name, segmentIdFromFilename name ≠ 0 →
        name = segmentFilename (segmentIdFromFilename name)) ∧
    (segmentFiles [⟨"segment-000001.sflog", []⟩, ⟨"segment-1.sflog", []⟩,
      ⟨"segment-4294967297.sflog", []⟩]).map Prod.fst = [1, 1, 1] := by
  refine ⟨fun h => ?_, by decide⟩
  exact absurd (h.2 "segment-4294967297.sflog" (by decide)) (by decide)

end SensorForge.Replay
