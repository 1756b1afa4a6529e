import SensorForge.LittleEndian

/-! Segment files are told apart by a decimal number in their names. Printing a
number and parsing it back is the identity on all 32-bit values. -/

namespace SensorForge.Replay

def kSegmentPrefix : String := "segment-"
def kSegmentSuffix : String := ".sflog"
def kDefaultSegmentBytes : Nat := 64 * 1024 * 1024

/-- `std::setw(6)` with fill `0`: at least six digits. -/
def paddedDigits (n : Nat) : List Char := (Nat.toDigits 10 n).leftpad 6 '0'

def segmentFilename (segmentId : UInt32) : String :=
  kSegmentPrefix ++ String.ofList (paddedDigits segmentId.toNat) ++ kSegmentSuffix

/-- The digit loop, which gives up with 0 at the first other character and wraps at
32 bits. -/
def parseDigits : List Char → UInt32 → UInt32
  | [], id => id
  | c :: cs, id =>
    if c < '0' ∨ c > '9' then 0 else parseDigits cs (id * 10 + (c.toNat - '0'.toNat).toUInt32)

/-- 0 stands for a name that is not a segment's. -/
def segmentIdFromFilename (name : String) : UInt32 :=
  let chars := name.toList
  let front := kSegmentPrefix.toList
  let back := kSegmentSuffix.toList
  if chars.length ≤ front.length + back.length then 0 else
  if chars.take front.length ≠ front then 0 else
  if chars.drop (chars.length - back.length) ≠ back then 0 else
  let digits := (chars.drop front.length).take (chars.length - front.length - back.length)
  if digits.isEmpty then 0 else
  parseDigits digits 0

def isDecimal (c : Char) : Prop := '0' ≤ c ∧ c ≤ '9'

theorem parseDigits_append {as : List Char} (h : ∀ c ∈ as, isDecimal c) (bs : List Char)
    (id : UInt32) : parseDigits (as ++ bs) id = parseDigits bs (parseDigits as id) := by
  induction as generalizing id with
  | nil => rfl
  | cons c as ih =>
    obtain ⟨h0, h9⟩ := h c List.mem_cons_self
    have hc : ¬ (c < '0' ∨ c > '9') := not_or.mpr ⟨not_lt.mpr h0, not_lt.mpr h9⟩
    simp only [List.cons_append, parseDigits, if_neg hc]
    exact ih (fun d hd => h d (List.mem_cons_of_mem c hd)) _

theorem digitChar_decimal {d : Nat} (h : d < 10) :
    isDecimal d.digitChar ∧ d.digitChar.toNat - '0'.toNat = d := by
  interval_cases d <;> exact ⟨⟨by decide, by decide⟩, rfl⟩

theorem toDigits_decimal (n : Nat) : ∀ c ∈ Nat.toDigits 10 n, isDecimal c := by
  induction n using Nat.strongRecOn with
  | ind n ih =>
    intro c hc
    by_cases hn : n < 10
    · rw [Nat.toDigits_of_lt_base hn, List.mem_singleton] at hc
      exact hc ▸ (digitChar_decimal hn).1
    · rw [Nat.toDigits_of_base_le (by omega) (by omega), List.mem_append, List.mem_singleton] at hc
      rcases hc with hc | rfl
      · exact ih (n / 10) (by omega) c hc
      · exact (digitChar_decimal (Nat.mod_lt n (by omega))).1

theorem parseDigits_toDigits (n : Nat) : parseDigits (Nat.toDigits 10 n) 0 = n.toUInt32 := by
  have hone : ∀ d < 10, ∀ id : UInt32,
      parseDigits [d.digitChar] id = id * 10 + d.toUInt32 := by
    intro d hd id
    obtain ⟨⟨h0, h9⟩, hval⟩ := digitChar_decimal hd
    have hc : ¬ (d.digitChar < '0' ∨ d.digitChar > '9') :=
      not_or.mpr ⟨not_lt.mpr h0, not_lt.mpr h9⟩
    simp only [parseDigits, if_neg hc, hval]
  induction n using Nat.strongRecOn with
  | ind n ih =>
    by_cases hn : n < 10
    · rw [Nat.toDigits_of_lt_base hn, hone n hn]
      simp
    · rw [Nat.toDigits_of_base_le (by omega) (by omega),
        parseDigits_append (toDigits_decimal _), ih (n / 10) (by omega),
        hone _ (Nat.mod_lt n (by omega))]
      have hn' : n = n / 10 * 10 + n % 10 := by omega
      conv_rhs => rw [hn']
      simp [Nat.toUInt32]

theorem parseDigits_zeros (k : Nat) (cs : List Char) :
    parseDigits (List.replicate k '0' ++ cs) 0 = parseDigits cs 0 := by
  induction k with
  | zero => rfl
  | succ k ih =>
    rw [List.replicate_succ, List.cons_append, parseDigits, if_neg (by decide)]
    exact ih

theorem segmentIdFromFilename_digits {digits : List Char} (hne : digits ≠ []) :
    segmentIdFromFilename (kSegmentPrefix ++ String.ofList digits ++ kSegmentSuffix) =
      parseDigits digits 0 := by
  generalize hname : kSegmentPrefix ++ String.ofList digits ++ kSegmentSuffix = name
  have hchars : name.toList = kSegmentPrefix.toList ++ (digits ++ kSegmentSuffix.toList) := by
    simp [← hname, List.append_assoc]
  have hpos : 0 < digits.length := List.length_pos_of_ne_nil hne
  have hempty : digits.isEmpty = false := by simpa [List.isEmpty_iff] using hne
  have hlen : name.toList.length = kSegmentPrefix.toList.length +
      (digits.length + kSegmentSuffix.toList.length) := by
    rw [hchars]
    simp only [List.length_append]
  have hback : name.toList.drop (name.toList.length - kSegmentSuffix.toList.length) =
      kSegmentSuffix.toList := by
    rw [hlen, hchars, ← List.append_assoc]
    exact List.drop_left' (by simp only [List.length_append]; omega)
  have hdigits : (name.toList.drop kSegmentPrefix.toList.length).take
      (name.toList.length - kSegmentPrefix.toList.length - kSegmentSuffix.toList.length) =
        digits := by
    rw [hlen, hchars, List.drop_left' rfl]
    exact List.take_left' (by omega)
  have hfront : name.toList.take kSegmentPrefix.toList.length = kSegmentPrefix.toList := by
    rw [hchars]
    exact List.take_left' rfl
  have hnot : ¬ name.toList.length ≤
      kSegmentPrefix.toList.length + kSegmentSuffix.toList.length := by omega
  simp only [segmentIdFromFilename, if_neg hnot, hfront, hback, hdigits, hempty, ne_eq, not_true,
    if_false, Bool.false_eq_true]

theorem paddedDigits_ne_nil (n : Nat) : paddedDigits n ≠ [] := by
  have hpos := @Nat.length_toDigits_pos 10 n
  apply List.ne_nil_of_length_pos
  simp only [paddedDigits, List.leftpad, List.length_append]
  omega

theorem segmentIdFromFilename_segmentFilename (id : UInt32) :
    segmentIdFromFilename (segmentFilename id) = id := by
  rw [segmentFilename, segmentIdFromFilename_digits (paddedDigits_ne_nil _), paddedDigits,
    List.leftpad, parseDigits_zeros, parseDigits_toDigits]
  simp

theorem segmentFilename_injective : Function.Injective segmentFilename :=
  Function.LeftInverse.injective segmentIdFromFilename_segmentFilename

example : segmentFilename 7 = "segment-000007.sflog" := by decide

end SensorForge.Replay
