import SensorForge.GeneralFormat

/-! The default format of an output stream for any number: six significant digits, with an
exponent where the point would be far from them, and what is read back from it. -/

namespace GeneralFormat

open PythonText

/-- The six digits, and the power of ten that the first of them counts. -/
def significand (q : ℚ) : Nat × Int :=
  let x := Int.log 10 q
  let m := (roundEven (q / 10 ^ (x - 5))).toNat
  if m = 10 ^ 6 then (10 ^ 5, x + 1) else (m, x)

/-- Zeros at the end are left out, and the point if nothing follows it. -/
def point (fraction : Text) : Text :=
  let fraction := fraction.rdropWhile (· = '0')
  if fraction = [] then [] else '.' :: fraction

def fixed (digits : Text) (x : Int) : Text :=
  if x < 0 then '0' :: point (List.replicate (-x - 1).toNat '0' ++ digits)
  else digits.take (x.toNat + 1) ++ point (digits.drop (x.toNat + 1))

def scientific : Text → Int → Text
  | [], _ => []
  | lead :: rest, x =>
    lead :: (point rest ++ 'e' :: (if x < 0 then '-' else '+') :: twoDigits x.natAbs)

def formatAbs (q : ℚ) : Text :=
  if q = 0 then ['0'] else
  let s := significand q
  if -4 ≤ s.2 ∧ s.2 < 6 then fixed (Nat.toDigits 10 s.1) s.2
  else scientific (Nat.toDigits 10 s.1) s.2

/-- `operator<<` of a double whose value is `q`. -/
def formatRat (q : ℚ) : Text := if q < 0 then '-' :: formatAbs (-q) else formatAbs q

def roundedAbs (q : ℚ) : ℚ := if q = 0 then 0 else (significand q).1 * 10 ^ ((significand q).2 - 5)

/-- The number that is written for `q`. -/
def roundedRat (q : ℚ) : ℚ := if q < 0 then -roundedAbs (-q) else roundedAbs q

section Rounding

theorem roundEven_bounds (x : ℚ) : ⌊x⌋ ≤ roundEven x ∧ roundEven x ≤ ⌊x⌋ + 1 := by
  unfold roundEven
  split <;> omega

variable {q : ℚ}

theorem scaled_bounds (hq : 0 < q) :
    (10 : ℚ) ^ 5 ≤ q / 10 ^ (Int.log 10 q - 5) ∧ q / 10 ^ (Int.log 10 q - 5) < 10 ^ 6 := by
  have hlo := Int.zpow_log_le_self (b := 10) (by decide) hq
  have hhi := Int.lt_zpow_succ_log_self (b := 10) (by decide) q
  have hpos : (0 : ℚ) < 10 ^ (Int.log 10 q - 5) := by positivity
  have hshift : ∀ n : Nat, (10 : ℚ) ^ n * 10 ^ (Int.log 10 q - 5) = 10 ^ (Int.log 10 q + (n - 5)) := by
    intro n
    rw [← zpow_natCast, ← zpow_add₀ (by norm_num)]
    congr 1
    ring
  constructor
  · rw [le_div_iff₀ hpos, hshift]
    simpa using hlo
  · rw [div_lt_iff₀ hpos, hshift]
    simpa using hhi

theorem significand_bounds (hq : 0 < q) :
    10 ^ 5 ≤ (significand q).1 ∧ (significand q).1 < 10 ^ 6 := by
  obtain ⟨hlo, hhi⟩ := scaled_bounds hq
  obtain ⟨hfloor, hceil⟩ := roundEven_bounds (q / 10 ^ (Int.log 10 q - 5))
  have hge : 10 ^ 5 ≤ ⌊q / 10 ^ (Int.log 10 q - 5)⌋ := Int.le_floor.mpr (by exact_mod_cast hlo)
  have hlt : ⌊q / 10 ^ (Int.log 10 q - 5)⌋ < 10 ^ 6 := Int.floor_lt.mpr (by exact_mod_cast hhi)
  dsimp only [significand]
  generalize roundEven (q / 10 ^ (Int.log 10 q - 5)) = r at hfloor hceil ⊢
  split
  · exact ⟨le_refl _, Nat.pow_lt_pow_right (by decide) (by decide)⟩
  · constructor <;> omega

end Rounding

section Reading

variable {U : Unicode} {w f e s : Text} {q : ℚ}

/-- Digits with a point among them and an exponent behind them. -/
theorem unsigned_decimal (negative : Bool) {x : Int} (hne : w ≠ [])
    (hw : ∀ c ∈ w, isAsciiDigit c = true) (hf : ∀ c ∈ f, isAsciiDigit c = true)
    (hmark : ∀ c, e.head? = some c → isExponentMark c = true) (hx : exponent U e = some x) :
    unsigned U negative (w ++ (if f = [] then [] else '.' :: f) ++ e) =
      some (.num (if negative then -(Nat.ofDigitChars 10 (w ++ f) 0 * 10 ^ (x - f.length))
        else Nat.ofDigitChars 10 (w ++ f) 0 * 10 ^ (x - f.length))) := by
  have hchars : ∀ c ∈ w ++ (if f = [] then [] else '.' :: f), (!isExponentMark c) = true := by
    refine List.forall_mem_append.mpr ⟨digits_notMark hw, ?_⟩
    split
    · exact fun c hc => absurd hc List.not_mem_nil
    · exact List.forall_mem_cons.mpr ⟨by decide, digits_notMark hf⟩
  have hstop : e.takeWhile (fun c => !isExponentMark c) = [] ∧
      e.dropWhile (fun c => !isExponentMark c) = e := by
    cases e with
    | nil => exact ⟨rfl, rfl⟩
    | cons c e =>
      have hc := hmark c rfl
      exact ⟨List.takeWhile_cons_of_neg (by simp [hc]), List.dropWhile_cons_of_neg (by simp [hc])⟩
  have hmantissa : mantissa U (w ++ if f = [] then [] else '.' :: f) =
      some (w.map fun c => c.toNat - '0'.toNat, f.map fun c => c.toNat - '0'.toNat) := by
    split
    · next hnil =>
      rw [hnil, List.append_nil]
      exact mantissa_whole hne hw
    · next hcons => exact mantissa_point hne hw hcons hf
  obtain ⟨c, rest, hc⟩ := List.exists_cons_of_ne_nil hne
  have htext : w ++ (if f = [] then [] else '.' :: f) ++ e =
      c :: (rest ++ (if f = [] then [] else '.' :: f) ++ e) := by
    rw [hc]
    rfl
  rw [htext, unsigned_eq (hw c (by rw [hc]; exact List.mem_cons_self)), ← htext,
    List.takeWhile_append_of_pos hchars, List.dropWhile_append_of_pos hchars, hstop.1, hstop.2,
    List.append_nil, hmantissa, hx]
  simp only [Option.bind_some, Option.map_some, ← List.map_append, ofDigitList_map,
    List.length_map]

/-- The zeros that are left out change nothing. -/
theorem unsigned_point (negative : Bool) {x : Int} (hne : w ≠ [])
    (hw : ∀ c ∈ w, isAsciiDigit c = true) (hf : ∀ c ∈ f, isAsciiDigit c = true)
    (hmark : ∀ c, e.head? = some c → isExponentMark c = true) (hx : exponent U e = some x)
    (hq : q = Nat.ofDigitChars 10 (w ++ f) 0 * 10 ^ (x - f.length)) :
    unsigned U negative (w ++ point f ++ e) = some (.num (if negative then -q else q)) := by
  obtain ⟨z, hz⟩ := rdropWhile_zeros f
  have hshort : ∀ c ∈ f.rdropWhile (· = '0'), isAsciiDigit c = true := by
    intro c hc
    refine hf c ?_
    rw [hz]
    exact List.mem_append_left _ hc
  have hvalue : q = Nat.ofDigitChars 10 (w ++ f.rdropWhile (· = '0')) 0 *
      10 ^ (x - (f.rdropWhile (· = '0')).length) := by
    have hlength : (f.length : Int) = (f.rdropWhile (· = '0')).length + z := by
      have h := congrArg List.length hz
      rw [List.length_append, List.length_replicate] at h
      exact_mod_cast h
    have hdigits : Nat.ofDigitChars 10 (w ++ f) 0 =
        10 ^ z * Nat.ofDigitChars 10 (w ++ f.rdropWhile (· = '0')) 0 := by
      conv_lhs => rw [hz, ← List.append_assoc, Nat.ofDigitChars_append,
        Nat.ofDigitChars_replicate_zero]
    have hexp : x - ((f.rdropWhile (· = '0')).length : Int) = x - f.length + z := by
      rw [hlength]
      ring
    rw [hq, hdigits, hexp, zpow_add₀ (by norm_num), zpow_natCast]
    push_cast
    ring
  rw [hvalue]
  exact unsigned_decimal negative hne hw hshort hmark hx

theorem exponent_scientific (x : Int) :
    exponent U ('e' :: (if x < 0 then '-' else '+') :: twoDigits x.natAbs) = some x := by
  have hdigits := digitPart_digits (U := U) (twoDigits_ne_nil x.natAbs) (twoDigits_ascii x.natAbs)
  have hvalue : ofDigitList ((twoDigits x.natAbs).map fun c => c.toNat - '0'.toNat) = x.natAbs := by
    rw [ofDigitList_map, ofDigitChars_twoDigits]
  by_cases hneg : x < 0
  · have hx : -(x.natAbs : Int) = x := by omega
    simp only [if_pos hneg, exponent, splitSign, hdigits, Option.map_some, hvalue, if_true, hx]
  · have hx : (x.natAbs : Int) = x := by omega
    simp only [if_neg hneg, exponent, splitSign, hdigits, Option.map_some, hvalue,
      Bool.false_eq_true, if_false, hx]

theorem length_sixDigits {m : Nat} (hlo : 10 ^ 5 ≤ m) (hhi : m < 10 ^ 6) :
    (Nat.toDigits 10 m).length = 6 := by
  have hle := (Nat.length_toDigits_le_iff (by decide) (by decide : 0 < 6)).mpr hhi
  have hgt := mt (Nat.length_toDigits_le_iff (by decide) (by decide : 0 < 5)).mp (not_lt.mpr hlo)
  omega

theorem unsigned_fixed (negative : Bool) {m : Nat} {x : Int} (hlo : 10 ^ 5 ≤ m) (hhi : m < 10 ^ 6)
    (hx : x < 6) (hq : q = m * 10 ^ (x - 5)) :
    unsigned U negative (fixed (Nat.toDigits 10 m) x) =
      some (.num (if negative then -q else q)) := by
  have hlength := length_sixDigits hlo hhi
  have hdigits := toDigits_ascii m
  have hnone : ∀ c, ([] : Text).head? = some c → isExponentMark c = true := by
    rintro c ⟨⟩
  rw [← List.append_nil (fixed _ x)]
  unfold fixed
  split
  · next hneg =>
    have hzeros : ∀ c ∈ List.replicate (-x - 1).toNat '0' ++ Nat.toDigits 10 m,
        isAsciiDigit c = true := by
      refine List.forall_mem_append.mpr ⟨fun c hc => ?_, hdigits⟩
      rw [List.eq_of_mem_replicate hc]
      decide
    refine unsigned_point (w := ['0']) negative (List.cons_ne_nil _ _)
      (List.forall_mem_singleton.mpr (by decide)) hzeros hnone rfl ?_
    have hvalue : Nat.ofDigitChars 10
        (['0'] ++ (List.replicate (-x - 1).toNat '0' ++ Nat.toDigits 10 m)) 0 = m := by
      rw [← List.append_assoc, ← List.replicate_one, List.replicate_append_replicate,
        Nat.ofDigitChars_append, Nat.ofDigitChars_replicate_zero, Nat.mul_zero,
        Nat.ofDigitChars_ten_toDigits]
    rw [hq, hvalue, List.length_append, List.length_replicate, hlength]
    congr 2
    omega
  · next hpos =>
    have hne : (Nat.toDigits 10 m).take (x.toNat + 1) ≠ [] := by
      intro hnil
      have h := congrArg List.length hnil
      rw [List.length_take, hlength, List.length_nil] at h
      omega
    refine unsigned_point negative hne (fun c hc => hdigits c (List.mem_of_mem_take hc))
      (fun c hc => hdigits c (List.mem_of_mem_drop hc)) hnone rfl ?_
    rw [hq, List.take_append_drop, Nat.ofDigitChars_ten_toDigits, List.length_drop, hlength]
    congr 2
    omega

theorem unsigned_scientific (negative : Bool) {m : Nat} {x : Int} (hlo : 10 ^ 5 ≤ m)
    (hhi : m < 10 ^ 6) (hq : q = m * 10 ^ (x - 5)) :
    unsigned U negative (scientific (Nat.toDigits 10 m) x) =
      some (.num (if negative then -q else q)) := by
  have hlength := length_sixDigits hlo hhi
  have hdigits := toDigits_ascii m
  have hvalue := @Nat.ofDigitChars_ten_toDigits m
  cases hd : Nat.toDigits 10 m with
  | nil =>
    rw [hd] at hlength
    cases hlength
  | cons lead rest =>
    rw [hd] at hlength hdigits hvalue
    obtain ⟨hlead, hrest⟩ := List.forall_mem_cons.mp hdigits
    refine unsigned_point (w := [lead]) negative (List.cons_ne_nil _ _)
      (List.forall_mem_singleton.mpr hlead) hrest ?_ (exponent_scientific x) ?_
    · rintro c ⟨⟩
      decide
    · have hfive : rest.length = 5 := Nat.succ.inj hlength
      rw [List.singleton_append, hvalue, hfive, hq]
      rfl

theorem unsigned_formatAbs (negative : Bool) (hq : 0 ≤ q) :
    unsigned U negative (formatAbs q) =
      some (.num (if negative then -roundedAbs q else roundedAbs q)) := by
  unfold formatAbs roundedAbs
  split
  · have hzero := unsigned_digits (U := U) negative (List.cons_ne_nil '0' [])
      (List.forall_mem_singleton.mpr (by decide))
    have hdigit : Nat.ofDigitChars 10 ['0'] 0 = 0 := rfl
    simpa [hdigit] using hzero
  · next hne =>
    obtain ⟨hlo, hhi⟩ := significand_bounds (lt_of_le_of_ne hq (Ne.symm hne))
    dsimp only
    split
    · next hx => exact unsigned_fixed negative hlo hhi hx.2 rfl
    · exact unsigned_scientific negative hlo hhi rfl

theorem digit_numeral {c : Char} (hc : isAsciiDigit c = true) : isNumeral c = true := by
  rw [isNumeral, hc, Bool.true_or]

theorem point_chars (hf : ∀ c ∈ f, isAsciiDigit c = true) : ∀ c ∈ point f, isNumeral c = true := by
  obtain ⟨z, hz⟩ := rdropWhile_zeros f
  have hshort : ∀ c ∈ f.rdropWhile (· = '0'), isNumeral c = true := by
    intro c hc
    refine digit_numeral (hf c ?_)
    rw [hz]
    exact List.mem_append_left _ hc
  unfold point
  dsimp only
  split
  · exact fun c hc => absurd hc List.not_mem_nil
  · exact List.forall_mem_cons.mpr ⟨by decide, hshort⟩

theorem fixed_chars {digits : Text} (h : ∀ c ∈ digits, isAsciiDigit c = true) (x : Int) :
    ∀ c ∈ fixed digits x, isNumeral c = true := by
  unfold fixed
  split
  · refine List.forall_mem_cons.mpr ⟨by decide, point_chars (List.forall_mem_append.mpr ⟨?_, h⟩)⟩
    intro c hc
    rw [List.eq_of_mem_replicate hc]
    decide
  · exact List.forall_mem_append.mpr ⟨fun c hc => digit_numeral (h c (List.mem_of_mem_take hc)),
      point_chars fun c hc => h c (List.mem_of_mem_drop hc)⟩

theorem scientific_chars {digits : Text} (h : ∀ c ∈ digits, isAsciiDigit c = true) (x : Int) :
    ∀ c ∈ scientific digits x, isNumeral c = true := by
  cases digits with
  | nil => exact fun c hc => absurd hc List.not_mem_nil
  | cons lead rest =>
    obtain ⟨hlead, hrest⟩ := List.forall_mem_cons.mp h
    have hsign : isNumeral (if x < 0 then '-' else '+') = true := by split <;> decide
    refine List.forall_mem_cons.mpr ⟨digit_numeral hlead, List.forall_mem_append.mpr
      ⟨point_chars hrest, List.forall_mem_cons.mpr ⟨by decide, List.forall_mem_cons.mpr
        ⟨hsign, fun c hc => digit_numeral (twoDigits_ascii _ c hc)⟩⟩⟩⟩

theorem formatRat_chars (q : ℚ) : ∀ c ∈ formatRat q, isNumeral c = true := by
  have habs : ∀ r : ℚ, ∀ c ∈ formatAbs r, isNumeral c = true := by
    intro r
    unfold formatAbs
    split
    · exact List.forall_mem_singleton.mpr (by decide)
    · dsimp only
      split
      · exact fixed_chars (toDigits_ascii _) _
      · exact scientific_chars (toDigits_ascii _) _
  unfold formatRat
  split
  · exact List.forall_mem_cons.mpr ⟨by decide, habs _⟩
  · exact habs _

theorem formatAbs_head (q : ℚ) : ∃ c rest, formatAbs q = c :: rest ∧ isAsciiDigit c = true := by
  obtain ⟨c, rest, hd⟩ := List.exists_cons_of_ne_nil (@Nat.toDigits_ne_nil (significand q).1 10)
  have hc : isAsciiDigit c = true :=
    toDigits_ascii (significand q).1 c (by rw [hd]; exact List.mem_cons_self)
  unfold formatAbs
  split
  · exact ⟨'0', [], rfl, by decide⟩
  · dsimp only
    split
    · unfold fixed
      split
      · exact ⟨'0', _, rfl, by decide⟩
      · rw [hd]
        exact ⟨c, _, rfl, hc⟩
    · rw [hd]
      exact ⟨c, _, rfl, hc⟩

theorem formatRat_ne_nil (q : ℚ) : formatRat q ≠ [] := by
  obtain ⟨c, rest, h, -⟩ := formatAbs_head q
  unfold formatRat
  split
  · exact List.cons_ne_nil _ _
  · rw [h]
    exact List.cons_ne_nil _ _

/-- Reading back what is written gives the double nearest to the number of six digits. -/
theorem float_formatRat (U : Unicode) (q : ℚ) :
    float U (formatRat q) = some (nearest (roundedRat q)) := by
  unfold formatRat roundedRat
  split
  · next h =>
    rw [float_minus, unsigned_formatAbs true (by linarith)]
    rfl
  · next h =>
    obtain ⟨c, rest, htext, hc⟩ := formatAbs_head q
    rw [htext, float_digit hc, ← htext, unsigned_formatAbs false (not_lt.mp h)]
    rfl

end Reading

section Whole

variable {n : Nat}

theorem toDigits_mul_pow (hn : 0 < n) (k : Nat) :
    Nat.toDigits 10 (n * 10 ^ k) = Nat.toDigits 10 n ++ List.replicate k '0' := by
  induction k with
  | zero => simp
  | succ k ih =>
    have hstep := Nat.toDigits_append_toDigits (b := 10) (d := 0) (by decide)
      (Nat.mul_pos hn (Nat.pow_pos (n := k) (by decide : 0 < 10))) (by decide)
    rw [pow_succ, ← Nat.mul_assoc, Nat.mul_comm _ 10, ← Nat.add_zero (10 * _), ← hstep, ih,
      List.append_assoc, List.replicate_succ']
    rfl

theorem roundEven_div (n : Nat) {d : Nat} (hd : 0 < d) :
    roundEven ((n : ℚ) / d) = roundHalfEven n d := by
  have hpos : (0 : ℚ) < d := by exact_mod_cast hd
  have hlt : ((n % d : Nat) : ℚ) / d < 1 / 2 ↔ 2 * (n % d) < d := by
    rw [div_lt_div_iff₀ hpos (by norm_num), mul_comm, one_mul]
    exact_mod_cast Iff.rfl
  have heq : ((n % d : Nat) : ℚ) / d = 1 / 2 ↔ 2 * (n % d) = d := by
    rw [div_eq_div_iff hpos.ne' (by norm_num), mul_comm, one_mul]
    exact_mod_cast Iff.rfl
  have hparity : ((n : Int) / d) % 2 = 0 ↔ n / d % 2 = 0 := by exact_mod_cast Iff.rfl
  rw [roundEven, roundHalfEven, Int.fract_div_natCast_eq_div_natCast_mod,
    Rat.floor_natCast_div_natCast]
  simp only [hlt, heq, hparity]
  split <;> push_cast <;> rfl

/-- Below a million the digits are the number's own. -/
theorem formatAbs_small (hn : n < 10 ^ 6) : formatAbs n = Nat.toDigits 10 n := by
  rcases Nat.eq_zero_or_pos n with rfl | hpos
  · rfl
  · have hlog : Nat.log 10 n ≤ 5 := Nat.le_of_lt_succ (Nat.log_lt_of_lt_pow hpos.ne' hn)
    obtain ⟨k, hk⟩ := Nat.exists_eq_add_of_le hlog
    have hlt : n * 10 ^ k < 10 ^ 6 := by
      have hself := Nat.lt_pow_succ_log_self (b := 10) (by decide) n
      calc n * 10 ^ k < 10 ^ (Nat.log 10 n + 1) * 10 ^ k :=
            Nat.mul_lt_mul_of_pos_right hself (Nat.pow_pos (by decide))
        _ = 10 ^ 6 := by
            rw [← pow_add]
            congr 1
            omega
    have hscaled : (n : ℚ) / 10 ^ ((Nat.log 10 n : Int) - 5) = ((n * 10 ^ k : Nat) : Int) := by
      have hexp : (Nat.log 10 n : Int) - 5 = -(k : Int) := by omega
      rw [hexp, zpow_neg, div_inv_eq_mul, zpow_natCast]
      push_cast
      rfl
    have hsignificand : significand n = (n * 10 ^ k, (Nat.log 10 n : Int)) := by
      dsimp only [significand]
      rw [Int.log_natCast, hscaled, roundEven_intCast, Int.toNat_natCast, if_neg hlt.ne]
    have hlength : (Nat.toDigits 10 n).length = Nat.log 10 n + 1 := by
      have hle := (Nat.length_toDigits_le_iff (b := 10) (n := n) (by decide)
        (Nat.succ_pos (Nat.log 10 n))).mpr (Nat.lt_pow_succ_log_self (by decide) n)
      have hself := Nat.pow_log_le_self 10 hpos.ne'
      refine le_antisymm hle (not_lt.mp fun hshort => ?_)
      have hlog : 0 < Nat.log 10 n := by
        have := @Nat.length_toDigits_pos 10 n
        omega
      exact absurd ((Nat.length_toDigits_le_iff (by decide) hlog).mp (Nat.le_of_lt_succ hshort))
        (not_lt.mpr hself)
    have hzeros : point (List.replicate k '0') = [] := by
      have hnil : (List.replicate k '0').rdropWhile (· = '0') = [] :=
        List.rdropWhile_eq_nil_iff.mpr fun c hc => by simp [List.eq_of_mem_replicate hc]
      rw [point, hnil]
      rfl
    rw [formatAbs, if_neg (by exact_mod_cast hpos.ne'), hsignificand, if_pos (by omega), fixed,
      if_neg (by omega), Int.toNat_natCast, toDigits_mul_pow hpos, ← hlength, List.take_left,
      List.drop_left, hzeros, List.append_nil]

theorem scientific_natCast (digits : Text) (x : Nat) :
    scientific digits x = exponential digits x := by
  cases digits with
  | nil => rfl
  | cons lead rest =>
    rw [scientific, exponential, if_neg (by omega), Int.natAbs_natCast, point]

theorem formatAbs_natCast (n : Nat) : formatAbs n = formatNat n := by
  unfold formatNat
  split
  · next hn => exact formatAbs_small hn
  · next hn =>
    have hsix : 6 ≤ Nat.log 10 n := (Nat.le_log_iff_pow_le (by decide) (by omega)).mpr (by omega)
    have hlog : Nat.log 10 n = excess n + 5 := by
      rw [excess]
      omega
    have hscaled : (n : ℚ) / 10 ^ ((Nat.log 10 n : Int) - 5) = (n : ℚ) / (10 ^ excess n : Nat) := by
      have hexp : (Nat.log 10 n : Int) - 5 = (excess n : Nat) := by omega
      rw [hexp, zpow_natCast]
      push_cast
      rfl
    have hsignificand : significand n =
        if roundHalfEven n (10 ^ excess n) = 10 ^ 6 then (10 ^ 5, ((excess n + 6 : Nat) : Int))
        else (roundHalfEven n (10 ^ excess n), ((excess n + 5 : Nat) : Int)) := by
      dsimp only [significand]
      rw [Int.log_natCast, hscaled, roundEven_div n (Nat.pow_pos (by decide)), Int.toNat_natCast,
        hlog]
      push_cast
      rfl
    rw [formatAbs, if_neg (by exact_mod_cast (by omega : n ≠ 0))]
    dsimp only
    by_cases hcarry : roundHalfEven n (10 ^ excess n) = 10 ^ 6
    · rw [if_pos hcarry] at hsignificand
      rw [hsignificand, if_pos hcarry, if_neg (by omega), scientific_natCast]
    · rw [if_neg hcarry] at hsignificand
      rw [hsignificand, if_neg hcarry, if_neg (by omega), scientific_natCast]

/-- Whole numbers are written as before. -/
theorem formatRat_intCast (v : Int) : formatRat v = formatInt v := by
  have hneg : -(v : ℚ) = ((-v : Int) : ℚ) := by push_cast; rfl
  unfold formatRat formatInt
  by_cases hv : v < 0
  · have habs : ((-v : Int) : ℚ) = v.natAbs := by
      rw [← Int.cast_natCast]
      congr 1
      omega
    rw [if_pos (by exact_mod_cast hv), if_pos hv, hneg, habs, formatAbs_natCast]
  · have habs : (v : ℚ) = v.natAbs := by
      rw [← Int.cast_natCast]
      congr 1
      omega
    rw [if_neg (by exact_mod_cast hv), if_neg hv, habs, formatAbs_natCast]

end Whole

example : formatRat (-1 / 3) = ['-', '0', '.', '3', '3', '3', '3', '3', '3'] := by decide +kernel

example : formatRat (1 / 80000) = ['1', '.', '2', '5', 'e', '-', '0', '5'] := by decide +kernel

end GeneralFormat
