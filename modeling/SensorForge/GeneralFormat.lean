import SensorForge.PythonText

/-! The default format of an output stream for a whole number, six significant digits,
and what is read back from it. -/

namespace GeneralFormat

open PythonText

/-- To the nearest multiple, and between two of them to the even one. -/
def roundHalfEven (n d : Nat) : Nat :=
  if 2 * (n % d) < d ∨ (2 * (n % d) = d ∧ n / d % 2 = 0) then n / d else n / d + 1

/-- How many digits of `n` are rounded away. -/
def excess (n : Nat) : Nat := Nat.log 10 n - 5

def twoDigits (n : Nat) : Text := (Nat.toDigits 10 n).leftpad 2 '0'

def exponential : Text → Nat → Text
  | [], _ => []
  | lead :: rest, exponent =>
    let fraction := rest.rdropWhile (· = '0')
    lead :: ((if fraction = [] then [] else '.' :: fraction) ++ 'e' :: '+' :: twoDigits exponent)

def formatNat (n : Nat) : Text :=
  if n < 10 ^ 6 then Nat.toDigits 10 n
  else
    let m := roundHalfEven n (10 ^ excess n)
    if m = 10 ^ 6 then exponential (Nat.toDigits 10 (10 ^ 5)) (excess n + 6)
    else exponential (Nat.toDigits 10 m) (excess n + 5)

/-- `operator<<` of a double whose value is `v`. -/
def formatInt (v : Int) : Text :=
  if v < 0 then '-' :: formatNat v.natAbs else formatNat v.natAbs

/-- The number that is written for `n`. -/
def rounded (n : Nat) : Nat :=
  if n < 10 ^ 6 then n else roundHalfEven n (10 ^ excess n) * 10 ^ excess n

def readBack (v : Int) : Int := if v < 0 then -(rounded v.natAbs : Int) else rounded v.natAbs

def SixDigits (n : Nat) : Prop := ∃ m k, m < 10 ^ 6 ∧ n = m * 10 ^ k

theorem excess_bounds {n : Nat} (hn : ¬ n < 10 ^ 6) :
    10 ^ (excess n + 5) ≤ n ∧ n < 10 ^ (excess n + 6) := by
  have hpos : n ≠ 0 := by omega
  have hlog : 6 ≤ Nat.log 10 n := (Nat.le_log_iff_pow_le (by decide) hpos).mpr (by omega)
  have hexp : excess n + 5 = Nat.log 10 n := by
    rw [excess]
    omega
  rw [show excess n + 6 = Nat.log 10 n + 1 by omega, hexp]
  exact ⟨Nat.pow_log_le_self 10 hpos, Nat.lt_pow_succ_log_self (by decide) n⟩

theorem roundHalfEven_bounds {n d : Nat} : n / d ≤ roundHalfEven n d ∧ roundHalfEven n d ≤ n / d + 1 := by
  unfold roundHalfEven
  split <;> omega

theorem round_bounds {n : Nat} (hn : ¬ n < 10 ^ 6) :
    10 ^ 5 ≤ roundHalfEven n (10 ^ excess n) ∧ roundHalfEven n (10 ^ excess n) ≤ 10 ^ 6 := by
  obtain ⟨hlo, hhi⟩ := excess_bounds hn
  have hpos : 0 < 10 ^ excess n := Nat.pow_pos (by decide)
  have hle : 10 ^ 5 ≤ n / 10 ^ excess n := by
    rw [Nat.le_div_iff_mul_le hpos, ← pow_add, Nat.add_comm]
    exact hlo
  have hlt : n / 10 ^ excess n < 10 ^ 6 := by
    rw [Nat.div_lt_iff_lt_mul hpos, ← pow_add, Nat.add_comm]
    exact hhi
  have hround := @roundHalfEven_bounds n (10 ^ excess n)
  omega

theorem sixDigits_rounded (n : Nat) : SixDigits (rounded n) := by
  unfold rounded
  split
  · next hn => exact ⟨n, 0, hn, by simp⟩
  · next hn =>
    rcases Nat.lt_or_ge (roundHalfEven n (10 ^ excess n)) (10 ^ 6) with hlt | hge
    · exact ⟨_, _, hlt, rfl⟩
    · have heq : roundHalfEven n (10 ^ excess n) = 10 ^ 6 := le_antisymm (round_bounds hn).2 hge
      refine ⟨10 ^ 5, excess n + 1, by decide, ?_⟩
      rw [heq]
      ring

theorem rounded_of_sixDigits {n : Nat} (h : SixDigits n) : rounded n = n := by
  obtain ⟨m, k, hm, hn⟩ := h
  unfold rounded
  split
  · rfl
  · next hlarge =>
    have hle : excess n ≤ k := by
      by_contra hlt
      have hbound : n < 10 ^ (k + 6) := by
        rw [hn, pow_add, Nat.mul_comm]
        exact Nat.mul_lt_mul_of_pos_left hm (Nat.pow_pos (by decide))
      have hmono : 10 ^ (k + 6) ≤ 10 ^ (excess n + 5) := Nat.pow_le_pow_right (by decide) (by omega)
      exact absurd (excess_bounds hlarge).1 (not_le.mpr (hbound.trans_le hmono))
    have hdvd : 10 ^ excess n ∣ m * 10 ^ k := (pow_dvd_pow 10 hle).mul_left m
    rw [← hn] at hdvd
    have hround : roundHalfEven n (10 ^ excess n) = n / 10 ^ excess n := by
      rw [roundHalfEven, Nat.mod_eq_zero_of_dvd hdvd, if_pos]
      exact .inl (Nat.pow_pos (by decide))
    rw [hround, Nat.div_mul_cancel hdvd]

theorem rounded_eq_iff (n : Nat) : rounded n = n ↔ SixDigits n :=
  ⟨fun h => h ▸ sixDigits_rounded n, rounded_of_sixDigits⟩

theorem readBack_natAbs (v : Int) : (readBack v).natAbs = rounded v.natAbs := by
  unfold readBack
  split <;> simp

theorem readBack_eq_iff (v : Int) : readBack v = v ↔ SixDigits v.natAbs := by
  rw [← rounded_eq_iff, readBack]
  split <;> omega

theorem readBack_readBack (v : Int) : readBack (readBack v) = readBack v := by
  rw [readBack_eq_iff, readBack_natAbs]
  exact sixDigits_rounded _

theorem toDigits_ascii (n : Nat) : ∀ c ∈ Nat.toDigits 10 n, isAsciiDigit c = true := by
  intro c hc
  have hdigit := Nat.isDigit_of_mem_toDigits (by decide) (by decide) hc
  rw [isAsciiDigit_iff]
  simpa [Char.isDigit, Char.le_def] using hdigit

theorem twoDigits_ascii (n : Nat) : ∀ c ∈ twoDigits n, isAsciiDigit c = true := by
  intro c hc
  rcases List.mem_append.mp hc with hc | hc
  · rw [List.eq_of_mem_replicate hc]
    decide
  · exact toDigits_ascii n c hc

theorem twoDigits_ne_nil (n : Nat) : twoDigits n ≠ [] :=
  fun h => Nat.toDigits_ne_nil (List.append_eq_nil_iff.mp h).2

theorem ofDigitChars_twoDigits (n : Nat) : Nat.ofDigitChars 10 (twoDigits n) 0 = n := by
  rw [twoDigits, List.leftpad, Nat.ofDigitChars_append, Nat.ofDigitChars_replicate_zero,
    Nat.mul_zero, Nat.ofDigitChars_ten_toDigits]

theorem rdropWhile_zeros (s : Text) :
    ∃ z, s = s.rdropWhile (· = '0') ++ List.replicate z '0' := by
  refine ⟨(s.reverse.takeWhile (· = '0')).length, ?_⟩
  have hzeros : s.reverse.takeWhile (· = '0') =
      List.replicate (s.reverse.takeWhile (· = '0')).length '0' := by
    refine List.eq_replicate_iff.mpr ⟨rfl, fun c hc => ?_⟩
    simpa using List.mem_takeWhile_imp hc
  have hsplit : s.reverse.takeWhile (· = '0') ++ s.reverse.dropWhile (· = '0') = s.reverse :=
    List.takeWhile_append_dropWhile
  have hreverse := congrArg List.reverse hsplit
  rw [List.reverse_append, List.reverse_reverse, hzeros, List.reverse_replicate] at hreverse
  exact hreverse.symm

theorem unsigned_round {U : Unicode} (negative : Bool) {m : Nat} (hlo : 10 ^ 5 ≤ m)
    (hhi : m < 10 ^ 6) (k : Nat) :
    unsigned U negative (exponential (Nat.toDigits 10 m) (k + 5)) =
      some (.num (if negative then -((m * 10 ^ k : Nat) : ℚ) else (m * 10 ^ k : Nat))) := by
  have hlength : (Nat.toDigits 10 m).length = 6 := by
    have hle := (Nat.length_toDigits_le_iff (by decide) (by decide : 0 < 6)).mpr hhi
    have hgt := mt (Nat.length_toDigits_le_iff (by decide) (by decide : 0 < 5)).mp
      (not_lt.mpr hlo)
    omega
  have hvalue := @Nat.ofDigitChars_ten_toDigits m
  have hdigits := toDigits_ascii m
  cases hd : Nat.toDigits 10 m with
  | nil =>
    rw [hd] at hlength
    cases hlength
  | cons lead rest =>
    rw [hd] at hlength hvalue hdigits
    obtain ⟨z, hz⟩ := rdropWhile_zeros rest
    have hrest : ∀ c ∈ rest.rdropWhile (· = '0'), isAsciiDigit c = true := by
      intro c hc
      refine hdigits c (List.mem_cons_of_mem lead ?_)
      rw [hz]
      exact List.mem_append_left _ hc
    have hcount : (rest.rdropWhile (· = '0')).length + z = 5 := by
      have hl := congrArg List.length hz
      rw [List.length_append, List.length_replicate] at hl
      rw [List.length_cons] at hlength
      omega
    have hm : m = 10 ^ z * Nat.ofDigitChars 10 (lead :: rest.rdropWhile (· = '0')) 0 := by
      rw [← hvalue]
      conv_lhs => rw [hz, ← List.cons_append, Nat.ofDigitChars_append,
        Nat.ofDigitChars_replicate_zero]
    refine unsigned_exponential negative (hdigits lead List.mem_cons_self) hrest
      (twoDigits_ne_nil _) (twoDigits_ascii _) _ ?_
    rw [ofDigitChars_twoDigits]
    have hexp : ((k + 5 : Nat) : Int) - ((rest.rdropWhile (· = '0')).length : Int) =
        ((k + z : Nat) : Int) := by omega
    rw [hexp, zpow_natCast]
    conv_lhs => rw [hm]
    push_cast
    ring

theorem unsigned_formatNat {U : Unicode} (negative : Bool) (n : Nat) :
    unsigned U negative (formatNat n) =
      some (.num (if negative then -(rounded n : ℚ) else rounded n)) := by
  unfold formatNat rounded
  split
  · rw [unsigned_digits negative Nat.toDigits_ne_nil (toDigits_ascii n),
      Nat.ofDigitChars_ten_toDigits]
  · next hn =>
    obtain ⟨hlo, hhi⟩ := round_bounds hn
    dsimp only
    split
    · next heq =>
      rw [unsigned_round negative (le_refl _) (by decide) (excess n + 1), heq]
      have hsame : 10 ^ 5 * 10 ^ (excess n + 1) = 10 ^ 6 * 10 ^ excess n := by ring
      rw [hsame]
    · next hne => exact unsigned_round negative hlo (lt_of_le_of_ne hhi hne) (excess n)

theorem formatNat_cases (n : Nat) :
    formatNat n = Nat.toDigits 10 n ∨ ∃ m e, formatNat n = exponential (Nat.toDigits 10 m) e := by
  unfold formatNat
  split
  · exact .inl rfl
  · dsimp only
    split
    · exact .inr ⟨_, _, rfl⟩
    · exact .inr ⟨_, _, rfl⟩

/-- The characters of which a number is written. -/
def isNumeral (c : Char) : Bool := isAsciiDigit c || c ∈ ['-', '.', 'e', '+']

theorem exponential_chars {s : Text} (hs : ∀ c ∈ s, isAsciiDigit c = true) (e : Nat) :
    ∀ c ∈ exponential s e, isNumeral c = true := by
  have hdigit : ∀ c, isAsciiDigit c = true → isNumeral c = true := by
    intro c hc
    rw [isNumeral, hc, Bool.true_or]
  cases s with
  | nil => exact fun c hc => absurd hc List.not_mem_nil
  | cons lead rest =>
    obtain ⟨z, hz⟩ := rdropWhile_zeros rest
    have hrest : ∀ c ∈ rest.rdropWhile (· = '0'), isNumeral c = true := by
      intro c hc
      refine hdigit c (hs c (List.mem_cons_of_mem lead ?_))
      rw [hz]
      exact List.mem_append_left _ hc
    have hexponent : ∀ c ∈ 'e' :: '+' :: twoDigits e, isNumeral c = true := by
      refine List.forall_mem_cons.mpr ⟨by decide, List.forall_mem_cons.mpr ⟨by decide, ?_⟩⟩
      exact fun c hc => hdigit c (twoDigits_ascii e c hc)
    refine List.forall_mem_cons.mpr ⟨hdigit lead (hs lead List.mem_cons_self), ?_⟩
    refine List.forall_mem_append.mpr ⟨?_, hexponent⟩
    split
    · exact fun c hc => absurd hc List.not_mem_nil
    · exact List.forall_mem_cons.mpr ⟨by decide, hrest⟩

theorem formatNat_chars (n : Nat) : ∀ c ∈ formatNat n, isNumeral c = true := by
  rcases formatNat_cases n with h | ⟨m, e, h⟩
  · rw [h]
    intro c hc
    rw [isNumeral, toDigits_ascii n c hc, Bool.true_or]
  · rw [h]
    exact exponential_chars (toDigits_ascii m) e

theorem formatInt_chars (v : Int) : ∀ c ∈ formatInt v, isNumeral c = true := by
  unfold formatInt
  split
  · exact List.forall_mem_cons.mpr ⟨by decide, formatNat_chars _⟩
  · exact formatNat_chars _

theorem formatNat_head (n : Nat) :
    ∃ c rest, formatNat n = c :: rest ∧ isAsciiDigit c = true := by
  have hhead : ∀ m, ∃ c rest, Nat.toDigits 10 m = c :: rest ∧ isAsciiDigit c = true := by
    intro m
    obtain ⟨c, rest, hc⟩ := List.exists_cons_of_ne_nil (@Nat.toDigits_ne_nil m 10)
    exact ⟨c, rest, hc, toDigits_ascii m c (by rw [hc]; exact List.mem_cons_self)⟩
  rcases formatNat_cases n with h | ⟨m, e, h⟩
  · rw [h]
    exact hhead n
  · obtain ⟨c, rest, hm, hc⟩ := hhead m
    rw [h, hm]
    exact ⟨c, _, rfl, hc⟩

theorem rounded_double {n : Nat} (hn : n < 2 ^ 53) :
    ∃ m k : Nat, m < 2 ^ 53 ∧ k ≤ 971 ∧ rounded n = m * 2 ^ k := by
  unfold rounded
  split
  · next h => exact ⟨n, 0, hn, by decide, by simp⟩
  · next h =>
    have hexcess : excess n ≤ 10 := by
      by_contra hlarge
      have hmono : 10 ^ (11 + 5) ≤ 10 ^ (excess n + 5) := Nat.pow_le_pow_right (by decide) (by omega)
      have hle := hmono.trans (excess_bounds h).1
      omega
    have hfive : 5 ^ excess n ≤ 5 ^ 10 := Nat.pow_le_pow_right (by decide) hexcess
    refine ⟨roundHalfEven n (10 ^ excess n) * 5 ^ excess n, excess n, ?_, by omega, ?_⟩
    · calc roundHalfEven n (10 ^ excess n) * 5 ^ excess n ≤ 10 ^ 6 * 5 ^ 10 :=
            Nat.mul_le_mul (round_bounds h).2 hfive
        _ < 2 ^ 53 := by decide
    · rw [Nat.mul_assoc, ← mul_pow]
      rfl

theorem readBack_double {v : Int} (hv : v.natAbs < 2 ^ 53) :
    (Number.num (readBack v)).toDouble = .num (readBack v) := by
  obtain ⟨m, k, hm, hk, hrounded⟩ := rounded_double (n := v.natAbs) hv
  have hexact : ∀ s : Int, |s| = m → (Number.num (s * 2 ^ k)).toDouble = .num (s * 2 ^ k) := by
    intro s hs
    refine nearest_exact ?_ hk
    rw [hs]
    exact_mod_cast hm
  unfold readBack
  split
  · have h := hexact (-m) (by simp)
    rw [hrounded]
    push_cast at h ⊢
    rwa [neg_mul] at h
  · have h := hexact m (by simp)
    rw [hrounded]
    push_cast at h ⊢
    exact h

/-- Reading back what is written gives the number to six digits. -/
theorem float_formatInt (U : Unicode) {v : Int} (hv : v.natAbs < 2 ^ 53) :
    float U (formatInt v) = some (.num (readBack v)) := by
  rw [← readBack_double hv]
  unfold formatInt readBack
  split
  · rw [float_minus, unsigned_formatNat]
    simp
  · obtain ⟨c, rest, hn, hc⟩ := formatNat_head v.natAbs
    rw [hn, float_digit hc, ← hn, unsigned_formatNat]
    simp

theorem formatInt_ne_nil (v : Int) : formatInt v ≠ [] := by
  unfold formatInt
  split
  · exact List.cons_ne_nil _ _
  · obtain ⟨c, rest, hn, _⟩ := formatNat_head v.natAbs
    rw [hn]
    exact List.cons_ne_nil c rest

example : formatInt (-1234567) = ['-', '1', '.', '2', '3', '4', '5', '7', 'e', '+', '0', '6'] := by
  decide +kernel

end GeneralFormat
