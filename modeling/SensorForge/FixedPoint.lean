import SensorForge.SignificantDigits

/-! Numbers with a fixed count of digits behind the point, and what is read back from them. -/

namespace GeneralFormat

open PythonText

/-- `%.pf` -/
def fixedPoint (p : Nat) (v : ℚ) : Text :=
  let n := (roundEven (|v| * 10 ^ p)).toNat
  (if v < 0 then ['-'] else []) ++ Nat.toDigits 10 (n / 10 ^ p) ++
    if p = 0 then [] else '.' :: (Nat.toDigits 10 (n % 10 ^ p)).leftpad p '0'

/-- The number that is printed. -/
def roundedTo (p : Nat) (v : ℚ) : ℚ := roundEven (v * 10 ^ p) / 10 ^ p

section FixedPoint

variable {U : Unicode}

theorem fixedPoint_chars (p : Nat) (v : ℚ) :
    ∀ c ∈ fixedPoint p v, isAsciiDigit c = true ∨ c = '-' ∨ c = '.' := by
  refine List.forall_mem_append.mpr ⟨List.forall_mem_append.mpr ⟨?_, ?_⟩, ?_⟩
  · split
    · exact List.forall_mem_singleton.mpr (.inr (.inl rfl))
    · exact fun c hc => absurd hc List.not_mem_nil
  · exact fun c hc => .inl (toDigits_ascii _ c hc)
  · split
    · exact fun c hc => absurd hc List.not_mem_nil
    · refine List.forall_mem_cons.mpr ⟨.inr (.inr rfl), fun c hc => .inl ?_⟩
      rcases List.mem_append.mp hc with hc | hc
      · rw [List.eq_of_mem_replicate hc]
        decide
      · exact toDigits_ascii _ c hc

theorem fixedPoint_ne_nil (p : Nat) (v : ℚ) : fixedPoint p v ≠ [] := by
  intro h
  have hparts := List.append_eq_nil_iff.mp h
  exact Nat.toDigits_ne_nil (List.append_eq_nil_iff.mp hparts.1).2

theorem length_padded {d p : Nat} (hp : p ≠ 0) (hd : d < 10 ^ p) :
    ((Nat.toDigits 10 d).leftpad p '0').length = p := by
  have hle := (Nat.length_toDigits_le_iff (by decide) (Nat.pos_of_ne_zero hp)).mpr hd
  rw [List.leftpad, List.length_append, List.length_replicate]
  omega

/-- Digits with zeros in front are read behind others. -/
theorem ofDigitChars_padded (m : Nat) {d p : Nat} (hp : p ≠ 0) (hd : d < 10 ^ p) :
    Nat.ofDigitChars 10 ((Nat.toDigits 10 d).leftpad p '0') m = 10 ^ p * m + d := by
  have hle := (Nat.length_toDigits_le_iff (by decide) (Nat.pos_of_ne_zero hp)).mpr hd
  rw [List.leftpad, Nat.ofDigitChars_append, Nat.ofDigitChars_replicate_zero,
    Nat.ofDigitChars_eq_ofDigitChars_zero, Nat.ofDigitChars_ten_toDigits, ← Nat.mul_assoc,
    ← pow_add, Nat.add_sub_cancel' hle]

/-- What is printed of a number that is not negative is read as the nearest double. -/
theorem float_fixedPoint (p : Nat) {v : ℚ} (hv : 0 ≤ v) :
    float U (fixedPoint p v) = some (nearest (roundedTo p v)) := by
  have hn : ((roundEven (v * 10 ^ p)).toNat : ℚ) = roundEven (v * 10 ^ p) := by
    have hfloor : 0 ≤ ⌊v * 10 ^ p⌋ := Int.floor_nonneg.mpr (by positivity)
    have hround : 0 ≤ roundEven (v * 10 ^ p) := hfloor.trans (roundEven_bounds _).1
    exact_mod_cast congrArg (Int.cast (R := ℚ)) (Int.toNat_of_nonneg hround)
  rw [fixedPoint, roundedTo, if_neg (not_lt.mpr hv), abs_of_nonneg hv, ← hn, List.nil_append]
  generalize (roundEven (v * 10 ^ p)).toNat = n
  have hpow : 0 < 10 ^ p := Nat.pow_pos (by decide)
  have hnone : ∀ c, ([] : Text).head? = some c → isExponentMark c = true := by
    rintro c ⟨⟩
  have hread : unsigned U false (Nat.toDigits 10 (n / 10 ^ p) ++
      (if p = 0 then [] else '.' :: (Nat.toDigits 10 (n % 10 ^ p)).leftpad p '0')) =
      some (.num ((n : ℚ) / 10 ^ p)) := by
    split
    · next hp =>
      rw [hp, List.append_nil, unsigned_digits false Nat.toDigits_ne_nil (toDigits_ascii _),
        Nat.ofDigitChars_ten_toDigits]
      simp
    · next hp =>
      have hmod := Nat.mod_lt n hpow
      have hlength := length_padded hp hmod
      have hne : (Nat.toDigits 10 (n % 10 ^ p)).leftpad p '0' ≠ [] := by
        intro hnil
        rw [hnil, List.length_nil] at hlength
        exact hp hlength.symm
      have hdigits : ∀ c ∈ (Nat.toDigits 10 (n % 10 ^ p)).leftpad p '0', isAsciiDigit c = true := by
        intro c hc
        rcases List.mem_append.mp hc with hc | hc
        · rw [List.eq_of_mem_replicate hc]
          decide
        · exact toDigits_ascii _ c hc
      have hvalue : Nat.ofDigitChars 10 (Nat.toDigits 10 (n / 10 ^ p) ++
          (Nat.toDigits 10 (n % 10 ^ p)).leftpad p '0') 0 = n := by
        rw [Nat.ofDigitChars_append, Nat.ofDigitChars_ten_toDigits, ofDigitChars_padded _ hp hmod,
          Nat.div_add_mod]
      have hdecimal := unsigned_decimal (U := U) (e := []) false Nat.toDigits_ne_nil
        (toDigits_ascii (n / 10 ^ p)) hdigits hnone rfl
      rw [if_neg hne, List.append_nil, hvalue, hlength] at hdecimal
      rw [hdecimal]
      simp [zpow_neg, div_eq_mul_inv]
  obtain ⟨c, rest, hc⟩ := List.exists_cons_of_ne_nil (@Nat.toDigits_ne_nil (n / 10 ^ p) 10)
  have hdigit : isAsciiDigit c = true :=
    toDigits_ascii (n / 10 ^ p) c (by rw [hc]; exact List.mem_cons_self)
  rw [hc, List.cons_append] at hread ⊢
  rw [float_digit hdigit, hread]
  rfl

end FixedPoint

end GeneralFormat
