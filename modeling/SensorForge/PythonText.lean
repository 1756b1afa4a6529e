import Mathlib

/-! What Python's strings do: lines, white space, and the decimal literals that `float`
reads. -/

namespace PythonText

abbrev Text := List Char

/-- What the Unicode database says of characters beyond ASCII. -/
structure Unicode where
  alnum : Char → Bool
  decimal : Char → Option Nat

/-- The boundaries of `str.splitlines`. -/
def isLineBreak (c : Char) : Bool :=
  c.toNat ∈ [0x0A, 0x0B, 0x0C, 0x0D, 0x1C, 0x1D, 0x1E, 0x85, 0x2028, 0x2029]

/-- `str.isspace` of one character. -/
def isSpace (c : Char) : Bool :=
  c.toNat ∈ [0x09, 0x0A, 0x0B, 0x0C, 0x0D, 0x1C, 0x1D, 0x1E, 0x1F, 0x20, 0x85, 0xA0, 0x1680,
    0x2028, 0x2029, 0x202F, 0x205F, 0x3000] || (0x2000 ≤ c.toNat && c.toNat ≤ 0x200A)

def isAsciiDigit (c : Char) : Bool := '0' ≤ c && c ≤ '9'

def isAsciiLetter (c : Char) : Bool := ('a' ≤ c && c ≤ 'z') || ('A' ≤ c && c ≤ 'Z')

/-- `\w` -/
def isWord (U : Unicode) (c : Char) : Bool :=
  isAsciiLetter c || isAsciiDigit c || c = '_' || (128 ≤ c.toNat && U.alnum c)

/-- `line` is what has been read of the current line. -/
def splitFrom (line : Text) : Text → List Text
  | [] => if line = [] then [] else [line]
  | '\r' :: '\n' :: rest => line :: splitFrom [] rest
  | c :: rest => if isLineBreak c then line :: splitFrom [] rest else splitFrom (line ++ [c]) rest

def splitlines (s : Text) : List Text := splitFrom [] s

def strip (s : Text) : Text := (s.dropWhile isSpace).rdropWhile isSpace

/-- `split()[0]`, for a text that is not all white space. -/
def firstToken (s : Text) : Text := (s.dropWhile isSpace).takeWhile fun c => !isSpace c

inductive Number
  | num (q : ℚ)
  | inf (negative : Bool)
  | nan
  deriving DecidableEq

def roundEven (x : ℚ) : Int :=
  if Int.fract x < 1 / 2 ∨ (Int.fract x = 1 / 2 ∧ ⌊x⌋ % 2 = 0) then ⌊x⌋ else ⌊x⌋ + 1

/-- The double nearest to `q`, of two the one with the even significand. -/
def nearest (q : ℚ) : Number :=
  let e := max (Int.log 2 |q| - 52) (-1074)
  let double : ℚ := roundEven (q / 2 ^ e) * 2 ^ e
  if |double| < 2 ^ 1024 then .num double else .inf (q < 0)

def Number.toDouble : Number → Number
  | .num q => nearest q
  | .inf negative => .inf negative
  | .nan => .nan

def digitOf (U : Unicode) (c : Char) : Option Nat :=
  if isAsciiDigit c then some (c.toNat - '0'.toNat)
  else if 128 ≤ c.toNat then U.decimal c else none

/-- Digits, with single underscores between them. -/
def digitPart (U : Unicode) : Text → Option (List Nat)
  | [] => none
  | [c] => (digitOf U c).map fun d => [d]
  | c :: '_' :: rest => (digitOf U c).bind fun d => (digitPart U rest).map fun ds => d :: ds
  | c :: rest => (digitOf U c).bind fun d => (digitPart U rest).map fun ds => d :: ds

def ofDigitList (ds : List Nat) : Nat := ds.foldl (fun n d => 10 * n + d) 0

def splitSign : Text → Bool × Text
  | '-' :: rest => (true, rest)
  | '+' :: rest => (false, rest)
  | rest => (false, rest)

/-- Digits before and after the point, one side of which may be missing. -/
def mantissa (U : Unicode) (s : Text) : Option (List Nat × List Nat) :=
  let whole := s.takeWhile (· ≠ '.')
  match s.dropWhile (· ≠ '.') with
  | [] => (digitPart U whole).map fun ds => (ds, [])
  | _ :: fraction =>
    if fraction = [] then (digitPart U whole).map fun ds => (ds, [])
    else if whole = [] then (digitPart U fraction).map fun ds => ([], ds)
    else (digitPart U whole).bind fun ds => (digitPart U fraction).map fun fs => (ds, fs)

def exponent (U : Unicode) : Text → Option Int
  | [] => some 0
  | _ :: rest =>
    let (negative, rest) := splitSign rest
    (digitPart U rest).map fun ds => if negative then -(ofDigitList ds : Int) else ofDigitList ds

def isExponentMark (c : Char) : Bool := c = 'e' || c = 'E'

/-- The number that is written, before it becomes a double. -/
def unsigned (U : Unicode) (negative : Bool) (s : Text) : Option Number :=
  let lower := s.map Char.toLower
  if lower = ['i', 'n', 'f'] ∨ lower = ['i', 'n', 'f', 'i', 'n', 'i', 't', 'y'] then
    some (.inf negative)
  else if lower = ['n', 'a', 'n'] then some .nan
  else
    (mantissa U (s.takeWhile fun c => !isExponentMark c)).bind fun m =>
      (exponent U (s.dropWhile fun c => !isExponentMark c)).map fun (e : Int) =>
        let q : ℚ := ofDigitList (m.1 ++ m.2) * 10 ^ (e - (m.2.length : Int))
        .num (if negative then -q else q)

/-- `float` of a text without white space at its ends. -/
def float (U : Unicode) (s : Text) : Option Number :=
  let (negative, s) := splitSign s
  (unsigned U negative s).map Number.toDouble

theorem strip_eq_self {s : Text} (hhead : ∀ c, s.head? = some c → isSpace c = false)
    (hlast : ∀ c, s.getLast? = some c → isSpace c = false) : strip s = s := by
  have hdrop : s.dropWhile isSpace = s := by
    cases s with
    | nil => rfl
    | cons c s => exact List.dropWhile_cons_of_neg (by simp [hhead c rfl])
  rw [strip, hdrop, List.rdropWhile_eq_self_iff]
  intro hne
  simp [hlast _ (List.getLast?_eq_some_getLast hne)]

section Lines

variable {line : Text} {c : Char}

theorem splitFrom_char (hc : isLineBreak c = false) (rest : Text) :
    splitFrom line (c :: rest) = splitFrom (line ++ [c]) rest := by
  rw [splitFrom, if_neg (by simp [hc])]
  rintro t rfl -
  exact absurd hc (by decide)

theorem splitFrom_break (hc : isLineBreak c = true) {rest : Text}
    (hr : ∀ t, c = '\r' → rest = '\n' :: t → False) :
    splitFrom line (c :: rest) = line :: splitFrom [] rest := by
  rw [splitFrom, if_pos hc]
  exact hr

theorem splitFrom_newline (rest : Text) : splitFrom line ('\n' :: rest) = line :: splitFrom [] rest :=
  splitFrom_break (by decide) fun _ h => absurd h (by decide)

theorem splitFrom_text (line : Text) {p : Text} (hp : ∀ c ∈ p, isLineBreak c = false) (s : Text) :
    splitFrom line (p ++ s) = splitFrom (line ++ p) s := by
  induction p generalizing line with
  | nil => rw [List.append_nil, List.nil_append]
  | cons c p ih =>
    rw [List.cons_append, splitFrom_char (hp c List.mem_cons_self),
      ih _ fun d hd => hp d (List.mem_cons_of_mem c hd), List.append_assoc, List.singleton_append]

/-- A line feed ends a line, whatever stands before it; a last empty line does not count. -/
theorem splitFrom_append_newline (line s rest : Text) :
    splitFrom line (s ++ '\n' :: rest) = splitFrom line s ++ splitFrom [] rest ∨
      splitFrom line (s ++ '\n' :: rest) = splitFrom line s ++ [] :: splitFrom [] rest := by
  fun_induction splitFrom line s with
  | case1 =>
    right
    rw [List.nil_append, List.nil_append, splitFrom_newline]
  | case2 line hne =>
    left
    rw [List.nil_append, splitFrom_newline]
    rfl
  | case3 line s ih =>
    simp only [List.cons_append, splitFrom, List.cons.injEq, true_and]
    exact ih
  | case4 line c s hr hc ih =>
    by_cases h : c = '\r' ∧ s = []
    · obtain ⟨rfl, rfl⟩ := h
      left
      rfl
    · rw [List.cons_append, splitFrom_break hc, List.cons_append, List.cons_append]
      · exact ih.imp (congrArg (line :: ·)) (congrArg (line :: ·))
      · intro t hcr ht
        cases s with
        | nil => exact h ⟨hcr, rfl⟩
        | cons d s => exact hr s hcr (by rw [(List.cons.inj ht).1])
  | case5 line c s hr hc ih =>
    rw [List.cons_append, splitFrom_char (by simpa using hc)]
    exact ih

theorem splitFrom_noBreak (s : Text) (hline : ∀ c ∈ line, isLineBreak c = false) :
    ∀ l ∈ splitFrom line s, ∀ c ∈ l, isLineBreak c = false := by
  have hnil : ∀ c ∈ ([] : Text), isLineBreak c = false := fun c hc => absurd hc List.not_mem_nil
  fun_induction splitFrom line s with
  | case1 => exact fun l hl => absurd hl List.not_mem_nil
  | case2 line hne => exact List.forall_mem_singleton.mpr hline
  | case3 line s ih => exact List.forall_mem_cons.mpr ⟨hline, ih hnil⟩
  | case4 line c s hr hc ih => exact List.forall_mem_cons.mpr ⟨hline, ih hnil⟩
  | case5 line c s hr hc ih =>
    refine ih (List.forall_mem_append.mpr ⟨hline, List.forall_mem_singleton.mpr ?_⟩)
    simpa using hc

theorem splitFrom_prepend (p line : Text) {s : Text} (hs : s ≠ []) :
    ∃ l, splitFrom (p ++ line) s = (p ++ l) :: (splitFrom line s).tail := by
  fun_induction splitFrom line s with
  | case1 => exact absurd rfl hs
  | case2 line hne => exact absurd rfl hs
  | case3 line s ih => exact ⟨line, rfl⟩
  | case4 line c s hr hc ih => exact ⟨line, splitFrom_break hc hr⟩
  | case5 line c s hr hc ih =>
    have hc : isLineBreak c = false := by simpa using hc
    rw [splitFrom_char hc, List.append_assoc]
    cases s with
    | nil =>
      refine ⟨line ++ [c], ?_⟩
      have hend : ∀ q : Text, splitFrom (q ++ [c]) [] = [q ++ [c]] := by
        intro q
        simp [splitFrom]
      rw [← List.append_assoc, hend, hend, List.append_assoc]
      rfl
    | cons d s => exact ih (List.cons_ne_nil d s)

end Lines
theorem roundEven_intCast (n : Int) : roundEven n = n := by
  rw [roundEven, Int.fract_intCast, Int.floor_intCast, if_pos]
  norm_num

/-- A whole number that a double can hold is kept. -/
theorem nearest_exact {m : Int} {k : Nat} (hm : |m| < 2 ^ 53) (hk : k ≤ 971) :
    nearest (m * 2 ^ k) = .num (m * 2 ^ k) := by
  have hlt : |(m : ℚ) * 2 ^ k| < 2 ^ (53 + k) := by
    rw [abs_mul, abs_of_pos (by positivity : (0 : ℚ) < 2 ^ k), pow_add]
    have hm : |(m : ℚ)| < 2 ^ 53 := by exact_mod_cast hm
    gcongr
  have hlog : Int.log 2 |(m : ℚ) * 2 ^ k| ≤ 52 + k := by
    rcases eq_or_ne |(m : ℚ) * 2 ^ k| 0 with hzero | hne
    · rw [hzero, Int.log_zero_right]
      omega
    · have hpos : 0 < |(m : ℚ) * 2 ^ k| := lt_of_le_of_ne (abs_nonneg _) (Ne.symm hne)
      have hzpow : |(m : ℚ) * 2 ^ k| < (2 : Nat) ^ ((53 + k : Nat) : Int) := by exact_mod_cast hlt
      have hlog := (Int.lt_zpow_iff_log_lt (by decide) hpos).mp hzpow
      omega
  have hbound : |(m : ℚ) * 2 ^ k| < 2 ^ 1024 :=
    hlt.trans_le (pow_le_pow_right₀ (by norm_num) (by omega))
  dsimp only [nearest]
  generalize he : max (Int.log 2 |(m : ℚ) * 2 ^ k| - 52) (-1074) = e
  have hle : e ≤ k := by omega
  obtain ⟨j, hj⟩ := Int.le.dest hle
  have hscaled : (m : ℚ) * 2 ^ k / 2 ^ e = ((m * 2 ^ j : Int) : ℚ) := by
    rw [div_eq_iff (by positivity)]
    push_cast
    rw [mul_assoc, ← zpow_natCast, ← zpow_natCast, ← zpow_add₀ (by norm_num), ← hj, add_comm]
  have hback : ((m * 2 ^ j : Int) : ℚ) * 2 ^ e = m * 2 ^ k := by
    rw [← hscaled, div_mul_cancel₀ _ (by positivity)]
  rw [hscaled, roundEven_intCast, hback, if_pos hbound]

section Digits

variable {U : Unicode}

theorem isAsciiDigit_iff (c : Char) : isAsciiDigit c = true ↔ '0' ≤ c ∧ c ≤ '9' := by
  simp [isAsciiDigit]

theorem isAsciiDigit_ne {c d : Char} (hc : isAsciiDigit c = true)
    (hd : isAsciiDigit d = false) : c ≠ d := by
  rintro rfl
  rw [hc] at hd
  cases hd

theorem digitOf_digit {c : Char} (hc : isAsciiDigit c = true) :
    digitOf U c = some (c.toNat - '0'.toNat) := if_pos hc

theorem digitPart_digits {cs : Text} (hne : cs ≠ []) (hcs : ∀ c ∈ cs, isAsciiDigit c = true) :
    digitPart U cs = some (cs.map fun c => c.toNat - '0'.toNat) := by
  induction cs with
  | nil => exact absurd rfl hne
  | cons c cs ih =>
    have hc := digitOf_digit (U := U) (hcs c List.mem_cons_self)
    cases cs with
    | nil => rw [digitPart, hc]; rfl
    | cons d cs =>
      have hd : d ≠ '_' :=
        isAsciiDigit_ne (hcs d (List.mem_cons_of_mem c List.mem_cons_self)) (by decide)
      rw [digitPart, hc, ih (List.cons_ne_nil d cs) fun e he => hcs e (List.mem_cons_of_mem c he)]
      · rfl
      · exact fun h => absurd h (List.cons_ne_nil d cs)
      · intro rest h
        exact hd (List.cons.inj h).1

theorem ofDigitList_map (cs : Text) :
    ofDigitList (cs.map fun c => c.toNat - '0'.toNat) = Nat.ofDigitChars 10 cs 0 := by
  rw [ofDigitList, List.foldl_map, Nat.ofDigitChars_eq_foldl]

theorem splitSign_digit {c : Char} (hc : isAsciiDigit c = true) (rest : Text) :
    splitSign (c :: rest) = (false, c :: rest) := by
  have hminus : c ≠ '-' := isAsciiDigit_ne hc (by decide)
  have hplus : c ≠ '+' := isAsciiDigit_ne hc (by decide)
  unfold splitSign
  split
  · next h => exact absurd (List.cons.inj h).1 hminus
  · next h => exact absurd (List.cons.inj h).1 hplus
  · rfl

theorem toLower_digit {c : Char} (hc : isAsciiDigit c = true) : c.toLower = c := by
  have hle : c.val ≤ '9'.val := ((isAsciiDigit_iff c).mp hc).2
  rw [Char.toLower, dif_neg]
  rintro ⟨hge, -⟩
  have hlt : 'A'.val ≤ '9'.val := UInt32.le_trans hge hle
  exact absurd hlt (by decide)

theorem unsigned_eq {c : Char} (hc : isAsciiDigit c = true) (negative : Bool) (rest : Text) :
    unsigned U negative (c :: rest) =
      (mantissa U ((c :: rest).takeWhile fun c => !isExponentMark c)).bind fun m =>
        (exponent U ((c :: rest).dropWhile fun c => !isExponentMark c)).map fun (e : Int) =>
          let q : ℚ := ofDigitList (m.1 ++ m.2) * 10 ^ (e - (m.2.length : Int))
          .num (if negative then -q else q) := by
  have hi : c.toLower ≠ 'i' := by
    rw [toLower_digit hc]
    exact isAsciiDigit_ne hc (by decide)
  have hn : c.toLower ≠ 'n' := by
    rw [toLower_digit hc]
    exact isAsciiDigit_ne hc (by decide)
  simp only [unsigned, List.map_cons, List.cons.injEq, hi, hn, false_and, or_self, if_false]

theorem digits_notMark {cs : Text} (hcs : ∀ c ∈ cs, isAsciiDigit c = true) :
    ∀ c ∈ cs, (!isExponentMark c) = true := by
  intro c hc
  have he := isAsciiDigit_ne (hcs c hc) (by decide : isAsciiDigit 'e' = false)
  have hE := isAsciiDigit_ne (hcs c hc) (by decide : isAsciiDigit 'E' = false)
  simp [isExponentMark, he, hE]

theorem digits_notPoint {cs : Text} (hcs : ∀ c ∈ cs, isAsciiDigit c = true) :
    ∀ c ∈ cs, decide (c ≠ '.') = true :=
  fun c hc => decide_eq_true (isAsciiDigit_ne (hcs c hc) (by decide))

theorem mantissa_whole {w : Text} (hne : w ≠ []) (hw : ∀ c ∈ w, isAsciiDigit c = true) :
    mantissa U w = some (w.map fun c => c.toNat - '0'.toNat, []) := by
  have htake : w.takeWhile (· ≠ '.') = w := List.takeWhile_eq_self_iff.mpr (digits_notPoint hw)
  have hdrop : w.dropWhile (· ≠ '.') = [] := List.dropWhile_eq_nil_iff.mpr (digits_notPoint hw)
  simp only [mantissa, htake, hdrop, digitPart_digits hne hw, Option.map_some]

theorem mantissa_point {w f : Text} (hne : w ≠ []) (hw : ∀ c ∈ w, isAsciiDigit c = true)
    (hfne : f ≠ []) (hf : ∀ c ∈ f, isAsciiDigit c = true) :
    mantissa U (w ++ '.' :: f) =
      some (w.map fun c => c.toNat - '0'.toNat, f.map fun c => c.toNat - '0'.toNat) := by
  have htake : (w ++ '.' :: f).takeWhile (· ≠ '.') = w := by
    rw [List.takeWhile_append_of_pos (digits_notPoint hw)]
    simp
  have hdrop : (w ++ '.' :: f).dropWhile (· ≠ '.') = '.' :: f := by
    rw [List.dropWhile_append_of_pos (digits_notPoint hw)]
    simp
  simp only [mantissa, htake, hdrop, if_neg hne, if_neg hfne, digitPart_digits hne hw,
    digitPart_digits hfne hf, Option.bind_some, Option.map_some]

theorem unsigned_digits (negative : Bool) {w : Text} (hne : w ≠ [])
    (hw : ∀ c ∈ w, isAsciiDigit c = true) :
    unsigned U negative w = some (.num (if negative then -(Nat.ofDigitChars 10 w 0 : ℚ)
      else Nat.ofDigitChars 10 w 0)) := by
  have htake : w.takeWhile (fun c => !isExponentMark c) = w :=
    List.takeWhile_eq_self_iff.mpr (digits_notMark hw)
  have hdrop : w.dropWhile (fun c => !isExponentMark c) = [] :=
    List.dropWhile_eq_nil_iff.mpr (digits_notMark hw)
  have hvalue := ofDigitList_map w
  obtain ⟨c, rest, rfl⟩ := List.exists_cons_of_ne_nil hne
  rw [unsigned_eq (hw c List.mem_cons_self), htake, hdrop, mantissa_whole hne hw]
  simp only [exponent, Option.bind_some, Option.map_some, List.append_nil, hvalue]
  simp

theorem unsigned_exponential (negative : Bool) {lead : Char} (hlead : isAsciiDigit lead = true)
    {f es : Text} (hf : ∀ c ∈ f, isAsciiDigit c = true) (hne : es ≠ [])
    (hes : ∀ c ∈ es, isAsciiDigit c = true) (q : ℚ)
    (hq : q = Nat.ofDigitChars 10 (lead :: f) 0 *
      10 ^ ((Nat.ofDigitChars 10 es 0 : Int) - (f.length : Int))) :
    unsigned U negative (lead :: ((if f = [] then [] else '.' :: f) ++ 'e' :: '+' :: es)) =
      some (.num (if negative then -q else q)) := by
  have hmark : ∀ c ∈ lead :: (if f = [] then [] else '.' :: f), (!isExponentMark c) = true := by
    intro c hc
    rcases List.mem_cons.mp hc with rfl | hc
    · have hone : ∀ d ∈ [c], isAsciiDigit d = true := by simpa using hlead
      exact digits_notMark hone c List.mem_cons_self
    · split at hc
      · cases hc
      · rcases List.mem_cons.mp hc with rfl | hc
        · decide
        · exact digits_notMark hf c hc
  have hexponent : exponent U ('e' :: '+' :: es) = some (Nat.ofDigitChars 10 es 0 : Int) := by
    simp only [exponent, splitSign, digitPart_digits hne hes, Option.map_some, ofDigitList_map]
    rfl
  have hlist : ∀ c ∈ [lead], isAsciiDigit c = true := by simpa using hlead
  have hmantissa : mantissa U (lead :: if f = [] then [] else '.' :: f) =
      some ([lead].map fun c => c.toNat - '0'.toNat, f.map fun c => c.toNat - '0'.toNat) := by
    split
    · next hnil =>
      rw [hnil]
      exact mantissa_whole (List.cons_ne_nil _ _) hlist
    · next hcons => exact mantissa_point (List.cons_ne_nil _ _) hlist hcons hf
  rw [unsigned_eq hlead, ← List.cons_append, List.takeWhile_append_of_pos hmark,
    List.dropWhile_append_of_pos hmark]
  have hstop : (!isExponentMark 'e') = false := by decide
  rw [List.takeWhile_cons_of_neg (by simp [hstop]), List.dropWhile_cons_of_neg (by simp [hstop]),
    List.append_nil, hmantissa, hexponent]
  simp only [Option.bind_some, Option.map_some, ← List.map_append, ofDigitList_map,
    List.singleton_append, List.length_map, hq]

theorem float_digit {c : Char} (hc : isAsciiDigit c = true) (rest : Text) :
    float U (c :: rest) = (unsigned U false (c :: rest)).map Number.toDouble := by
  rw [float, splitSign_digit hc]

theorem float_minus (s : Text) :
    float U ('-' :: s) = (unsigned U true s).map Number.toDouble := rfl

end Digits

end PythonText
