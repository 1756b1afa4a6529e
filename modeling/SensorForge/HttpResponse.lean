import Mathlib

/-! HTTP responses whose body has a stated length, as they are written and as they are read. -/

namespace Http

abbrev Octets := List UInt8

def crlf : Octets := [13, 10]

/-- The line up to CR LF, and what follows. -/
def takeLine : Octets → Option (Octets × Octets)
  | [] => none
  | 13 :: 10 :: rest => some ([], rest)
  | b :: rest => (takeLine rest).map fun p => (b :: p.1, p.2)

/-- The lines up to an empty one, of which there are fewer than `fuel`. -/
def takeHead : Nat → Octets → Option (List Octets × Octets)
  | 0, _ => none
  | fuel + 1, bs => (takeLine bs).bind fun (line, rest) =>
    if line = [] then some ([], rest)
    else (takeHead fuel rest).map fun p => (line :: p.1, p.2)

def decimal (n : Nat) : Octets := (Nat.toDigits 10 n).map fun c => c.toNat.toUInt8

def ofDecimal (bs : Octets) : Nat := Nat.ofDigitChars 10 (bs.map fun b => Char.ofNat b.toNat) 0

structure Response where
  status : Octets
  headers : List (Octets × Octets)
  body : Octets
  deriving DecidableEq

def version : Octets := [0x48, 0x54, 0x54, 0x50, 0x2F, 0x31, 0x2E, 0x31, 0x20]

def contentLengthName : Octets :=
  [0x43, 0x6F, 0x6E, 0x74, 0x65, 0x6E, 0x74, 0x2D, 0x4C, 0x65, 0x6E, 0x67, 0x74, 0x68]

/-- `name: value` -/
def headerLine (h : Octets × Octets) : Octets := h.1 ++ 0x3A :: 0x20 :: h.2

def Response.write (r : Response) : Octets :=
  version ++ r.status ++ crlf ++ (r.headers.flatMap fun h => headerLine h ++ crlf) ++ crlf ++ r.body

def parseHeader (line : Octets) : Octets × Octets :=
  (line.takeWhile (· ≠ 0x3A), ((line.dropWhile (· ≠ 0x3A)).drop 1).dropWhile (· = 0x20))

def contentLength (headers : List (Octets × Octets)) : Option Nat :=
  (headers.find? fun h => h.1 = contentLengthName).map fun h => ofDecimal h.2

/-- A status line, headers up to an empty line, and as much of a body as they state. -/
def read (bs : Octets) : Option Response :=
  (takeLine bs).bind fun (first, rest) => (takeHead rest.length rest).bind fun (lines, rest) =>
    (contentLength (lines.map parseHeader)).bind fun n =>
      if rest.length < n then none
      else some ⟨first.drop version.length, lines.map parseHeader, rest.take n⟩

/-- No line of the head ends early, and the length is the body's. -/
structure Response.Proper (r : Response) : Prop where
  status : 13 ∉ r.status
  names : ∀ h ∈ r.headers, h.1 ≠ [] ∧ 0x3A ∉ h.1 ∧ 13 ∉ h.1
  values : ∀ h ∈ r.headers, h.2.head? ≠ some 0x20 ∧ 13 ∉ h.2
  length : contentLength r.headers = some r.body.length

theorem takeLine_append {line : Octets} (h : 13 ∉ line) (rest : Octets) :
    takeLine (line ++ crlf ++ rest) = some (line, rest) := by
  induction line with
  | nil => rfl
  | cons b line ih =>
    have hb : b ≠ 13 := fun hb => h (by rw [hb]; exact List.mem_cons_self)
    rw [List.cons_append, List.cons_append, takeLine, ih fun hm => h (List.mem_cons_of_mem b hm)]
    · rfl
    · intro rest' hcons
      exact absurd hcons (by simp [hb])

theorem takeHead_lines {lines : List Octets} (h : ∀ line ∈ lines, line ≠ [] ∧ 13 ∉ line)
    {fuel : Nat} (hfuel : lines.length < fuel) (rest : Octets) :
    takeHead fuel ((lines.flatMap fun line => line ++ crlf) ++ crlf ++ rest) =
      some (lines, rest) := by
  induction lines generalizing fuel with
  | nil =>
    obtain ⟨fuel, rfl⟩ := Nat.exists_eq_succ_of_ne_zero (Nat.ne_zero_of_lt hfuel)
    rfl
  | cons line lines ih =>
    obtain ⟨fuel, rfl⟩ := Nat.exists_eq_succ_of_ne_zero (Nat.ne_zero_of_lt hfuel)
    obtain ⟨⟨hne, hline⟩, hlines⟩ := List.forall_mem_cons.mp h
    rw [takeHead, List.flatMap_cons, List.append_assoc (line ++ crlf), List.append_assoc,
      List.append_assoc, ← List.append_assoc line, takeLine_append hline, Option.bind_some]
    simp only [if_neg hne]
    rw [ih hlines (Nat.lt_of_succ_lt_succ hfuel)]
    rfl

theorem length_le_flatMap_crlf (lines : List Octets) :
    lines.length ≤ (lines.flatMap fun line => line ++ crlf).length := by
  induction lines with
  | nil => exact Nat.le_refl 0
  | cons line lines ih =>
    have hcrlf : crlf.length = 2 := rfl
    rw [List.flatMap_cons, List.length_cons, List.length_append, List.length_append, hcrlf]
    omega

theorem ofDecimal_decimal (n : Nat) : ofDecimal (decimal n) = n := by
  have hchars : (decimal n).map (fun b => Char.ofNat b.toNat) = Nat.toDigits 10 n := by
    rw [decimal, List.map_map]
    refine (List.map_congr_left fun c hc => ?_).trans (List.map_id _)
    have hdigit := Nat.isDigit_of_mem_toDigits (by decide) (by decide) hc
    simp only [Char.isDigit, Bool.and_eq_true, decide_eq_true_eq] at hdigit
    have hlt : c.toNat < 256 := by
      have := UInt32.le_iff_toNat_le.mp hdigit.2
      exact lt_of_le_of_lt this (by decide)
    simp [Nat.mod_eq_of_lt hlt, Char.ofNat_toNat]
  rw [ofDecimal, hchars, Nat.ofDigitChars_ten_toDigits]

theorem parseHeader_headerLine {h : Octets × Octets} (hname : 0x3A ∉ h.1)
    (hvalue : h.2.head? ≠ some 0x20) : parseHeader (headerLine h) = h := by
  have hname : ∀ b ∈ h.1, decide (b ≠ 0x3A) = true :=
    fun b hb => decide_eq_true fun heq => hname (heq ▸ hb)
  have hspace : h.2.dropWhile (· = 0x20) = h.2 := by
    cases hh : h.2 with
    | nil => rfl
    | cons b bs =>
      rw [hh] at hvalue
      exact List.dropWhile_cons_of_neg (by simpa using hvalue)
  rw [parseHeader, headerLine, List.takeWhile_append_of_pos hname,
    List.dropWhile_append_of_pos hname]
  simp [hspace]

/-- What is written is read, whatever follows it. -/
theorem read_write {r : Response} (h : r.Proper) (rest : Octets) :
    read (r.write ++ rest) = some r := by
  have hfirst : 13 ∉ version ++ r.status := by
    simp [version, h.status]
  have hlines : ∀ line ∈ r.headers.map headerLine, line ≠ [] ∧ 13 ∉ line := by
    intro line hline
    obtain ⟨header, hmem, rfl⟩ := List.mem_map.mp hline
    simp [headerLine, (h.names header hmem).2.2, (h.values header hmem).2]
  have hparse : (r.headers.map headerLine).map parseHeader = r.headers := by
    rw [List.map_map]
    refine (List.map_congr_left fun header hmem => ?_).trans (List.map_id _)
    exact parseHeader_headerLine (h.names header hmem).2.1 (h.values header hmem).1
  have hwrite : r.write ++ rest = version ++ r.status ++ crlf ++
      (((r.headers.map headerLine).flatMap fun line => line ++ crlf) ++ crlf ++ (r.body ++ rest)) := by
    rw [Response.write, List.flatMap_map]
    simp only [List.append_assoc]
  have hfuel : (r.headers.map headerLine).length <
      (((r.headers.map headerLine).flatMap fun line => line ++ crlf) ++ crlf ++
        (r.body ++ rest)).length := by
    have hlength := length_le_flatMap_crlf (r.headers.map headerLine)
    have hcrlf : crlf.length = 2 := rfl
    rw [List.length_append, List.length_append, hcrlf]
    omega
  rw [hwrite, read, takeLine_append hfirst, Option.bind_some]
  dsimp only
  rw [takeHead_lines hlines hfuel, Option.bind_some]
  dsimp only
  rw [hparse, h.length, Option.bind_some, if_neg (by simp), List.drop_left, List.take_left]

end Http
