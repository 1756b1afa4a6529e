import Mathlib

/-! Single-bit flips of a byte string. The order of the flips does not matter: what is
left of a sequence of them are the bits that it names an odd number of times. -/

namespace BitFlips

/-- A byte position and a bit in that byte. -/
abbrev Flip := Nat × Fin 8

def flip (bs : List UInt8) (f : Flip) : List UInt8 :=
  bs.modify f.1 (· ^^^ (1 <<< UInt8.ofNat f.2))

def flipAll (bs : List UInt8) (fs : List Flip) : List UInt8 := fs.foldl flip bs

/-- Every bit is flipped an even number of times. -/
def Cancel (fs : List Flip) : Prop := ∀ f, Even (fs.count f)

def bitAt (bs : List UInt8) (f : Flip) : Bool := (bs.getD f.1 0).toNat.testBit f.2

@[simp] theorem flip_length (bs : List UInt8) (f : Flip) : (flip bs f).length = bs.length := by
  simp [flip]

@[simp] theorem flipAll_nil (bs : List UInt8) : flipAll bs [] = bs := rfl

@[simp] theorem flipAll_cons (bs : List UInt8) (f : Flip) (fs : List Flip) :
    flipAll bs (f :: fs) = flipAll (flip bs f) fs := rfl

theorem flipAll_append (bs : List UInt8) (fs gs : List Flip) :
    flipAll bs (fs ++ gs) = flipAll (flipAll bs fs) gs := List.foldl_append

@[simp] theorem flipAll_length (bs : List UInt8) (fs : List Flip) :
    (flipAll bs fs).length = bs.length := by
  induction fs generalizing bs with
  | nil => rfl
  | cons f fs ih => rw [flipAll_cons, ih, flip_length]

theorem testBit_flipped (x : UInt8) (k j : Fin 8) :
    (x ^^^ (1 <<< UInt8.ofNat k)).toNat.testBit j = (x.toNat.testBit j ^^ decide (k = j)) := by
  have hmask : ∀ k j : Fin 8, (1 <<< UInt8.ofNat k).toNat.testBit j = decide (k = j) := by decide
  rw [UInt8.toNat_xor, Nat.testBit_xor, hmask]

theorem byte_ext {x y : UInt8} (h : ∀ j : Fin 8, x.toNat.testBit j = y.toNat.testBit j) :
    x = y := by
  apply UInt8.toNat_inj.mp
  apply Nat.eq_of_testBit_eq
  intro i
  by_cases hi : i < 8
  · exact h ⟨i, hi⟩
  · have hx := x.toNat_lt
    have hy := y.toNat_lt
    have hpow : 2 ^ 8 ≤ 2 ^ i := Nat.pow_le_pow_right (by omega) (by omega)
    rw [Nat.testBit_lt_two_pow (by omega), Nat.testBit_lt_two_pow (by omega)]

theorem bitAt_flip {bs : List UInt8} {f : Flip} (hf : f.1 < bs.length) (g : Flip) :
    bitAt (flip bs f) g = (bitAt bs g ^^ decide (f = g)) := by
  by_cases hpos : f.1 = g.1
  · have hget : (flip bs f).getD g.1 0 = bs.getD g.1 0 ^^^ (1 <<< UInt8.ofNat f.2) := by
      simp [flip, hpos, List.getD_eq_getElem?_getD, hpos ▸ hf]
    have hsame : f = g ↔ f.2 = g.2 := by simp [Prod.ext_iff, hpos]
    rw [bitAt, hget, testBit_flipped, bitAt, decide_eq_decide.mpr hsame]
  · have hget : (flip bs f).getD g.1 0 = bs.getD g.1 0 := by
      simp [flip, List.getD_eq_getElem?_getD, hpos]
    have hne : f ≠ g := fun h => hpos (h ▸ rfl)
    rw [bitAt, hget, decide_eq_false hne, Bool.xor_false, bitAt]

theorem bitAt_flipAll {bs : List UInt8} {fs : List Flip} (hfs : ∀ f ∈ fs, f.1 < bs.length)
    (g : Flip) : bitAt (flipAll bs fs) g = (bitAt bs g ^^ decide (Odd (fs.count g))) := by
  induction fs generalizing bs with
  | nil => simp
  | cons f fs ih =>
    have hf : f.1 < bs.length := hfs f (by simp)
    have hrest : ∀ f' ∈ fs, f'.1 < (flip bs f).length := fun f' hf' => by
      rw [flip_length]
      exact hfs f' (by simp [hf'])
    rw [flipAll_cons, ih hrest, bitAt_flip hf, List.count_cons]
    by_cases hfg : f = g
    · by_cases hodd : Odd (fs.count g) <;> simp [hfg, Nat.odd_add_one, hodd]
    · simp [hfg]

theorem eq_of_bitAt {as bs : List UInt8} (hl : as.length = bs.length)
    (h : ∀ f, bitAt as f = bitAt bs f) : as = bs := by
  apply List.ext_getElem hl
  intro p hp hp'
  apply byte_ext
  intro j
  simpa [bitAt, List.getD_eq_getElem?_getD, hp, hp'] using h (p, j)

theorem flipAll_eq_self_iff {bs : List UInt8} {fs : List Flip}
    (hfs : ∀ f ∈ fs, f.1 < bs.length) : flipAll bs fs = bs ↔ Cancel fs := by
  constructor
  · intro heq f
    have hbit := bitAt_flipAll hfs f
    rw [heq] at hbit
    by_contra hodd
    rw [Nat.not_even_iff_odd] at hodd
    simp [hodd] at hbit
  · intro hcancel
    apply eq_of_bitAt (flipAll_length bs fs)
    intro f
    have heven := Nat.not_odd_iff_even.mpr (hcancel f)
    rw [bitAt_flipAll hfs, decide_eq_false heven, Bool.xor_false]

theorem cancel_nil : Cancel [] := fun _ => by simp

theorem Cancel.even_length {fs : List Flip} (h : Cancel fs) : Even fs.length := by
  rw [← List.sum_toFinset_count_eq_length]
  refine Finset.sum_induction _ _ (fun _ _ => Even.add) Even.zero fun f _ => ?_
  convert h f

/-- The bits in which two strings differ, at the places of the first. -/
def differing (as bs : List UInt8) : Finset Flip :=
  (Finset.range as.length ×ˢ Finset.univ).filter fun f => bitAt as f ≠ bitAt bs f

theorem differing_eq_empty_iff {as bs : List UInt8} (hl : as.length = bs.length) :
    differing as bs = ∅ ↔ as = bs := by
  constructor
  · intro hempty
    apply eq_of_bitAt hl
    intro f
    by_cases hf : f.1 < as.length
    · by_contra hne
      have hmem : f ∈ differing as bs := by simp [differing, hf, hne]
      simp [hempty] at hmem
    · have hf' : bs.length ≤ f.1 := hl ▸ Nat.le_of_not_lt hf
      simp [bitAt, List.getD_eq_getElem?_getD, Nat.le_of_not_lt hf, hf']
  · rintro rfl
    simp [differing]

/-- Each flip changes at most one bit more. -/
theorem differing_flipAll_card_le {bs : List UInt8} {fs : List Flip}
    (hfs : ∀ f ∈ fs, f.1 < bs.length) : (differing bs (flipAll bs fs)).card ≤ fs.length := by
  refine le_trans (Finset.card_le_card fun f hf => ?_) fs.toFinset_card_le
  have hne := (Finset.mem_filter.mp hf).2
  rw [bitAt_flipAll hfs] at hne
  by_contra hmem
  rw [List.mem_toFinset, ← List.count_eq_zero] at hmem
  simp [hmem] at hne

end BitFlips
