import Mathlib.Dynamics.PeriodicPts.Lemmas
import Mathlib.NumberTheory.LucasLehmer
import SensorForge.BitFlips
import SensorForge.CrcRegister

/-! Errors of few bits that a CRC register cannot miss. An odd number of flipped bits changes the
parity of a register whose polynomial has one more factor. Two cancel out only at a distance that
is a multiple of the period of the register, which doubling the run of the top bit finds. -/

namespace Crc

open BitFlips Function

variable {w : Nat} {poly : BitVec w}

theorem bitStep_zero : bitStep poly 0#w = 0#w := by simp [bitStep]

theorem bitSteps_eq_iterate (n : Nat) (r : BitVec w) :
    bitSteps poly n r = (bitStep poly)^[n] r := by
  induction n generalizing r with
  | zero => rfl
  | succ n ih => exact ih (bitStep poly r)

def top (w : Nat) : BitVec w := BitVec.twoPow w (w - 1)

/-- What a register becomes that starts as zero and has `b` added after each step whose bit is
set. -/
def combine (poly b : BitVec w) (bits : List Bool) : BitVec w :=
  bits.foldl (fun r bit => bitStep poly r ^^^ if bit then b else 0#w) 0#w

theorem combine_concat (b : BitVec w) (bits : List Bool) (bit : Bool) :
    combine poly b (bits ++ [bit]) =
      bitStep poly (combine poly b bits) ^^^ if bit then b else 0#w := by
  simp [combine]

theorem combine_bitSteps (n : Nat) (b : BitVec w) (bits : List Bool) :
    bitSteps poly n (combine poly b bits) = combine poly (bitSteps poly n b) bits := by
  have hzero : bitSteps poly n 0#w = 0#w := by
    rw [bitSteps_eq_iterate, iterate_fixed bitStep_zero]
  have hcomm : ∀ r, bitSteps poly n (bitStep poly r) = bitStep poly (bitSteps poly n r) := by
    intro r
    rw [bitSteps_eq_iterate, bitSteps_eq_iterate, ← iterate_succ_apply, iterate_succ_apply']
  induction bits using List.reverseRecOn with
  | nil => exact hzero
  | append_singleton bits bit ih =>
    rw [combine_concat, combine_concat, bitSteps_xor, hcomm, ih]
    cases bit <;> simp [hzero]

/-- The first `i` bits of `b`, moved to the top. -/
theorem combine_take (b : BitVec w) {i : Nat} (h : i ≤ w) :
    combine poly (top w) ((bitsOf w b.toNat).take i) = b <<< (w - i) := by
  induction i with
  | zero => simp [combine]
  | succ i ih =>
    have hbit : (bitsOf w b.toNat).take (i + 1) =
        (bitsOf w b.toNat).take i ++ [b.getLsbD i] := by
      rw [List.take_succ_eq_append_getElem (by simp [bitsOf]; omega)]
      simp [bitsOf]
      rfl
    have hlow : (b <<< (w - i)).getLsbD 0 = false := by
      simp
      omega
    rw [hbit, combine_concat, ih (by omega), bitStep, hlow]
    apply BitVec.eq_of_getLsbD_eq
    intro j hj
    by_cases htop : j = w - 1
    · have hindex : j - (w - (i + 1)) = i := by omega
      have hin : ¬ j < w - (i + 1) := by omega
      have hout : (b <<< (w - i)).getLsbD (1 + j) = false := by
        apply BitVec.getLsbD_of_ge
        omega
      simp only [Bool.false_eq_true, if_false, BitVec.getLsbD_xor, BitVec.getLsbD_ushiftRight, hout,
        BitVec.getLsbD_shiftLeft, hindex, hj, hin, decide_true, decide_false]
      cases b.getLsbD i <;> simp [top, htop]
      omega
    · have hindex : 1 + j - (w - i) = j - (w - (i + 1)) := by omega
      have hout : (if b.getLsbD i then top w else 0#w).getLsbD j = false := by
        cases b.getLsbD i <;> simp [top]
        omega
      simp only [Bool.false_eq_true, if_false, BitVec.getLsbD_xor, hout, BitVec.getLsbD_ushiftRight,
        BitVec.getLsbD_shiftLeft, hindex]
      by_cases hlt : j < w - (i + 1) <;> simp [hj, hlt] <;> omega

theorem combine_top (b : BitVec w) : combine poly (top w) (bitsOf w b.toNat) = b := by
  have hall : combine poly (top w) ((bitsOf w b.toNat).take w) = b <<< (w - w) :=
    combine_take b (le_refl w)
  rw [List.take_of_length_le (by simp [bitsOf])] at hall
  simpa using hall

theorem bitSteps_eq_combine (n : Nat) (b : BitVec w) :
    bitSteps poly n b = combine poly (bitSteps poly n (top w)) (bitsOf w b.toNat) := by
  rw [← combine_bitSteps, combine_top]

/-- Twice as many steps as those that have made `r` of the top bit. -/
def double (poly r : BitVec w) : BitVec w := combine poly r (bitsOf w r.toNat)

theorem bitSteps_two_pow (k : Nat) :
    bitSteps poly (2 ^ k) (top w) = (double poly)^[k] (bitStep poly (top w)) := by
  induction k with
  | zero => rfl
  | succ k ih =>
    rw [iterate_succ_apply', ← ih, double, ← bitSteps_eq_combine, ← bitSteps_add, pow_succ, mul_two]

/-- A register is back where it started after as many steps as the order says, and no sooner. -/
theorem minimalPeriod_eq {p k : Nat} (hp : p.Prime) (hk : p + 1 = 2 ^ k) (hmsb : poly.msb = true)
    (hcycle : (double poly)^[k] (bitStep poly (top w)) = bitStep poly (top w)) {r : BitVec w}
    (hr : bitStep poly r ≠ r) : minimalPeriod (bitStep poly) r = p := by
  have hfact : Fact p.Prime := ⟨hp⟩
  refine minimalPeriod_eq_prime (bitStep_injective hmsb ?_) hr
  calc bitStep poly ((bitStep poly)^[p] r)
      = bitSteps poly (2 ^ k) r := by rw [← iterate_succ_apply' (bitStep poly), ← hk, bitSteps_eq_iterate]
    _ = combine poly (bitSteps poly 1 (top w)) (bitsOf w r.toNat) := by
      rw [bitSteps_eq_combine, bitSteps_two_pow, hcycle]
      rfl
    _ = bitStep poly r := (bitSteps_eq_combine 1 r).symm

def parity (r : BitVec w) : Bool := ((List.range w).map r.getLsbD).foldr xor false

theorem foldr_xor_map (f g : Nat → Bool) (is : List Nat) :
    (is.map fun i => f i ^^ g i).foldr xor false =
      ((is.map f).foldr xor false ^^ (is.map g).foldr xor false) := by
  induction is with
  | nil => rfl
  | cons i is ih => simp [ih, Bool.xor_left_comm]

theorem parity_xor (a b : BitVec w) : parity (a ^^^ b) = (parity a ^^ parity b) := by
  have hbits : (a ^^^ b).getLsbD = fun i => a.getLsbD i ^^ b.getLsbD i := by
    funext i
    exact BitVec.getLsbD_xor
  rw [parity, hbits]
  exact foldr_xor_map _ _ _

theorem parity_zero : parity 0#w = false := by
  simpa using parity_xor 0#w 0#w

theorem parity_shift (r : BitVec w) : parity (r >>> 1) = (parity r ^^ r.getLsbD 0) := by
  cases w with
  | zero => simp [BitVec.eq_nil r, parity]
  | succ w =>
    have hlow : parity r = (r.getLsbD 0 ^^
        ((List.range w).map fun i => r.getLsbD (i + 1)).foldr xor false) := by
      simp [parity, List.range_succ_eq_map, Function.comp_def]
    have hbits : (r >>> 1).getLsbD = fun i => r.getLsbD (i + 1) := by
      funext i
      rw [BitVec.getLsbD_ushiftRight, Nat.add_comm 1 i]
    have hshift : parity (r >>> 1) =
        ((List.range w).map fun i => r.getLsbD (i + 1)).foldr xor false := by
      simp [parity, hbits, List.range_succ]
    rw [hlow, hshift]
    cases r.getLsbD 0 <;> simp

theorem parity_bitStep (hodd : parity poly = true) (r : BitVec w) :
    parity (bitStep poly r) = parity r := by
  rw [bitStep]
  split
  · next h => simp [parity_xor, parity_shift, hodd, h]
  · next h => simp [parity_shift, h]

theorem parity_bitSteps (hodd : parity poly = true) (n : Nat) (r : BitVec w) :
    parity (bitSteps poly n r) = parity r := by
  induction n generalizing r with
  | zero => rfl
  | succ n ih => exact (ih _).trans (parity_bitStep hodd r)

theorem feed_xor (r d : BitVec w) (bs : List UInt8) :
    feed poly (r ^^^ d) bs = feed poly r bs ^^^ bitSteps poly (8 * bs.length) d := by
  induction bs generalizing r d with
  | nil => rfl
  | cons b bs ih =>
    have hstep : byteStep poly (r ^^^ d) b = byteStep poly r b ^^^ bitSteps poly 8 d := by
      rw [byteStep, byteStep, ← bitSteps_xor, BitVec.xor_assoc, BitVec.xor_assoc,
        BitVec.xor_comm d]
    have hlen : 8 * (b :: bs).length = 8 + 8 * bs.length := by
      rw [List.length_cons]
      omega
    rw [hlen, bitSteps_add]
    exact (congrArg (feed poly · bs) hstep).trans (ih _ _)

/-- How many bits there are from the flipped one to the end of a string of `n` bytes. -/
def depth (n : Nat) (f : Flip) : Nat := 8 * n - (8 * f.1 + f.2)

theorem byteStep_flip (hw : 8 ≤ w) (r : BitVec w) (b : UInt8) (k : Fin 8) :
    byteStep poly r (b ^^^ (1 <<< UInt8.ofNat k)) =
      byteStep poly r b ^^^ bitSteps poly (8 - k) 1#w := by
  have hmask : ∀ k : Fin 8, (1 <<< UInt8.ofNat k : UInt8).toNat = 1 * 2 ^ k.val := by decide
  have hlt : 1 * 2 ^ k.val < 2 ^ w := by
    rw [one_mul]
    exact Nat.pow_lt_pow_right (by omega) (by omega)
  have hrun : bitSteps poly 8 (BitVec.ofNat w (1 * 2 ^ k.val)) = bitSteps poly (8 - k) 1#w := by
    have hsplit : k.val + (8 - k.val) = 8 := by omega
    have hadd := bitSteps_add poly k (8 - k) (BitVec.ofNat w (1 * 2 ^ k.val))
    rwa [hsplit, bitSteps_mul_two_pow poly hlt] at hadd
  rw [byteStep, UInt8.toNat_xor, BitVec.ofNat_xor, hmask, ← BitVec.xor_assoc, bitSteps_xor, hrun,
    byteStep]

theorem feed_flip (hw : 8 ≤ w) (r : BitVec w) {bs : List UInt8} {f : Flip} (hf : f.1 < bs.length) :
    feed poly r (flip bs f) = feed poly r bs ^^^ bitSteps poly (depth bs.length f) 1#w := by
  have hsplit : bs = bs.take f.1 ++ bs[f.1] :: bs.drop (f.1 + 1) := by
    rw [← List.drop_eq_getElem_cons, List.take_append_drop]
  have hflip : flip bs f = bs.take f.1 ++
      (bs[f.1] ^^^ (1 <<< UInt8.ofNat f.2)) :: bs.drop (f.1 + 1) :=
    List.modify_eq_take_cons_drop hf
  have hfeed : feed poly r bs = feed poly (byteStep poly (feed poly r (bs.take f.1)) bs[f.1])
      (bs.drop (f.1 + 1)) := by
    conv_lhs => rw [hsplit, feed_append]
    rfl
  have hdepth : depth bs.length f = 8 - f.2 + 8 * (bs.drop (f.1 + 1)).length := by
    rw [depth, List.length_drop]
    omega
  calc feed poly r (flip bs f)
      = feed poly (byteStep poly (feed poly r (bs.take f.1))
          (bs[f.1] ^^^ (1 <<< UInt8.ofNat f.2))) (bs.drop (f.1 + 1)) := by
        rw [hflip, feed_append]
        rfl
    _ = feed poly (byteStep poly (feed poly r (bs.take f.1)) bs[f.1]) (bs.drop (f.1 + 1)) ^^^
          bitSteps poly (depth bs.length f) 1#w := by
        rw [byteStep_flip hw, feed_xor, hdepth, bitSteps_add]
    _ = feed poly r bs ^^^ bitSteps poly (depth bs.length f) 1#w := by rw [hfeed]

/-- What flips add to the register. -/
def effect (poly : BitVec w) (n : Nat) (fs : List Flip) : BitVec w :=
  fs.foldr (fun f r => bitSteps poly (depth n f) 1#w ^^^ r) 0#w

theorem feed_flipAll (hw : 8 ≤ w) (r : BitVec w) {bs : List UInt8} {fs : List Flip}
    (hfs : ∀ f ∈ fs, f.1 < bs.length) :
    feed poly r (flipAll bs fs) = feed poly r bs ^^^ effect poly bs.length fs := by
  induction fs generalizing bs with
  | nil => simp [effect]
  | cons f fs ih =>
    have hrest : ∀ f' ∈ fs, f'.1 < (flip bs f).length := fun f' hf' => by
      rw [flip_length]
      exact hfs f' (List.mem_cons_of_mem _ hf')
    rw [flipAll_cons, ih hrest, feed_flip hw r (hfs f List.mem_cons_self), flip_length,
      BitVec.xor_assoc]
    rfl

theorem parity_effect (hodd : parity poly = true) (hw : 0 < w) (n : Nat) (fs : List Flip) :
    parity (effect poly n fs) = decide (Odd fs.length) := by
  have hone : parity 1#w = true := by
    have hshift : 1#w >>> 1 = 0#w := by
      apply BitVec.eq_of_toNat_eq
      simp [Nat.shiftRight_eq_div_pow, Nat.mod_eq_of_lt (Nat.one_lt_two_pow hw.ne')]
    have hparity := parity_shift 1#w
    rw [hshift, parity_zero] at hparity
    simpa [hw] using hparity.symm
  induction fs with
  | nil => exact parity_zero
  | cons f fs ih =>
    rw [effect, List.foldr_cons, parity_xor, parity_bitSteps hodd, hone]
    rw [effect] at ih
    rw [ih, List.length_cons]
    by_cases h : Odd fs.length <;> simp [Nat.odd_add_one, h]

theorem bitSteps_eq_self_iff (n : Nat) (r : BitVec w) :
    bitSteps poly n r = r ↔ minimalPeriod (bitStep poly) r ∣ n := by
  rw [bitSteps_eq_iterate, ← isPeriodicPt_iff_minimalPeriod_dvd]
  rfl

/-- Two flips cancel out only if they are a multiple of the period apart. -/
theorem bitSteps_ne (hmsb : poly.msb = true) {r : BitVec w} {m n : Nat} (hm : 0 < m) (hmn : m < n)
    (hn : n ≤ minimalPeriod (bitStep poly) r) : bitSteps poly m r ≠ bitSteps poly n r := by
  intro heq
  have hsplit : n = n - m + m := by omega
  rw [hsplit, bitSteps_add] at heq
  have hself := (bitSteps_eq_self_iff _ _).mp (bitSteps_injective hmsb m heq).symm
  exact absurd (Nat.le_of_dvd (by omega) hself) (by omega)

theorem depth_pos {n : Nat} {f : Flip} (hf : f.1 < n) : 0 < depth n f := by
  have hf' := f.2.isLt
  rw [depth]
  omega

theorem depth_injective {n : Nat} {f g : Flip} (hf : f.1 < n) (hg : g.1 < n)
    (h : depth n f = depth n g) : f = g := by
  have hf' := f.2.isLt
  have hg' := g.2.isLt
  rw [depth, depth] at h
  exact Prod.ext (by omega) (Fin.ext (by omega))

/-- Two strings of one length that differ in two bits, or in an odd number of them. -/
structure FewFlips (as bs : List UInt8) : Prop where
  length_eq : as.length = bs.length
  few : (differing as bs).card = 2 ∨ Odd (differing as bs).card

theorem FewFlips.of_card {as bs : List UInt8} (hl : as.length = bs.length) (hne : as ≠ bs)
    (h : (differing as bs).card ≤ 3) : FewFlips as bs := by
  have hpos : (differing as bs).card ≠ 0 := fun hzero =>
    hne ((differing_eq_empty_iff hl).mp (Finset.card_eq_zero.mp hzero))
  refine ⟨hl, ?_⟩
  interval_cases hcard : (differing as bs).card
  · exact absurd rfl hpos
  · exact .inr odd_one
  · exact .inl rfl
  · exact .inr (by decide)

theorem differing_take_card_le (as bs : List UInt8) (n : Nat) :
    (differing (as.take n) (bs.take n)).card ≤ (differing as bs).card := by
  apply Finset.card_le_card
  intro f hf
  simp only [differing, Finset.mem_filter, Finset.mem_product, Finset.mem_range, Finset.mem_univ,
    List.length_take, bitAt, List.getD_eq_getElem?_getD, List.getElem?_take] at hf ⊢
  have hn : f.1 < n := by omega
  simp only [hn, if_true] at hf
  exact ⟨⟨by omega, trivial⟩, hf.2⟩

theorem differing_drop_card {as bs : List UInt8} {n : Nat} (h : as.take n = bs.take n) :
    (differing (as.drop n) (bs.drop n)).card = (differing as bs).card := by
  have hsame : ∀ i < n, as[i]? = bs[i]? := by
    intro i hi
    have htake := congrArg (fun cs : List UInt8 => cs[i]?) h
    simpa [List.getElem?_take, hi] using htake
  apply Finset.card_bij fun f _ => (n + f.1, f.2)
  · intro f hf
    simp only [differing, Finset.mem_filter, Finset.mem_product, Finset.mem_range, Finset.mem_univ,
      List.length_drop, bitAt, List.getD_eq_getElem?_getD, List.getElem?_drop] at hf ⊢
    exact ⟨⟨by omega, trivial⟩, hf.2⟩
  · intro f _ g _ hfg
    obtain ⟨hpos, hbit⟩ := Prod.mk.inj hfg
    exact Prod.ext (by omega) hbit
  · intro g hg
    simp only [differing, Finset.mem_filter, Finset.mem_product, Finset.mem_range, Finset.mem_univ,
      bitAt, List.getD_eq_getElem?_getD] at hg
    have hn : n ≤ g.1 := by
      by_contra hlt
      exact hg.2 (by rw [hsame _ (by omega)])
    have hback : n + (g.1 - n) = g.1 := by omega
    refine ⟨(g.1 - n, g.2), ?_, Prod.ext hback rfl⟩
    simp only [differing, Finset.mem_filter, Finset.mem_product, Finset.mem_range, Finset.mem_univ,
      List.length_drop, bitAt, List.getD_eq_getElem?_getD, List.getElem?_drop, hback]
    exact ⟨⟨by omega, trivial⟩, hg.2⟩

theorem flipAll_differing {as bs : List UInt8} (hl : as.length = bs.length) :
    flipAll as (differing as bs).toList = bs := by
  have hinside : ∀ f ∈ (differing as bs).toList, f.1 < as.length := by
    intro f hf
    simp [differing] at hf
    exact hf.1
  apply eq_of_bitAt ((flipAll_length _ _).trans hl)
  intro f
  rw [bitAt_flipAll hinside]
  by_cases hf : f ∈ differing as bs
  · have hcount : (differing as bs).toList.count f = 1 :=
      List.count_eq_one_of_mem (Finset.nodup_toList _) (Finset.mem_toList.mpr hf)
    have hne := (Finset.mem_filter.mp hf).2
    rw [hcount]
    cases ha : bitAt as f <;> cases hb : bitAt bs f <;> simp_all
  · have hcount : (differing as bs).toList.count f = 0 :=
      List.count_eq_zero.mpr fun h => hf (Finset.mem_toList.mp h)
    rw [hcount]
    by_cases hin : f.1 < as.length
    · by_contra hne
      exact hf (by simpa [differing, hin] using hne)
    · have hout : bs.length ≤ f.1 := hl ▸ Nat.le_of_not_lt hin
      simp [bitAt, List.getD_eq_getElem?_getD, Nat.le_of_not_lt hin, hout]

/-- A register whose polynomial has odd parity and whose period exceeds the string tells them
apart. -/
theorem FewFlips.feed_ne (hw : 8 ≤ w) (hmsb : poly.msb = true) (hodd : parity poly = true)
    (r : BitVec w) {as bs : List UInt8} (h : FewFlips as bs)
    (hlen : 8 * as.length ≤ minimalPeriod (bitStep poly) 1#w) : feed poly r as ≠ feed poly r bs := by
  intro heq
  have hinside : ∀ f ∈ (differing as bs).toList, f.1 < as.length := by
    intro f hf
    simp [differing] at hf
    exact hf.1
  have hfeed : feed poly r (flipAll as (differing as bs).toList) =
      feed poly r as ^^^ effect poly as.length (differing as bs).toList :=
    feed_flipAll hw r hinside
  rw [flipAll_differing h.length_eq, ← heq] at hfeed
  have hzero : effect poly as.length (differing as bs).toList = 0#w := by
    have hcancel := congrArg (feed poly r as ^^^ ·) hfeed
    simpa [← BitVec.xor_assoc] using hcancel.symm
  rcases h.few with htwo | hodds
  · rw [← Finset.length_toList, List.length_eq_two] at htwo
    obtain ⟨f, g, hlist⟩ := htwo
    have hnodup := (differing as bs).nodup_toList
    rw [hlist] at hzero hinside hnodup
    have hf : f.1 < as.length := hinside f (by simp)
    have hg : g.1 < as.length := hinside g (by simp)
    have hsame : bitSteps poly (depth as.length f) 1#w = bitSteps poly (depth as.length g) 1#w := by
      simpa [effect] using hzero
    have hdepth : depth as.length f ≠ depth as.length g := by
      intro hd
      simp [depth_injective hf hg hd] at hnodup
    have hfpos := depth_pos hf
    have hgpos := depth_pos hg
    have hfle : depth as.length f ≤ 8 * as.length := Nat.sub_le _ _
    have hgle : depth as.length g ≤ 8 * as.length := Nat.sub_le _ _
    rcases Nat.lt_or_gt_of_ne hdepth with hlt | hgt
    · exact bitSteps_ne hmsb hfpos hlt (hgle.trans hlen) hsame
    · exact bitSteps_ne hmsb hgpos hgt (hfle.trans hlen) hsame.symm
  · have hparity := parity_effect hodd (by omega) as.length (differing as bs).toList
    rw [hzero, parity_zero, Finset.length_toList] at hparity
    simp [hodds] at hparity

end Crc
