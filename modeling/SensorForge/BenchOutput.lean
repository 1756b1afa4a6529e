import SensorForge.FixedPoint
import SensorForge.RegressionGate

/-! What the benchmarks print, and what the gate reads of it. -/

namespace SensorForge.Bench

open Backtracking Ci GeneralFormat OrderStatistic PythonText
open Dashboard (atEnd)

structure LatencyStats where
  p50Ns : ℚ := 0
  p99Ns : ℚ := 0
  p999Ns : ℚ := 0
  msgsPerSec : ℚ := 0
  iterations : Nat := 0

/-- `measure`, from the times of the operations and that of the whole loop. -/
def measure (samples : List ℚ) (totalS : ℚ) : LatencyStats :=
  let s := sorted samples
  let pct (p : ℚ) : ℚ := if samples.isEmpty then 0 else s.getD ⌊p * (s.length - 1 : Nat)⌋₊ 0
  { iterations := samples.length
    p50Ns := pct (50 / 100)
    p99Ns := pct (99 / 100)
    p999Ns := pct (999 / 1000)
    msgsPerSec := if totalS > 0 then samples.length / totalS else 0 }

/-- `key=%.pf` and the unit. -/
structure Field where
  key : Text
  places : Nat
  value : ℚ
  unit : Text := []

def Field.print (f : Field) : Text := f.key ++ '=' :: (fixedPoint f.places f.value ++ f.unit)

/-- What a benchmark prints: by `report`, by `report_throughput`, or otherwise. -/
inductive Line
  | report (name : Text) (s : LatencyStats)
  | reportThroughput (name : Text) (gbps : ℚ)
  | other (text : Text)

def LatencyStats.fields (s : LatencyStats) : List Field :=
  [⟨"msgs/sec".toList, 0, s.msgsPerSec, []⟩, ⟨"p50".toList, 0, s.p50Ns, "ns".toList⟩,
    ⟨"p99".toList, 0, s.p99Ns, "ns".toList⟩, ⟨"p999".toList, 0, s.p999Ns, "ns".toList⟩]

def throughputFields (gbps : ℚ) : List Field := [⟨"GB/s".toList, 3, gbps, []⟩]

def tag : Text := "[BENCH] ".toList

/-- `[BENCH] %-24s` and the fields. -/
def benchLine (name : Text) (fields : List Field) : Text :=
  tag ++ (name.rightpad 24 ' ' ++ fields.flatMap fun f => ' ' :: f.print)

def Line.print : Line → Text
  | .report name s => benchLine name s.fields
  | .reportThroughput name gbps => benchLine name (throughputFields gbps)
  | .other text => text

def output (lines : List Line) : Text := lines.flatMap fun l => l.print ++ ['\n']

section Fields

variable {U : Unicode} {key value unit rest : Text}

/-- A word, or two with a slash between them. -/
def IsKey (U : Unicode) (key : Text) : Prop :=
  ∃ c front back, key = c :: front ++ back ∧ isWord U c = true ∧
    (∀ d ∈ front, isWord U d = true) ∧
    (back = [] ∨ ∃ tail, back = '/' :: tail ∧ ∀ d ∈ tail, isWord U d = true)

theorem fixedPoint_numberChar (p : Nat) (v : ℚ) :
    ∀ c ∈ fixedPoint p v, isNumberChar c = true := by
  intro c hc
  rcases fixedPoint_chars p v c hc with hdigit | rfl | rfl
  · rw [isNumberChar, hdigit, Bool.true_or]
  · decide
  · decide

structure Field.Proper (U : Unicode) (f : Field) : Prop where
  key : IsKey U f.key
  unit : ∀ c ∈ f.unit, isWord U c = true
  ends : ∀ c, f.unit.head? = some c → isNumberChar c = false
  unspaced : ∀ c ∈ f.key ++ f.unit, isSpace c = false

theorem first_kvRe (hkey : IsKey U key) (hne : value ≠ [])
    (hvalue : ∀ c ∈ value, isNumberChar c = true)
    (hrest : ∀ c, rest.head? = some c → isNumberChar c = false) :
    (kvRe U).first (key ++ '=' :: (value ++ rest)) = some ((key, value), rest) := by
  obtain ⟨c, front, back, rfl, hc, hfront, hback⟩ := hkey
  obtain ⟨d, ds, rfl⟩ := List.exists_cons_of_ne_nil hne
  obtain ⟨hd, hds⟩ := List.forall_mem_cons.mp hvalue
  have hequals : isWord U '=' = false := rfl
  have hslash : isWord U '/' = false := rfl
  have hnumber := first_plus_one hd hds hrest
  rcases hback with rfl | ⟨tail, rfl, htail⟩
  · have hfirst : (one (isWord U)).plus.first (c :: front ++ ([] ++ '=' :: (d :: ds ++ rest))) =
        some (c :: front, '=' :: (d :: ds ++ rest)) := by
      refine first_plus_one hc hfront ?_
      rintro e ⟨⟩
      exact hequals
    rw [List.append_assoc]
    refine first_bind hfirst (first_bind (first_optional_none ?_) (first_bind
      (@first_star_one _ _ [] _ (fun _ h => absurd h List.not_mem_nil) ?_)
      (first_bind (first_one rfl _) ((first_map hnumber).trans ?_))))
    · exact one_eq_nil (by rintro e ⟨⟩; decide)
    · rintro e ⟨⟩
      exact hequals
    · simp
  · have hfirst : (one (isWord U)).plus.first
        (c :: front ++ ('/' :: tail ++ '=' :: (d :: ds ++ rest))) =
        some (c :: front, '/' :: tail ++ '=' :: (d :: ds ++ rest)) := by
      refine first_plus_one hc hfront ?_
      rintro e ⟨⟩
      exact hslash
    rw [List.append_assoc]
    refine first_bind hfirst (first_bind (first_optional (first_one rfl _)) (first_bind
      (first_star_one htail ?_) (first_bind (first_one rfl _) ((first_map hnumber).trans ?_))))
    · rintro e ⟨⟩
      exact hequals
    · simp

/-- What matches has an equals sign behind nothing but words and slashes. -/
theorem sound_kvRe : (kvRe U).Sound fun _ t =>
    ∃ u v, t = u ++ '=' :: v ∧ ∀ c ∈ u, isWord U c = true ∨ c = '/' := by
  have hstep : ∀ {α : Type} {m : Pattern Char α} {f : α → Pattern Char (Text × Text)},
      (m.Sound fun _ t => ∀ c ∈ t, isWord U c = true ∨ c = '/') →
      (∀ a, (f a).Sound fun _ t =>
        ∃ u v, t = u ++ '=' :: v ∧ ∀ c ∈ u, isWord U c = true ∨ c = '/') →
      (m.bind f).Sound fun _ t =>
        ∃ u v, t = u ++ '=' :: v ∧ ∀ c ∈ u, isWord U c = true ∨ c = '/' := by
    intro α m f hm hf
    refine hm.bind hf ?_
    rintro a b t _ ht ⟨u, v, rfl, hu⟩
    exact ⟨t ++ u, v, by rw [List.append_assoc], List.forall_mem_append.mpr ⟨ht, hu⟩⟩
  have hplus : (one (isWord U)).plus.Sound fun _ t => ∀ c ∈ t, isWord U c = true ∨ c = '/' := by
    intro s a ha
    obtain ⟨t, hs, rfl, -, hall⟩ := sound_plus_one _ s a ha
    exact ⟨_, hs, fun c hc => .inl (hall c hc)⟩
  have hslash : (one (· = '/')).optional.Sound fun _ t => ∀ c ∈ t, isWord U c = true ∨ c = '/' := by
    intro s a ha
    obtain ⟨t, hs, ⟨-, rfl⟩ | ⟨b, -, rfl, hb⟩⟩ := (sound_one (· = '/')).optional s a ha
    · exact ⟨[], hs, fun c hc => absurd hc List.not_mem_nil⟩
    · exact ⟨[b], hs, List.forall_mem_singleton.mpr (.inr (of_decide_eq_true hb))⟩
  have hstar : (one (isWord U)).star.Sound fun _ t => ∀ c ∈ t, isWord U c = true ∨ c = '/' := by
    intro s a ha
    obtain ⟨t, hs, rfl, hall⟩ := sound_star_one _ s a ha
    exact ⟨_, hs, fun c hc => .inl (hall c hc)⟩
  refine hstep hplus fun front => hstep hslash fun slash => hstep hstar fun back =>
    (sound_one (· = '=')).bind (N := fun _ _ _ => True)
      (fun _ => (sound_plus_one isNumberChar).map fun _ _ _ => trivial) ?_
  rintro c _ t u ⟨rfl, hc⟩ -
  exact ⟨[], u, by rw [of_decide_eq_true hc]; rfl, fun d hd => absurd hd List.not_mem_nil⟩

theorem kvRe_eq_nil {junk : Text} (hjunk : ∀ c ∈ junk, isWord U c = true)
    (hrest : rest = [] ∨ ∃ more, rest = ' ' :: more) : kvRe U (junk ++ rest) = [] := by
  have hword : isWord U '=' = false ∧ isWord U ' ' = false := ⟨rfl, rfl⟩
  have hequals : '=' ∉ junk := fun h => absurd (hjunk _ h) (by simp [hword.1])
  refine List.eq_nil_iff_forall_not_mem.mpr fun a ha => ?_
  obtain ⟨_, hs, u, v, rfl, hu⟩ := sound_kvRe (junk ++ rest) a ha
  have hspace : ' ' ∉ u := fun h => absurd (hu _ h) (by simp [hword.2])
  rw [List.append_assoc, List.cons_append, List.append_eq_append_iff] at hs
  rcases hs with ⟨x, rfl, hx⟩ | ⟨x, rfl, hx⟩
  · cases x with
    | nil =>
      rcases hrest with rfl | ⟨more, rfl⟩
      · cases hx
      · exact absurd (List.cons.inj hx).1 (by decide)
    | cons c x =>
      rcases hrest with rfl | ⟨more, rfl⟩
      · cases hx
      · obtain rfl : ' ' = c := (List.cons.inj hx).1
        exact hspace (by simp)
  · cases x with
    | nil =>
      rcases hrest with rfl | ⟨more, rfl⟩
      · cases hx
      · exact absurd (List.cons.inj hx).1 (by decide)
    | cons c x =>
      obtain rfl : '=' = c := (List.cons.inj hx).1
      exact hequals (by simp)

theorem findAll_junk {junk : Text} (hjunk : ∀ c ∈ junk, isWord U c = true)
    (hrest : rest = [] ∨ ∃ more, rest = ' ' :: more) :
    (kvRe U).findAll (junk ++ rest) = (kvRe U).findAll rest := by
  induction junk with
  | nil => rfl
  | cons c junk ih =>
    have hnone : kvRe U (c :: (junk ++ rest)) = [] := kvRe_eq_nil hjunk hrest
    rw [List.cons_append, findAll_skip hnone]
    exact ih fun d hd => hjunk d (List.mem_cons_of_mem c hd)

/-- What stands behind a field starts with a space. -/
theorem fields_rest (fields : List Field) : (fields.flatMap fun f => ' ' :: f.print) = [] ∨
    ∃ more, (fields.flatMap fun f => ' ' :: f.print) = ' ' :: more := by
  cases fields with
  | nil => exact .inl rfl
  | cons g fields => exact .inr ⟨_, rfl⟩

theorem findAll_fields {fields : List Field} (h : ∀ f ∈ fields, f.Proper U) :
    (kvRe U).findAll (fields.flatMap fun f => ' ' :: f.print) =
      fields.map fun f => (f.key, fixedPoint f.places f.value) := by
  induction fields with
  | nil => rw [List.flatMap_nil, Pattern.findAll]; rfl
  | cons f fields ih =>
    obtain ⟨hf, hfields⟩ := List.forall_mem_cons.mp h
    have hends : ∀ c, (f.unit ++ fields.flatMap fun f => ' ' :: f.print).head? = some c →
        isNumberChar c = false := by
      intro c hc
      cases hunit : f.unit with
      | nil =>
        rw [hunit, List.nil_append] at hc
        rcases fields_rest fields with hnil | ⟨more, hmore⟩
        · rw [hnil] at hc
          cases hc
        · rw [hmore] at hc
          rw [← Option.some.inj hc]
          decide
      | cons d unit =>
        rw [hunit] at hc
        exact hf.ends c (by rw [hunit]; exact hc)
    have hskip : kvRe U (' ' :: (f.print ++ fields.flatMap fun f => ' ' :: f.print)) = [] :=
      @kvRe_eq_nil U _ [] (fun _ h => absurd h List.not_mem_nil) (.inr ⟨_, rfl⟩)
    have hfirst := first_kvRe hf.key (fixedPoint_ne_nil f.places f.value)
      (fixedPoint_numberChar f.places f.value) hends
    rw [List.flatMap_cons, List.cons_append, findAll_skip hskip, Field.print, List.append_assoc,
      List.cons_append, List.append_assoc, findAll_cons hfirst (by simp; omega),
      findAll_junk hf.unit (fields_rest fields), ih hfields]
    rfl

theorem isNumberChar_notSpace {c : Char} (hc : isNumberChar c = true) : isSpace c = false := by
  rw [isNumberChar, Bool.or_eq_true] at hc
  rcases hc with hc | hc
  · exact Dashboard.nameChar_notSpace (by rw [Metrics.isNameChar, hc, Bool.or_true])
  · simp only [List.mem_cons, List.not_mem_nil, or_false, decide_eq_true_eq] at hc
    rcases hc with rfl | rfl | rfl | rfl | rfl <;> decide

theorem print_unspaced {f : Field} (h : f.Proper U) : ∀ c ∈ f.print, isSpace c = false := by
  obtain ⟨hkey, hunit⟩ := List.forall_mem_append.mp h.unspaced
  have hvalue : ∀ c ∈ fixedPoint f.places f.value, isSpace c = false :=
    fun c hc => isNumberChar_notSpace (fixedPoint_numberChar _ _ c hc)
  exact List.forall_mem_append.mpr ⟨hkey, List.forall_mem_cons.mpr ⟨by decide,
    List.forall_mem_append.mpr ⟨hvalue, hunit⟩⟩⟩

theorem isKey_word {c : Char} {front : Text} (h : (c :: front).all (isWord U) = true) :
    IsKey U (c :: front) := by
  obtain ⟨hc, hfront⟩ := List.forall_mem_cons.mp (List.all_eq_true.mp h)
  exact ⟨c, front, [], by simp, hc, hfront, .inl rfl⟩

theorem isKey_slash {c : Char} {front tail : Text} (h : (c :: front).all (isWord U) = true)
    (htail : tail.all (isWord U) = true) : IsKey U (c :: front ++ '/' :: tail) := by
  obtain ⟨hc, hfront⟩ := List.forall_mem_cons.mp (List.all_eq_true.mp h)
  exact ⟨c, front, _, rfl, hc, hfront, .inr ⟨tail, rfl, List.all_eq_true.mp htail⟩⟩

theorem field_proper {f : Field} (hkey : IsKey U f.key) (hunit : f.unit = [] ∨ f.unit = "ns".toList)
    (hspace : (f.key ++ f.unit).all (!isSpace ·) = true) : f.Proper U := by
  have hunspaced : ∀ c ∈ f.key ++ f.unit, isSpace c = false := by
    intro c hc
    simpa using List.all_eq_true.mp hspace c hc
  rcases hunit with hunit | hunit
  · refine ⟨hkey, ?_, ?_, hunspaced⟩ <;> rw [hunit]
    · exact fun c hc => absurd hc List.not_mem_nil
    · rintro c ⟨⟩
  · refine ⟨hkey, ?_, ?_, hunspaced⟩ <;> rw [hunit]
    · exact List.all_eq_true.mp rfl
    · rintro c ⟨⟩
      decide

/-- Every field of what the benchmarks print is one that the gate reads. -/
theorem stats_proper (s : LatencyStats) : ∀ f ∈ s.fields, f.Proper U := by
  refine List.forall_mem_cons.mpr ⟨field_proper ?_ (.inl rfl) rfl,
    List.forall_mem_cons.mpr ⟨field_proper ?_ (.inr rfl) rfl,
      List.forall_mem_cons.mpr ⟨field_proper ?_ (.inr rfl) rfl,
        List.forall_mem_singleton.mpr (field_proper ?_ (.inr rfl) rfl)⟩⟩⟩
  · exact @isKey_slash U 'm' ['s', 'g', 's'] ['s', 'e', 'c'] rfl rfl
  · exact @isKey_word U 'p' ['5', '0'] rfl
  · exact @isKey_word U 'p' ['9', '9'] rfl
  · exact @isKey_word U 'p' ['9', '9', '9'] rfl

theorem throughput_proper (gbps : ℚ) : ∀ f ∈ throughputFields gbps, f.Proper U :=
  List.forall_mem_singleton.mpr (field_proper (@isKey_slash U 'G' ['B'] ['s'] rfl rfl) (.inl rfl)
    rfl)

end Fields

section Lines

variable {U : Unicode} {name : Text} {fields : List Field}

/-- A name of printable characters without a space. -/
def IsName (name : Text) : Prop := name ≠ [] ∧ ∀ c ∈ name, 33 ≤ c.toNat ∧ c.toNat < 127

theorem notSpace_of_printable {c : Char} (hc : 33 ≤ c.toNat ∧ c.toNat < 127) :
    isSpace c = false := by
  simp only [isSpace, List.mem_cons, List.not_mem_nil, or_false, Bool.or_eq_false_iff,
    decide_eq_false_iff_not, Bool.and_eq_false_iff]
  omega

theorem notBreak_of_notSpace {c : Char} (hc : isSpace c = false) : isLineBreak c = false := by
  rw [← Bool.not_eq_true] at hc ⊢
  refine fun hbreak => hc ?_
  simp only [isLineBreak, isSpace, List.mem_cons, List.not_mem_nil, or_false, decide_eq_true_eq,
    Bool.or_eq_true, Bool.and_eq_true] at hbreak ⊢
  omega

theorem first_literal (cs rest : Text) : (literal cs).first (cs ++ rest) = some ((), rest) := by
  induction cs with
  | nil => rfl
  | cons c cs ih =>
    have hc : decide (c = c) = true := decide_eq_true rfl
    exact first_bind (first_one (p := fun d => decide (d = c)) hc _) ih

theorem literal_eq_nil {cs s : Text} (h : ¬ cs <+: s) : literal cs s = [] := by
  induction cs generalizing s with
  | nil => exact absurd (List.nil_prefix) h
  | cons c cs ih =>
    cases s with
    | nil => rfl
    | cons d s =>
      rw [literal, Pattern.bind, one]
      by_cases hd : d = c
      · have hcs : ¬ cs <+: s := fun hp => h (by rw [hd]; exact (List.prefix_cons_inj c).mpr hp)
        simp [hd, ih hcs]
      · simp [hd]

theorem first_benchRe (hname : IsName name) {gap rest : Text} {c : Char} (hgap : gap ≠ [])
    (hspaces : ∀ d ∈ gap, isSpace d = true) (hc : isSpace c = false)
    (hrest : ∀ d ∈ c :: rest, d ≠ '\n') :
    benchRe.first (tag ++ (name ++ (gap ++ c :: rest))) =
      some ((name, c :: rest), []) := by
  obtain ⟨hne, hprintable⟩ := hname
  have hchars : ∀ c ∈ name, isSpace c = false := fun c hc => notSpace_of_printable (hprintable c hc)
  obtain ⟨n, ns, rfl⟩ := List.exists_cons_of_ne_nil hne
  obtain ⟨g, gs, rfl⟩ := List.exists_cons_of_ne_nil hgap
  obtain ⟨hg, hgs⟩ := List.forall_mem_cons.mp hspaces
  obtain ⟨hn, hns⟩ := List.forall_mem_cons.mp hchars
  have hfirst : (literal "[BENCH]".toList).first
      (tag ++ (n :: ns ++ (g :: gs ++ c :: rest))) =
      some ((), ' ' :: (n :: ns ++ (g :: gs ++ c :: rest))) := first_literal "[BENCH]".toList _
  have hspace : (one isSpace).plus.first (' ' :: [] ++ (n :: ns ++ (g :: gs ++ c :: rest))) =
      some (' ' :: [], n :: ns ++ (g :: gs ++ c :: rest)) := by
    refine first_plus_one (by decide) (fun _ h => absurd h List.not_mem_nil) ?_
    rintro d ⟨⟩
    exact hn
  have hword : (one (!isSpace ·)).plus.first (n :: ns ++ (g :: gs ++ c :: rest)) =
      some (n :: ns, g :: gs ++ c :: rest) := by
    refine first_plus_one (by simp [hn]) (fun d hd => by simp [hns d hd]) ?_
    rintro d ⟨⟩
    simp [hg]
  have hgaps : (one isSpace).plus.first (g :: gs ++ c :: rest) = some (g :: gs, c :: rest) := by
    refine first_plus_one hg hgs ?_
    rintro d ⟨⟩
    exact hc
  have htext : (one (· ≠ '\n')).plus.first (c :: rest ++ []) = some (c :: rest, []) := by
    refine first_plus_one (decide_eq_true (hrest c List.mem_cons_self))
      (fun d hd => decide_eq_true (hrest d (List.mem_cons_of_mem c hd))) ?_
    rintro d ⟨⟩
  rw [List.append_nil] at htext
  exact first_bind hfirst (first_bind hspace (first_bind hword (first_bind hgaps
    (first_bind htext (first_map rfl)))))

theorem print_head {f : Field} (h : f.Proper U) : ∃ c rest, f.print = c :: rest := by
  obtain ⟨c, front, back, hkey, -⟩ := h.key
  exact ⟨c, _, by rw [Field.print, hkey]; rfl⟩

/-- What stands on a printed line. -/
theorem benchLine_noBreak (hname : IsName name) (h : ∀ f ∈ fields, f.Proper U) :
    ∀ c ∈ benchLine name fields, isLineBreak c = false := by
  have hspace : isLineBreak ' ' = false := by decide
  refine List.forall_mem_append.mpr ⟨?_, List.forall_mem_append.mpr
    ⟨List.forall_mem_append.mpr ⟨?_, ?_⟩, ?_⟩⟩
  · have hall : tag.all (!isLineBreak ·) = true := rfl
    simpa using hall
  · exact fun c hc => notBreak_of_notSpace (notSpace_of_printable (hname.2 c hc))
  · intro c hc
    rwa [List.eq_of_mem_replicate hc]
  · intro c hc
    obtain ⟨f, hf, hc⟩ := List.mem_flatMap.mp hc
    rcases List.mem_cons.mp hc with rfl | hc
    · exact hspace
    · exact notBreak_of_notSpace (print_unspaced (h f hf) c hc)

theorem benchLine_concat (name : Text) (fields : List Field) (f : Field) :
    benchLine name (fields ++ [f]) = (benchLine name fields ++ [' ']) ++ f.print := by
  rw [benchLine, benchLine, List.flatMap_append, List.flatMap_singleton, List.append_assoc,
    List.append_assoc, List.append_assoc]
  rfl

theorem strip_benchLine (hne : fields ≠ []) (h : ∀ f ∈ fields, f.Proper U) :
    strip (benchLine name fields) = benchLine name fields := by
  refine strip_eq_self ?_ ?_
  · rintro c ⟨⟩
    decide
  · intro c hc
    rw [← List.dropLast_append_getLast hne] at h hc
    generalize fields.getLast hne = f at h hc
    have hf := h f (by simp)
    obtain ⟨d, rest, hd⟩ := print_head hf
    have hne : f.print ≠ [] := by rw [hd]; exact List.cons_ne_nil d rest
    rw [benchLine_concat, List.getLast?_append_of_ne_nil _ hne] at hc
    exact print_unspaced hf c (List.mem_of_getLast? hc)

theorem first_benchLine (hname : IsName name) (hne : fields ≠ []) (h : ∀ f ∈ fields, f.Proper U) :
    ∃ rest, benchRe.first (benchLine name fields) = some ((name, rest), []) ∧
      (kvRe U).findAll rest = fields.map fun f => (f.key, fixedPoint f.places f.value) := by
  obtain ⟨f, fs, rfl⟩ := List.exists_cons_of_ne_nil hne
  obtain ⟨c, rest, hc⟩ := print_head (h f List.mem_cons_self)
  have hline : benchLine name (f :: fs) = tag ++ (name ++
      ((List.replicate (24 - name.length) ' ' ++ [' ']) ++
        c :: (rest ++ fs.flatMap fun f => ' ' :: f.print))) := by
    simp [benchLine, List.rightpad, hc]
  have hchars := benchLine_noBreak hname h
  have hspaces : ∀ d ∈ List.replicate (24 - name.length) ' ' ++ [' '], isSpace d = true := by
    refine List.forall_mem_append.mpr ⟨fun d hd => ?_, List.forall_mem_singleton.mpr (by decide)⟩
    rw [List.eq_of_mem_replicate hd]
    decide
  rw [hline] at hchars ⊢
  refine ⟨_, first_benchRe hname (by simp) hspaces ?_ ?_, ?_⟩
  · exact print_unspaced (h f List.mem_cons_self) c (by rw [hc]; exact List.mem_cons_self)
  · rintro d hd rfl
    have hbreak := hchars '\n' (List.mem_append_right _ (List.mem_append_right _
      (List.mem_append_right _ hd)))
    exact absurd hbreak (by decide)
  · have hskip : kvRe U (' ' :: (f.print ++ fs.flatMap fun f => ' ' :: f.print)) = [] :=
      @kvRe_eq_nil U _ [] (fun _ h => absurd h List.not_mem_nil) (.inr ⟨_, rfl⟩)
    rw [← findAll_fields h, List.flatMap_cons, List.cons_append, findAll_skip hskip, hc,
      List.cons_append]

end Lines

section Parse

variable {D : Type} (U : Unicode) (ofNumber : Number → D)

/-- Python's `float`, with another type for its values. -/
def readFloat (s : Text) : Option D := (float U s).map ofNumber

/-- The value of a field once it has been printed and read. -/
def Field.shown (f : Field) : D := ofNumber (nearest (roundedTo f.places f.value))

def metricsOf (fields : List Field) : Ci.Metrics D :=
  fields.foldl (fun metrics f =>
    metrics.insert (f.key.map fun c => if c = '/' then '_' else c) (f.shown ofNumber)) ∅

/-- The results that a line adds to those before it. -/
def Line.file (out : Results D) : Line → Results D
  | .report name s => out.insert name (metricsOf ofNumber s.fields)
  | .reportThroughput name gbps => out.insert name (metricsOf ofNumber (throughputFields gbps))
  | .other _ => out

def results (lines : List Line) : Results D := lines.foldl (Line.file ofNumber) ∅

structure LatencyStats.Nonneg (s : LatencyStats) : Prop where
  p50 : 0 ≤ s.p50Ns
  p99 : 0 ≤ s.p99Ns
  p999 : 0 ≤ s.p999Ns
  rate : 0 ≤ s.msgsPerSec

/-- A result with a name that can be read back, or a text without results. -/
def Line.Proper : Line → Prop
  | .report name s => IsName name ∧ s.Nonneg
  | .reportThroughput name gbps => IsName name ∧ 0 ≤ gbps
  | .other text => ∀ l ∈ splitlines text, ¬ "[BENCH]".toList <+: strip l

/-- Times that are not negative give statistics that are not. -/
theorem measure_nonneg {samples : List ℚ} {totalS : ℚ} (h : ∀ x ∈ samples, 0 ≤ x) :
    (measure samples totalS).Nonneg := by
  have hpct : ∀ k, 0 ≤ if samples.isEmpty then (0 : ℚ) else (sorted samples).getD k 0 := by
    intro k
    split
    · exact le_rfl
    · rcases lt_or_ge k (sorted samples).length with hk | hk
      · rw [List.getD_eq_getElem _ _ hk]
        exact h _ (sorted_mem samples hk)
      · rw [List.getD_eq_default _ _ hk]
  refine ⟨hpct _, hpct _, hpct _, ?_⟩
  dsimp only [measure]
  split
  · positivity
  · exact le_rfl

variable {U ofNumber} {out : Results D} {name : Text} {fields : List Field}

theorem fields_nonneg {s : LatencyStats} (h : s.Nonneg) : ∀ f ∈ s.fields, 0 ≤ f.value :=
  List.forall_mem_cons.mpr ⟨h.rate, List.forall_mem_cons.mpr ⟨h.p50, List.forall_mem_cons.mpr
    ⟨h.p99, List.forall_mem_singleton.mpr h.p999⟩⟩⟩

theorem parseMetrics_fields {rest : Text} (hvalue : ∀ f ∈ fields, 0 ≤ f.value)
    (hrest : (kvRe U).findAll rest = fields.map fun f => (f.key, fixedPoint f.places f.value)) :
    parseMetrics U (readFloat U ofNumber) rest = some (metricsOf ofNumber fields) := by
  rw [parseMetrics, hrest, metricsOf]
  generalize (∅ : Ci.Metrics D) = metrics
  clear hrest
  induction fields generalizing metrics with
  | nil => rfl
  | cons f fields ih =>
    obtain ⟨hf, hfields⟩ := List.forall_mem_cons.mp hvalue
    rw [List.map_cons, List.foldlM_cons, List.foldl_cons, readFloat, float_fixedPoint f.places hf]
    exact ih hfields _

/-- What the gate does with one line. -/
def fileLine (U : Unicode) (ofNumber : Number → D) (out : Results D) (line : Text) :
    Option (Results D) :=
  match benchRe.first (strip line) with
  | none => some out
  | some m => (parseMetrics U (readFloat U ofNumber) m.1.2).map fun metrics =>
      out.insert m.1.1 metrics

theorem fileLine_benchLine (hname : IsName name) (hne : fields ≠ [])
    (h : ∀ f ∈ fields, f.Proper U) (hvalue : ∀ f ∈ fields, 0 ≤ f.value) :
    fileLine U ofNumber out (benchLine name fields) =
      some (out.insert name (metricsOf ofNumber fields)) := by
  obtain ⟨rest, hfirst, hall⟩ := first_benchLine hname hne h
  rw [fileLine, strip_benchLine hne h, hfirst]
  dsimp only
  rw [parseMetrics_fields hvalue hall]
  rfl

theorem fileLine_other {line : Text} (h : ¬ "[BENCH]".toList <+: strip line) :
    fileLine U ofNumber out line = some out := by
  have hnone : benchRe.first (strip line) = none := by
    rw [Pattern.first, benchRe, Pattern.bind, literal_eq_nil h]
    rfl
  rw [fileLine, hnone]

/-- A line feed separates what is filed. -/
theorem file_newline (text rest : Text) :
    (splitlines (text ++ '\n' :: rest)).foldlM (fileLine U ofNumber) out =
      ((splitlines text).foldlM (fileLine U ofNumber) out).bind fun out =>
        (splitlines rest).foldlM (fileLine U ofNumber) out := by
  have hempty : ∀ out : Results D, fileLine U ofNumber out [] = some out :=
    fun out => fileLine_other (by decide)
  rcases splitFrom_append_newline [] text rest with h | h
  · rw [splitlines, h, List.foldlM_append]
    rfl
  · rw [splitlines, h, List.foldlM_append]
    refine Option.bind_congr fun out _ => ?_
    rw [List.foldlM_cons, hempty]
    rfl

theorem file_line {line : Text} (hchars : ∀ c ∈ line, isLineBreak c = false) (hne : line ≠ []) :
    (splitlines line).foldlM (fileLine U ofNumber) out = fileLine U ofNumber out line := by
  have hsplit := splitFrom_text [] hchars []
  rw [List.append_nil, List.nil_append, splitFrom, if_neg hne] at hsplit
  rw [splitlines, hsplit, List.foldlM_cons]
  cases fileLine U ofNumber out line <;> rfl

theorem file_print {l : Line} (h : l.Proper) :
    (splitlines l.print).foldlM (fileLine U ofNumber) out = some (l.file ofNumber out) := by
  cases l with
  | report name s =>
    obtain ⟨hname, hnonneg⟩ := h
    have hproper : ∀ f ∈ s.fields, f.Proper U := stats_proper s
    exact (file_line (benchLine_noBreak hname hproper) (List.cons_ne_nil _ _)).trans
      (fileLine_benchLine hname (List.cons_ne_nil _ _) hproper (fields_nonneg hnonneg))
  | reportThroughput name gbps =>
    obtain ⟨hname, hnonneg⟩ := h
    have hproper : ∀ f ∈ throughputFields gbps, f.Proper U := throughput_proper gbps
    exact (file_line (benchLine_noBreak hname hproper) (List.cons_ne_nil _ _)).trans
      (fileLine_benchLine hname (List.cons_ne_nil _ _) hproper
        (List.forall_mem_singleton.mpr hnonneg))
  | other text =>
    rw [Line.print, Line.file]
    revert h
    rw [Line.Proper]
    generalize splitlines text = texts
    intro h
    induction texts with
    | nil => rfl
    | cons l texts ih =>
      obtain ⟨hl, htexts⟩ := List.forall_mem_cons.mp h
      rw [List.foldlM_cons, fileLine_other hl]
      exact ih htexts

/-- The gate reads what the benchmarks have printed. -/
theorem parse_output {lines : List Line} (h : ∀ l ∈ lines, l.Proper) :
    parseBench U (readFloat U ofNumber) (output lines) = some (results ofNumber lines) := by
  have hfile : ∀ out : Results D, (splitlines (output lines)).foldlM (fileLine U ofNumber) out =
      some (lines.foldl (Line.file ofNumber) out) := by
    induction lines with
    | nil => exact fun out => rfl
    | cons l lines ih =>
      obtain ⟨hl, hlines⟩ := List.forall_mem_cons.mp h
      intro out
      have hcons : output (l :: lines) = l.print ++ '\n' :: output lines := by
        rw [output, List.flatMap_cons, List.append_assoc]
        rfl
      rw [hcons, file_newline, file_print hl, Option.bind_some, ih hlines, List.foldl_cons]
  exact hfile ∅

end Parse

end SensorForge.Bench
