import SensorForge.Backtracking
import SensorForge.Registry

/-! The dashboard's parser of the text exposition format. -/

namespace SensorForge.Dashboard

open Backtracking GeneralFormat Metrics PythonText

variable (U : Unicode)

/-- `[a-zA-Z_:][a-zA-Z0-9_:]*` -/
def nameRe : Pattern Char Text :=
  (one isNameStart).bind fun c => (one isNameChar).star.map fun cs => c :: cs

/-- `\{([^}]*)\}` -/
def bracesRe : Pattern Char Text :=
  (one (· = '{')).bind fun _ => (one (· ≠ '}')).star.bind fun labels =>
    (one (· = '}')).map fun _ => labels

/-- `$` -/
def atEnd : Pattern Char Unit := fun s => if s = [] ∨ s = ['\n'] then [((), s)] else []

/-- `_SAMPLE_RE`, with its groups name, labels and value. -/
def sampleRe : Pattern Char (Text × Option Text × Text) :=
  nameRe.bind fun name => bracesRe.optional.bind fun labels => (one isSpace).plus.bind fun _ =>
    (one (· ≠ '\n')).plus.bind fun value => atEnd.map fun _ => (name, labels, value)

/-- `[^"\\]|\\.` -/
def quotedRe : Pattern Char Text :=
  ((one fun c => c ≠ '"' && c ≠ '\\').map fun c => [c]).alt
    ((one (· = '\\')).bind fun b => (one (· ≠ '\n')).map fun c => [b, c])

/-- `_LABEL_RE` -/
def labelRe : Pattern Char (Text × Text) :=
  (one (isWord U)).plus.bind fun name => (one (· = '=')).bind fun _ => (one (· = '"')).bind fun _ =>
    quotedRe.star.bind fun value => (one (· = '"')).map fun _ => (name, value.flatten)

/-- `d[k] = v` for a dictionary in the order of insertion. -/
def setItem (d : List (Text × Text)) (item : Text × Text) : List (Text × Text) :=
  if item.1 ∈ d.map Prod.fst then d.map fun e => if e.1 = item.1 then item else e else d ++ [item]

structure Sample where
  name : Text
  labels : List (Text × Text)
  value : Number

def parseLabels : Option Text → List (Text × Text)
  | none => []
  | some labels => ((labelRe U).findAll labels).foldl setItem []

/-- What one line adds to the samples. -/
def parseLine (line : Text) : Option Sample :=
  let line := strip line
  if line = [] ∨ line.head? = some '#' then none
  else (sampleRe.first line).bind fun m =>
    (float U (firstToken m.1.2.2)).map fun value => ⟨m.1.1, parseLabels U m.1.2.1, value⟩

def parseExposition (text : Text) : List Sample := (splitlines text).filterMap (parseLine U)

/-- The text of an optional label group. -/
inductive LabelGroup : Option Text → Text → Prop
  | none : LabelGroup none []
  | braces {labels : Text} : '}' ∉ labels → LabelGroup (some labels) ('{' :: (labels ++ ['}']))

/-- A line that is read as a sample, with its first word after the name and the labels. -/
def SampleLine (line : Text) : Prop :=
  ∃ name labels group gap token rest, strip line = name ++ group ++ gap ++ token ++ rest ∧
    MetricName name ∧ LabelGroup labels group ∧ gap ≠ [] ∧ (∀ c ∈ gap, isSpace c = true) ∧
    (∀ c ∈ token, isSpace c = false) ∧ (∀ c, rest.head? = some c → isSpace c = true) ∧
    (float U token).isSome

section Samples

variable {U} {c : Char} {rest : Text}

theorem nameChar_range (hc : isNameChar c = true) : 48 ≤ c.toNat ∧ c.toNat ≤ 122 := by
  simp only [isNameChar, isNameStart, isAsciiLetter, isAsciiDigit, Bool.or_eq_true,
    Bool.and_eq_true, decide_eq_true_eq, Char.le_def, UInt32.le_iff_toNat_le] at hc
  rcases hc with (((⟨hlo, hhi⟩ | ⟨hlo, hhi⟩) | rfl) | rfl) | ⟨hlo, hhi⟩
  · exact ⟨le_trans (by decide) hlo, le_trans hhi (by decide)⟩
  · exact ⟨le_trans (by decide) hlo, le_trans hhi (by decide)⟩
  · decide
  · decide
  · exact ⟨le_trans (by decide) hlo, le_trans hhi (by decide)⟩

theorem nameChar_notSpace (hc : isNameChar c = true) : isSpace c = false := by
  have hrange := nameChar_range hc
  simp only [isSpace, List.mem_cons, List.not_mem_nil, or_false, Bool.or_eq_false_iff,
    decide_eq_false_iff_not, Bool.and_eq_false_iff]
  omega

theorem space_notNameChar (hc : isSpace c = true) : isNameChar c = false :=
  Bool.eq_false_iff.mpr fun h => by simp [nameChar_notSpace h] at hc

theorem nameStart_nameChar (hc : isNameStart c = true) : isNameChar c = true := by
  rw [isNameChar, hc, Bool.true_or]

theorem first_nameRe {name : Text} (hname : MetricName name)
    (hrest : ∀ c, rest.head? = some c → isNameChar c = false) :
    nameRe.first (name ++ rest) = some (name, rest) := by
  obtain ⟨c, cs, rfl, hc, hcs⟩ := hname
  exact first_bind (first_one hc (cs ++ rest)) (first_map (first_star_one hcs hrest))

theorem first_bracesRe {labels : Text} (hlabels : '}' ∉ labels) :
    bracesRe.first ('{' :: (labels ++ ['}']) ++ rest) = some (labels, rest) := by
  have hchars : ∀ c ∈ labels, decide (c ≠ '}') = true := by
    rintro c hc
    refine decide_eq_true ?_
    rintro rfl
    exact hlabels hc
  have hclose : (one (· ≠ '}')).star.first (labels ++ '}' :: rest) = some (labels, '}' :: rest) := by
    refine first_star_one hchars ?_
    rintro c ⟨⟩
    decide
  rw [List.cons_append, List.append_assoc, List.singleton_append]
  refine first_bind (first_one rfl _) (first_bind hclose (first_map (first_one rfl rest)))

theorem group_head {group gap : Text} {labels : Option Text} (hgroup : LabelGroup labels group)
    (hc : isSpace c = true) :
    ∀ d, (group ++ c :: gap).head? = some d → isNameChar d = false := by
  intro d hd
  cases hgroup with
  | none =>
    rw [← Option.some.inj hd]
    exact space_notNameChar hc
  | braces hlabels =>
    rw [← Option.some.inj hd]
    decide

theorem first_groupRe {group gap : Text} {labels : Option Text} (hgroup : LabelGroup labels group)
    (hc : isSpace c = true) :
    bracesRe.optional.first (group ++ c :: gap) = some (labels, c :: gap) := by
  cases hgroup with
  | none =>
    refine first_optional_none ?_
    have hbrace : one (· = '{') (c :: gap) = [] := by
      refine one_eq_nil fun d hd => decide_eq_false ?_
      rw [← Option.some.inj hd]
      rintro rfl
      exact absurd hc (by decide)
    rw [List.nil_append, bracesRe, Pattern.bind, hbrace]
    rfl
  | braces hlabels => exact first_optional (first_bracesRe hlabels)

theorem first_sampleRe {name group gap value : Text} {labels : Option Text}
    (hname : MetricName name) (hgroup : LabelGroup labels group) (hgap : gap ≠ [])
    (hspaces : ∀ c ∈ gap, isSpace c = true) (hc : isSpace c = false)
    (hvalue : ∀ d ∈ c :: value, d ≠ '\n') :
    sampleRe.first (name ++ (group ++ (gap ++ c :: value))) =
      some ((name, labels, c :: value), []) := by
  obtain ⟨space, spaces, rfl⟩ := List.exists_cons_of_ne_nil hgap
  obtain ⟨hspace, hspaces⟩ := List.forall_mem_cons.mp hspaces
  have hvalues : ∀ d ∈ value, decide (d ≠ '\n') = true :=
    fun d hd => decide_eq_true (hvalue d (List.mem_cons_of_mem c hd))
  have hgaps : (one isSpace).plus.first (space :: spaces ++ c :: value) =
      some (space :: spaces, c :: value) := by
    refine first_plus_one hspace hspaces ?_
    rintro d ⟨⟩
    exact hc
  have htext : (one (· ≠ '\n')).plus.first (c :: value ++ []) = some (c :: value, []) :=
    first_plus_one (decide_eq_true (hvalue c List.mem_cons_self)) hvalues fun _ hd => nomatch hd
  rw [List.append_nil] at htext
  exact first_bind (first_nameRe hname (group_head hgroup hspace)) (first_bind
    (first_groupRe hgroup hspace) (first_bind hgaps (first_bind htext (first_map rfl))))

theorem sound_nameRe : nameRe.Sound fun name t => t = name ∧ MetricName name := by
  refine (sound_one _).bind (fun c => (sound_star_one _).map
    (M := fun name t => name = c :: t ∧ ∀ d ∈ t, isNameChar d = true) ?_) ?_
  · rintro cs t ⟨rfl, hcs⟩
    exact ⟨rfl, hcs⟩
  · rintro c name t u ⟨rfl, hc⟩ ⟨rfl, hu⟩
    exact ⟨rfl, c, u, rfl, hc, hu⟩

theorem sound_bracesRe : bracesRe.Sound fun labels t => LabelGroup (some labels) t := by
  refine (sound_one _).bind (N := fun _ labels u => '}' ∉ labels ∧ u = labels ++ ['}'])
    (fun _ => (sound_star_one _).bind (N := fun cs labels u => cs = labels ∧ u = ['}'])
      (fun cs => (sound_one _).map ?_) ?_) ?_
  · rintro c t ⟨rfl, hc⟩
    exact ⟨rfl, by rw [of_decide_eq_true hc]⟩
  · rintro cs labels t u ⟨rfl, hcs⟩ ⟨rfl, rfl⟩
    exact ⟨fun hmem => of_decide_eq_true (hcs _ hmem) rfl, rfl⟩
  · rintro c labels t u ⟨rfl, hc⟩ ⟨hlabels, rfl⟩
    rw [of_decide_eq_true hc]
    exact .braces hlabels

theorem sound_atEnd : atEnd.Sound fun _ t => t = [] := by
  intro s a ha
  rw [atEnd] at ha
  split at ha
  · rw [List.mem_singleton.mp ha]
    exact ⟨[], rfl, rfl⟩
  · cases ha

theorem sound_sampleRe :
    sampleRe.Sound fun a t => ∃ group gap, t = a.1 ++ (group ++ (gap ++ a.2.2)) ∧
      MetricName a.1 ∧ LabelGroup a.2.1 group ∧ gap ≠ [] ∧ ∀ c ∈ gap, isSpace c = true := by
  refine sound_nameRe.bind (N := fun name a u => a.1 = name ∧ ∃ group gap,
      u = group ++ (gap ++ a.2.2) ∧ LabelGroup a.2.1 group ∧ gap ≠ [] ∧ ∀ c ∈ gap, isSpace c = true)
    (fun name => sound_bracesRe.optional.bind (N := fun labels a u => a.1 = name ∧
        a.2.1 = labels ∧ ∃ gap, u = gap ++ a.2.2 ∧ gap ≠ [] ∧ ∀ c ∈ gap, isSpace c = true)
      (fun labels => (sound_plus_one _).bind (N := fun _ a u => a.1 = name ∧ a.2.1 = labels ∧
          u = a.2.2)
        (fun gap => (sound_plus_one _).bind (N := fun value a u => a = (name, labels, value) ∧
            u = [])
          (fun value => sound_atEnd.map ?_) ?_) ?_) ?_) ?_
  · rintro _ t rfl
    exact ⟨rfl, rfl⟩
  · rintro value a t u ⟨rfl, -⟩ ⟨rfl, rfl⟩
    exact ⟨rfl, rfl, List.append_nil t⟩
  · rintro gap a t u ⟨rfl, hgap, hspaces⟩ ⟨rfl, rfl, rfl⟩
    exact ⟨rfl, rfl, t, rfl, hgap, hspaces⟩
  · rintro labels a t u hlabels ⟨rfl, rfl, gap, rfl, hgap, hspaces⟩
    refine ⟨rfl, t, gap, rfl, ?_, hgap, hspaces⟩
    rcases hlabels with ⟨hnone, rfl⟩ | ⟨labels, hsome, hgroup⟩
    · rw [hnone]
      exact .none
    · rw [hsome]
      exact hgroup
  · rintro name a t u ⟨rfl, hname⟩ ⟨rfl, group, gap, rfl, hgroup, hgap, hspaces⟩
    exact ⟨group, gap, rfl, hname, hgroup, hgap, hspaces⟩

theorem sampleRe_end {s : Text} {a : (Text × Option Text × Text) × Text} (ha : a ∈ sampleRe s) :
    a.2 = [] ∨ a.2 = ['\n'] := by
  obtain ⟨name, -, ha⟩ := List.mem_flatMap.mp ha
  obtain ⟨labels, -, ha⟩ := List.mem_flatMap.mp ha
  obtain ⟨gap, -, ha⟩ := List.mem_flatMap.mp ha
  obtain ⟨value, -, ha⟩ := List.mem_flatMap.mp ha
  obtain ⟨b, hb, rfl⟩ := List.mem_map.mp ha
  rw [atEnd] at hb
  split at hb
  · next h =>
    rw [List.mem_singleton.mp hb]
    exact h
  · cases hb

theorem strip_subset (line : Text) : strip line ⊆ line :=
  fun _ hc => (List.dropWhile_suffix isSpace).subset ((List.rdropWhile_prefix isSpace _).subset hc)

theorem newline_notMem_strip {line : Text} (hline : ∀ c ∈ line, isLineBreak c = false) :
    '\n' ∉ strip line :=
  fun hmem => absurd (hline '\n' (strip_subset line hmem)) (by decide)

theorem parseLine_of_match {line : Text} {m : (Text × Option Text × Text) × Text}
    (hm : sampleRe.first (strip line) = some m) :
    parseLine U line =
      (float U (firstToken m.1.2.2)).map fun v => ⟨m.1.1, parseLabels U m.1.2.1, v⟩ := by
  obtain ⟨t, hs, group, gap, rfl, ⟨c, cs, hname, hc, -⟩, -⟩ := sound_sampleRe.first hm
  have hcons : strip line ≠ [] ∧ (strip line).head? ≠ some '#' := by
    rw [hs, hname]
    refine ⟨List.cons_ne_nil _ _, ?_⟩
    rintro ⟨⟩
    exact absurd hc (by decide)
  rw [parseLine, if_neg (not_or.mpr hcons), hm]
  rfl

theorem exists_match {line : Text} {sample : Sample} (h : parseLine U line = some sample) :
    ∃ m, sampleRe.first (strip line) = some m ∧ (float U (firstToken m.1.2.2)).isSome ∧
      sample.labels = parseLabels U m.1.2.1 := by
  rw [parseLine] at h
  split at h
  · cases h
  · cases hm : sampleRe.first (strip line) with
    | none =>
      rw [hm] at h
      cases h
    | some m =>
      rw [hm, Option.bind_some, Option.map_eq_some_iff] at h
      obtain ⟨v, hv, rfl⟩ := h
      exact ⟨m, rfl, by rw [hv]; rfl, rfl⟩

theorem firstToken_append {token : Text} (htoken : ∀ c ∈ token, isSpace c = false)
    (hne : token ≠ []) (rest : Text) (hrest : ∀ c, rest.head? = some c → isSpace c = true) :
    firstToken (token ++ rest) = token := by
  have hword : ∀ c ∈ token, (!isSpace c) = true := fun c hc => by rw [htoken c hc]; rfl
  have hstop : rest.takeWhile (fun c => !isSpace c) = [] := by
    cases rest with
    | nil => rfl
    | cons c rest => exact List.takeWhile_cons_of_neg (by simp [hrest c rfl])
  have hstart : (token ++ rest).dropWhile isSpace = token ++ rest := by
    cases token with
    | nil => exact absurd rfl hne
    | cons c cs =>
      exact List.dropWhile_cons_of_neg (by simp [htoken c List.mem_cons_self])
  rw [firstToken, hstart, List.takeWhile_append_of_pos hword, hstop, List.append_nil]

theorem sampleLine_of_parse {line : Text} (hline : ∀ c ∈ line, isLineBreak c = false)
    (h : (parseLine U line).isSome) : SampleLine U line := by
  obtain ⟨sample, hsample⟩ := Option.isSome_iff_exists.mp h
  obtain ⟨m, hm, hfloat, -⟩ := exists_match hsample
  obtain ⟨t, hs, group, gap, rfl, hname, hgroup, hgap, hspaces⟩ := sound_sampleRe.first hm
  have hend : m.2 = [] := by
    refine (sampleRe_end (List.mem_of_mem_head? hm)).resolve_right fun hnewline => ?_
    refine newline_notMem_strip hline ?_
    rw [hs, hnewline]
    exact List.mem_append_right _ List.mem_cons_self
  refine ⟨m.1.1, m.1.2.1, group, gap ++ m.1.2.2.takeWhile isSpace, firstToken m.1.2.2,
    (m.1.2.2.dropWhile isSpace).dropWhile (fun c => !isSpace c), ?_, hname, hgroup, ?_, ?_, ?_,
    ?_, hfloat⟩
  · simp only [List.append_assoc, firstToken, List.takeWhile_append_dropWhile]
    rw [hs, hend, List.append_nil]
  · exact fun h => hgap (List.append_eq_nil_iff.mp h).1
  · exact List.forall_mem_append.mpr ⟨hspaces, fun c hc => List.mem_takeWhile_imp hc⟩
  · intro c hc
    simpa using List.mem_takeWhile_imp hc
  · intro c hc
    have hspace := List.head?_dropWhile_not (fun c => !isSpace c) (m.1.2.2.dropWhile isSpace)
    rw [hc] at hspace
    simpa using hspace

theorem parse_of_sampleLine {line : Text} (hline : ∀ c ∈ line, isLineBreak c = false)
    (h : SampleLine U line) : (parseLine U line).isSome := by
  obtain ⟨name, labels, group, gap, token, rest, hs, hname, hgroup, hgap, hspaces, htoken, hrest,
    hfloat⟩ := h
  have hne : token ≠ [] := by
    rintro rfl
    cases hfloat
  obtain ⟨c, cs, rfl⟩ := List.exists_cons_of_ne_nil hne
  have hnewline := newline_notMem_strip hline
  simp only [List.append_assoc] at hs
  rw [hs] at hnewline
  have hvalue : ∀ d ∈ c :: (cs ++ rest), d ≠ '\n' := by
    rintro d hd rfl
    refine hnewline ?_
    simp only [List.mem_append]
    exact .inr (.inr (.inr (by simpa [or_assoc] using hd)))
  have hm := first_sampleRe hname hgroup hgap hspaces (htoken c List.mem_cons_self) hvalue
  rw [← List.cons_append, ← hs] at hm
  rw [parseLine_of_match hm, firstToken_append htoken hne rest hrest]
  simpa using hfloat

theorem parseLine_isSome_iff {line : Text} (hline : ∀ c ∈ line, isLineBreak c = false) :
    (parseLine U line).isSome ↔ SampleLine U line :=
  ⟨sampleLine_of_parse hline, parse_of_sampleLine hline⟩

theorem first_quotedRe (c : Char) : quotedRe.first (escapeChar c ++ rest) = some (escapeChar c, rest) := by
  have hescaped : ∀ d, d ≠ '\n' → quotedRe.first ('\\' :: d :: rest) = some (['\\', d], rest) := by
    intro d hd
    refine (first_alt_right rfl).trans (first_bind (first_one rfl _) ?_)
    exact first_map (first_one (by simpa using hd) rest)
  by_cases hquote : c = '"' ∨ c = '\\'
  · have hnewline : c ≠ '\n' := by
      rintro rfl
      exact absurd hquote (by decide)
    simp only [escapeChar, if_pos hquote, if_neg hnewline]
    exact hescaped c hnewline
  · simp only [escapeChar, if_neg hquote, List.nil_append]
    split
    · exact hescaped 'n' (by decide)
    · obtain ⟨hq, hb⟩ := not_or.mp hquote
      exact first_alt (first_map (first_one (by simp [hq, hb]) rest))

theorem first_quoted_star (v : Text) :
    quotedRe.star.first (escape v ++ '"' :: rest) = some (v.map escapeChar, '"' :: rest) := by
  induction v with
  | nil =>
    rw [Pattern.first, escape, List.flatMap_nil, List.nil_append, star_stop rfl]
    rfl
  | cons c v ih =>
    rw [escape, List.flatMap_cons, List.append_assoc]
    refine first_star_cons (first_quotedRe c) ?_ ih
    have hpos : 0 < (escapeChar c).length := by
      rw [length_escapeChar]
      split <;> decide
    have hshorter : ∀ r : Text, r.length < (escapeChar c ++ r).length := by
      intro r
      rw [List.length_append]
      exact Nat.lt_add_of_pos_left hpos
    exact hshorter _

theorem labelName_isWord {name : Text} (hname : LabelName name) :
    ∃ c cs, name = c :: cs ∧ isWord U c = true ∧ ∀ d ∈ cs, isWord U d = true := by
  obtain ⟨⟨c, cs, rfl, hc, hcs⟩, hcolon⟩ := hname
  have hword : ∀ d, isNameChar d = true → d ≠ ':' → isWord U d = true := by
    intro d hd hne
    simp only [isNameChar, isNameStart, Bool.or_eq_true, decide_eq_true_eq] at hd
    rcases hd with ((hd | hd) | hd) | hd
    · simp [isWord, hd]
    · simp [isWord, hd]
    · exact absurd hd hne
    · simp [isWord, hd]
  refine ⟨c, cs, rfl, hword c (nameStart_nameChar hc) ?_, fun d hd => hword d (hcs d hd) ?_⟩
  · rintro rfl
    exact hcolon List.mem_cons_self
  · rintro rfl
    exact hcolon (List.mem_cons_of_mem c hd)

theorem first_labelRe {label : Text × Text} (hname : LabelName label.1) (rest : Text) :
    (labelRe U).first (renderLabel label ++ rest) = some ((label.1, escape label.2), rest) := by
  obtain ⟨c, cs, hcs, hc, hword⟩ := labelName_isWord (U := U) hname
  rw [renderLabel, List.append_assoc, List.cons_append, List.cons_append, List.append_assoc,
    List.singleton_append, hcs]
  have hequals : isWord U '=' = false := rfl
  have hplus : (one (isWord U)).plus.first (c :: cs ++ '=' :: '"' :: (escape label.2 ++ '"' :: rest))
      = some (c :: cs, '=' :: '"' :: (escape label.2 ++ '"' :: rest)) := by
    refine first_plus_one hc hword ?_
    rintro d ⟨⟩
    exact hequals
  refine first_bind hplus (first_bind (first_one rfl _) (first_bind (first_one rfl _) (first_bind
    (first_quoted_star label.2) ((first_map (first_one rfl rest)).trans ?_))))
  rw [escape, List.flatMap_def]

theorem findAll_labels {labels : List (Text × Text)} (hnames : ∀ label ∈ labels, LabelName label.1) :
    (labelRe U).findAll ([','].intercalate (labels.map renderLabel)) =
      labels.map fun label => (label.1, escape label.2) := by
  induction labels with
  | nil => rw [List.map_nil, List.intercalate_nil, Pattern.findAll]; rfl
  | cons label labels ih =>
    have hfirst := fun rest => first_labelRe (U := U) (hnames label List.mem_cons_self) rest
    have ih := ih fun l hl => hnames l (List.mem_cons_of_mem label hl)
    have hshorter : ∀ rest : Text, rest.length < (renderLabel label ++ rest).length := by
      intro rest
      simp only [renderLabel, List.length_append, List.length_cons]
      omega
    cases labels with
    | nil =>
      have hone := findAll_cons (hfirst []) (hshorter [])
      rw [List.append_nil, Pattern.findAll] at hone
      rw [List.map_singleton, List.intercalate_singleton, hone]
      rfl
    | cons next labels =>
      rw [List.map_cons, List.map_cons, List.intercalate_cons_cons, List.append_assoc,
        findAll_cons (hfirst _) (hshorter _), List.singleton_append, findAll_skip, ← List.map_cons,
        ih]
      · rfl
      · rfl

theorem foldl_setItem {d items : List (Text × Text)}
    (h : ((d ++ items).map Prod.fst).Nodup) : items.foldl setItem d = d ++ items := by
  induction items generalizing d with
  | nil => rw [List.append_nil]; rfl
  | cons item items ih =>
    have hnew : item.1 ∉ d.map Prod.fst := by
      rw [List.map_append, List.nodup_append] at h
      exact fun hmem => h.2.2 _ hmem _ List.mem_cons_self rfl
    rw [List.foldl_cons, setItem, if_neg hnew, ih (by simpa using h), List.append_assoc,
      List.singleton_append]

theorem nodup_labels (labels : Labels) : (labels.toList.map Prod.fst).Nodup := by
  refine List.pairwise_map.mpr (Std.TreeMap.distinct_keys_toList.imp fun hne heq => hne ?_)
  rw [heq]
  exact Std.ReflCmp.compare_self

def readLabels (labels : Labels) : List (Text × Text) :=
  labels.toList.map fun label => (label.1, escape label.2)

/-- No value contains what ends the label group or the line. -/
def Contained (labels : Labels) : Prop :=
  ∀ label ∈ labels.toList, ∀ c ∈ label.2, c ≠ '}' ∧ isLineBreak c = false

theorem escape_contained {v : Text} (hv : ∀ c ∈ v, c ≠ '}' ∧ isLineBreak c = false) :
    ∀ c ∈ escape v, c ≠ '}' ∧ isLineBreak c = false := by
  intro d hd
  obtain ⟨c, hc, hd⟩ := List.mem_flatMap.mp hd
  rcases List.mem_append.mp hd with hd | hd
  · split at hd
    · rw [List.mem_singleton.mp hd]
      decide
    · cases hd
  · split at hd
    · next hnewline =>
      have hbreak := (hv c hc).2
      rw [hnewline] at hbreak
      exact absurd hbreak (by decide)
    · rw [List.mem_singleton.mp hd]
      exact hv c hc

theorem nameChar_contained (hc : isNameChar c = true) : c ≠ '}' ∧ isLineBreak c = false := by
  have hrange := nameChar_range hc
  refine ⟨fun h => ?_, ?_⟩
  · subst h
    exact absurd hrange (by decide)
  · simp only [isLineBreak, List.mem_cons, List.not_mem_nil, or_false, decide_eq_false_iff_not]
    omega

theorem metricName_chars {name : Text} (hname : MetricName name) :
    ∀ c ∈ name, isNameChar c = true := by
  obtain ⟨c, cs, rfl, hc, hcs⟩ := hname
  exact List.forall_mem_cons.mpr ⟨nameStart_nameChar hc, hcs⟩

theorem forall_mem_intercalate {P : Char → Prop} {sep : Text} {xs : List Text}
    (hsep : ∀ c ∈ sep, P c) (hxs : ∀ x ∈ xs, ∀ c ∈ x, P c) : ∀ c ∈ sep.intercalate xs, P c := by
  induction xs with
  | nil => exact fun c hc => absurd hc List.not_mem_nil
  | cons x xs ih =>
    obtain ⟨hx, hxs⟩ := List.forall_mem_cons.mp hxs
    cases xs with
    | nil => simpa using hx
    | cons y xs =>
      rw [List.intercalate_cons_cons]
      exact List.forall_mem_append.mpr ⟨List.forall_mem_append.mpr ⟨hx, hsep⟩, ih hxs⟩

theorem labels_contained {labels : Labels} (hnames : ValidLabels labels) (h : Contained labels) :
    ∀ c ∈ [','].intercalate (labels.toList.map renderLabel), c ≠ '}' ∧ isLineBreak c = false := by
  refine forall_mem_intercalate (List.forall_mem_singleton.mpr (by decide)) ?_
  rintro _ hx
  obtain ⟨label, hlabel, rfl⟩ := List.mem_map.mp hx
  have hname := metricName_chars (hnames label hlabel).1
  refine List.forall_mem_append.mpr ⟨fun c hc => nameChar_contained (hname c hc), ?_⟩
  refine List.forall_mem_cons.mpr ⟨by decide, List.forall_mem_cons.mpr ⟨by decide, ?_⟩⟩
  exact List.forall_mem_append.mpr
    ⟨escape_contained (h label hlabel), List.forall_mem_singleton.mpr (by decide)⟩

theorem renderLabels_group {labels : Labels} (hnames : ValidLabels labels)
    (h : Contained labels) : ∃ group, LabelGroup group (renderLabels labels) ∧
      parseLabels U group = readLabels labels := by
  unfold renderLabels
  split
  · next hnil =>
    refine ⟨none, .none, ?_⟩
    rw [readLabels, hnil]
    rfl
  · refine ⟨some _, .braces fun hmem => (labels_contained hnames h _ hmem).1 rfl, ?_⟩
    rw [parseLabels, findAll_labels hnames]
    refine foldl_setItem ?_
    rw [List.nil_append, List.map_map]
    exact nodup_labels labels

theorem renderLabels_noBreak {labels : Labels} (hnames : ValidLabels labels)
    (h : Contained labels) : ∀ c ∈ renderLabels labels, isLineBreak c = false := by
  unfold renderLabels
  split
  · exact fun c hc => absurd hc List.not_mem_nil
  · refine List.forall_mem_cons.mpr ⟨by decide, List.forall_mem_append.mpr
      ⟨fun c hc => (labels_contained hnames h c hc).2, List.forall_mem_singleton.mpr (by decide)⟩⟩

theorem numeral_plain (hc : isNumeral c = true) : isSpace c = false ∧ isLineBreak c = false := by
  rw [isNumeral, Bool.or_eq_true] at hc
  rcases hc with hc | hc
  · have hname : isNameChar c = true := by rw [isNameChar, hc, Bool.or_true]
    exact ⟨nameChar_notSpace hname, (nameChar_contained hname).2⟩
  · simp only [List.mem_cons, List.not_mem_nil, or_false, decide_eq_true_eq] at hc
    rcases hc with rfl | rfl | rfl | rfl <;> exact ⟨by decide, by decide⟩

theorem renderSeries_noBreak {name : Text} {s : Series} (hname : MetricName name)
    (hnames : ValidLabels s.labels) (h : Contained s.labels) :
    ∀ c ∈ renderSeries name s, isLineBreak c = false := by
  refine List.forall_mem_append.mpr ⟨List.forall_mem_append.mpr ⟨fun c hc => ?_, ?_⟩, ?_⟩
  · exact (nameChar_contained (metricName_chars hname c hc)).2
  · exact renderLabels_noBreak hnames h
  · exact List.forall_mem_cons.mpr
      ⟨by decide, fun c hc => (numeral_plain (formatInt_chars s.value c hc)).2⟩

theorem sound_quoted_star : quotedRe.star.Sound fun as t => as.flatten = t := by
  have hquoted : quotedRe.Sound fun a t => a = t := by
    refine Pattern.Sound.alt ((sound_one _).map ?_) ((sound_one _).bind
      (N := fun b a u => ∃ c, a = [b, c] ∧ u = [c]) (fun b => (sound_one _).map ?_) ?_)
    · rintro c t ⟨rfl, -⟩
      rfl
    · rintro c t ⟨rfl, -⟩
      exact ⟨c, rfl, rfl⟩
    · rintro b a t u ⟨rfl, -⟩ ⟨c, rfl, rfl⟩
      rfl
  refine hquoted.star rfl ?_
  rintro a as t u rfl rfl
  rfl

theorem sound_labelRe : (labelRe U).Sound fun a t => a.2 ⊆ t := by
  have hstep : ∀ {β : Type} {m : Pattern Char β} {f : β → Pattern Char (Text × Text)}
      {L : β → Text → Prop}, m.Sound L → (∀ b, (f b).Sound fun a t => a.2 ⊆ t) →
      (m.bind f).Sound fun a t => a.2 ⊆ t :=
    fun hm hf => hm.bind hf fun _ _ t _ _ hu => List.subset_append_of_subset_right t hu
  refine hstep (sound_plus_one _) fun name => hstep (sound_one _) fun _ => hstep (sound_one _)
    fun _ => sound_quoted_star.bind (N := fun as a _ => a.2 = as.flatten)
      (fun as => (sound_one _).map fun _ _ _ => rfl) ?_
  rintro as a _ u rfl ha
  rw [ha]
  exact List.subset_append_left _ u

theorem mem_foldl_setItem {d items : List (Text × Text)} {e : Text × Text}
    (he : e ∈ items.foldl setItem d) : e ∈ d ∨ e ∈ items := by
  induction items generalizing d with
  | nil => exact .inl he
  | cons item items ih =>
    rcases ih he with he | he
    · rw [setItem] at he
      split at he
      · obtain ⟨e', he', rfl⟩ := List.mem_map.mp he
        split
        · exact .inr List.mem_cons_self
        · exact .inl he'
      · exact (List.mem_append.mp he).imp_right fun h => by
          rw [List.mem_singleton.mp h]
          exact List.mem_cons_self
    · exact .inr (List.mem_cons_of_mem item he)

/-- No value that is read contains what ends the label group or the line. -/
theorem parsed_contained {text : Text} :
    ∀ sample ∈ parseExposition U text, ∀ label ∈ sample.labels,
      ∀ c ∈ label.2, c ≠ '}' ∧ isLineBreak c = false := by
  intro sample hsample label hlabel c hc
  obtain ⟨line, hline, hparse⟩ := List.mem_filterMap.mp hsample
  obtain ⟨m, hm, -, hlabels⟩ := exists_match hparse
  obtain ⟨t, hs, group, gap, rfl, -, hgroup, -, -⟩ := sound_sampleRe.first hm
  rw [hlabels] at hlabel
  cases hgroup' : m.1.2.1 with
  | none =>
    rw [hgroup'] at hlabel
    cases hlabel
  | some labels =>
    rw [hgroup'] at hlabel hgroup
    obtain ⟨t, ht, hlabel⟩ := sound_labelRe.findAll labels label
      ((mem_foldl_setItem hlabel).resolve_left List.not_mem_nil)
    have hc : c ∈ labels := ht (hlabel hc)
    cases hgroup with
    | braces hbrace =>
      refine ⟨fun h => hbrace (h ▸ hc), ?_⟩
      refine splitFrom_noBreak text (fun c hc => absurd hc List.not_mem_nil) line hline c
        (strip_subset line ?_)
      rw [hs]
      simp [hc]

/-- The line of a series is read with its label values as they are escaped and its value to
six digits. -/
theorem parse_series {name : Text} {s : Series} (hname : MetricName name)
    (hnames : ValidLabels s.labels) (h : Contained s.labels) (hvalue : s.value.natAbs < 2 ^ 53) :
    parseLine U (renderSeries name s) =
      some ⟨name, readLabels s.labels, .num (readBack s.value)⟩ := by
  obtain ⟨group, hgroup, hlabels⟩ := renderLabels_group (U := U) hnames h
  obtain ⟨c, cs, hcs⟩ := List.exists_cons_of_ne_nil (formatInt_ne_nil s.value)
  have hchars := formatInt_chars s.value
  have hnumeral : ∀ d ∈ formatInt s.value, isSpace d = false :=
    fun d hd => (numeral_plain (hchars d hd)).1
  have hstrip : strip (renderSeries name s) = renderSeries name s := by
    refine strip_eq_self (fun d hd => ?_) (fun d hd => ?_)
    · obtain ⟨e, es, rfl, he, -⟩ := hname
      rw [← Option.some.inj hd]
      exact nameChar_notSpace (nameStart_nameChar he)
    · rw [renderSeries, List.getLast?_append_of_ne_nil _ (List.cons_ne_nil _ _),
        List.getLast?_cons_of_ne_nil (formatInt_ne_nil s.value)] at hd
      exact hnumeral d (List.mem_of_getLast? hd)
  have hm : sampleRe.first (strip (renderSeries name s)) =
      some ((name, group, formatInt s.value), []) := by
    rw [hstrip, renderSeries, List.append_assoc, hcs]
    refine first_sampleRe hname hgroup (List.cons_ne_nil ' ' [])
      (List.forall_mem_singleton.mpr (by decide))
      (hnumeral c (by rw [hcs]; exact List.mem_cons_self)) ?_
    rintro d hd rfl
    rw [← hcs] at hd
    exact absurd (hnumeral _ hd) (by decide)
  have htoken := firstToken_append hnumeral (formatInt_ne_nil s.value) [] (by rintro _ ⟨⟩)
  rw [List.append_nil] at htoken
  rw [parseLine_of_match hm, htoken, float_formatInt U hvalue, hlabels]
  rfl

end Samples

end SensorForge.Dashboard
