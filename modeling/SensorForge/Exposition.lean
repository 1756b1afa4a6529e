import SensorForge.PrometheusClient

/-! What the dashboard reads of the text that the registry renders. -/

namespace SensorForge.Dashboard

open GeneralFormat Metrics PythonText Transition

variable (U : Unicode)

/-- The samples that are read from the further lines of a help text. -/
def strays (fam : Text × Family) : List Sample :=
  (splitlines fam.2.help).tail.filterMap (parseLine U)

def readSeries (s : Text × Series) : Sample :=
  ⟨s.1, readLabels s.2.labels, .num (readBack s.2.value)⟩

def Sample.content (s : Sample) : Text × Multiset (Text × Text) × Number :=
  (s.name, s.labels, s.value)

def seriesContent (s : Text × Series) : Text × Multiset (Text × Text) × Number :=
  (s.1, s.2.labels.toList, .num s.2.value)

/-- One sample for every series, and nothing else. -/
def RoundTrips (r : Registry) : Prop :=
  ((parseExposition U r.render).map Sample.content).Perm (r.series.map seriesContent)

structure Readable (r : Registry) : Prop where
  labels : ∀ s ∈ r.series, ∀ label ∈ s.2.labels.toList, ∀ c ∈ label.2,
    c ≠ '"' ∧ c ≠ '\\' ∧ c ≠ '}' ∧ isLineBreak c = false
  values : ∀ s ∈ r.series, SixDigits s.2.value.natAbs
  help : ∀ fam ∈ r.families.toList, ∀ line ∈ (splitlines fam.2.help).tail, ¬ SampleLine U line

section Lines

variable {U}

theorem parse_newline (s rest : Text) :
    parseExposition U (s ++ '\n' :: rest) = parseExposition U s ++ parseExposition U rest := by
  have hempty : parseLine U [] = none := rfl
  rcases splitFrom_append_newline [] s rest with h | h
  · rw [parseExposition, splitlines, h, List.filterMap_append]
    rfl
  · rw [parseExposition, splitlines, h, List.filterMap_append, List.filterMap_cons, hempty]
    rfl

theorem parse_oneLine {line : Text} (hline : ∀ c ∈ line, isLineBreak c = false) :
    parseExposition U line = (parseLine U line).toList := by
  have hsplit := splitFrom_text [] hline []
  rw [List.append_nil, List.nil_append] at hsplit
  rw [parseExposition, splitlines, hsplit, splitFrom]
  split
  · next hnil =>
    rw [hnil]
    rfl
  · cases h : parseLine U line <;> simp [h]

theorem parseLine_comment {line : Text} (h : line.head? = some '#') : parseLine U line = none := by
  obtain ⟨s, rfl⟩ := List.head?_eq_some_iff.mp h
  have hstart : strip ('#' :: s) <+: '#' :: s := by
    have hdrop : ('#' :: s).dropWhile isSpace = '#' :: s :=
      List.dropWhile_cons_of_neg (by decide)
    have hprefix := List.rdropWhile_prefix isSpace (('#' :: s).dropWhile isSpace)
    rwa [hdrop] at hprefix
  rw [parseLine, if_pos]
  rcases List.prefix_cons_iff.mp hstart with hnil | ⟨t, ht, -⟩
  · exact .inl hnil
  · exact .inr (by rw [ht]; rfl)

theorem name_noBreak {name : Text} (hname : MetricName name) : ∀ c ∈ name, isLineBreak c = false :=
  fun c hc => (nameChar_contained (metricName_chars hname c hc)).2

theorem parse_typeLine {name : Text} (hname : MetricName name) (type : Option MetricType) :
    parseExposition U (typeLine name type) = [] := by
  have hmark : ∀ c ∈ ['#', ' ', 'T', 'Y', 'P', 'E', ' '], isLineBreak c = false := by simp [isLineBreak]
  have htype : ∀ c ∈ (type.getD .gauge).text, isLineBreak c = false := by
    cases type.getD .gauge <;> simp [MetricType.text, isLineBreak]
  have hline : ∀ c ∈ typeLine name type, isLineBreak c = false :=
    List.forall_mem_append.mpr ⟨List.forall_mem_append.mpr ⟨hmark, name_noBreak hname⟩,
      List.forall_mem_cons.mpr ⟨by decide, htype⟩⟩
  have hcomment : parseLine U (typeLine name type) = none :=
    parseLine_comment (by simp [typeLine])
  rw [parse_oneLine hline, hcomment]
  rfl

/-- The first line of a help text ends the comment, the others are lines of their own. -/
theorem parse_helpLine {name help : Text} (hname : MetricName name) (hne : help ≠ []) :
    parseExposition U (helpLine name help) = (splitlines help).tail.filterMap (parseLine U) := by
  have hmark : ∀ c ∈ ['#', ' ', 'H', 'E', 'L', 'P', ' '], isLineBreak c = false := by simp [isLineBreak]
  have hprefix : ∀ c ∈ ['#', ' ', 'H', 'E', 'L', 'P', ' '] ++ name ++ [' '], isLineBreak c = false :=
    List.forall_mem_append.mpr ⟨List.forall_mem_append.mpr ⟨hmark, name_noBreak hname⟩,
      List.forall_mem_singleton.mpr (by decide)⟩
  have hsplit := splitFrom_text [] hprefix help
  obtain ⟨l, hl⟩ := splitFrom_prepend (['#', ' ', 'H', 'E', 'L', 'P', ' '] ++ name ++ [' ']) [] hne
  rw [List.append_nil] at hl
  rw [List.nil_append, hl, List.append_assoc, List.singleton_append] at hsplit
  have hcomment : parseLine U (['#', ' ', 'H', 'E', 'L', 'P', ' '] ++ name ++ [' '] ++ l) = none :=
    parseLine_comment (by simp)
  rw [parseExposition, splitlines, helpLine, hsplit, List.filterMap_cons, hcomment]
  rfl

theorem parse_seriesLines {name : Text} (hname : MetricName name) {ss : List (Text × Series)}
    (hss : ∀ s ∈ ss, ValidLabels s.2.labels ∧ Contained s.2.labels ∧ s.2.value.natAbs < 2 ^ 53)
    (rest : Text) :
    parseExposition U ((ss.flatMap fun s => renderSeries name s.2 ++ ['\n']) ++ rest) =
      (ss.map fun s => readSeries (name, s.2)) ++ parseExposition U rest := by
  induction ss with
  | nil => rfl
  | cons s ss ih =>
    obtain ⟨⟨hnames, hcontained, hvalue⟩, hss⟩ := List.forall_mem_cons.mp hss
    rw [List.flatMap_cons, List.append_assoc, List.append_assoc, List.singleton_append,
      parse_newline, ih hss, parse_oneLine (renderSeries_noBreak hname hnames hcontained),
      parse_series hname hnames hcontained hvalue]
    rfl

theorem parse_family {name : Text} {fam : Family} (hname : MetricName name)
    (hss : ∀ s ∈ fam.series.toList, ValidLabels s.2.labels ∧ Contained s.2.labels ∧
      s.2.value.natAbs < 2 ^ 53) (rest : Text) :
    parseExposition U (fam.render name ++ rest) =
      strays U (name, fam) ++ (fam.series.toList.map fun s => readSeries (name, s.2)) ++
        parseExposition U rest := by
  have htype : ∀ rest, parseExposition U (typeLine name fam.type ++ '\n' :: rest) =
      parseExposition U rest := fun rest => by
    rw [parse_newline, parse_typeLine hname, List.nil_append]
  rw [Family.render, List.append_assoc, List.append_assoc, List.append_assoc,
    List.append_assoc (strays U _), ← parse_seriesLines hname hss]
  split
  · next hnil =>
    rw [List.nil_append, List.singleton_append, htype, strays, hnil]
    rfl
  · next hne =>
    rw [List.append_assoc, List.singleton_append, List.singleton_append, parse_newline, htype,
      parse_helpLine hname hne]
    rfl

theorem parse_render {r : Registry} (h : r.WellFormed)
    (hcontained : ∀ s ∈ r.series, Contained s.2.labels) :
    (parseExposition U r.render).Perm
      (r.families.toList.flatMap (strays U) ++ r.series.map readSeries) := by
  have hparse : ∀ fams : List (Text × Family), fams ⊆ r.families.toList →
      parseExposition U (fams.flatMap fun fam => fam.2.render fam.1) =
        fams.flatMap fun fam => strays U fam ++
          (fam.2.series.toList.map fun s => readSeries (fam.1, s.2)) := by
    intro fams hfams
    induction fams with
    | nil => rfl
    | cons fam fams ih =>
      have hfam := hfams List.mem_cons_self
      have hmem : ∀ s ∈ fam.2.series.toList, (fam.1, s.2) ∈ r.series :=
        fun s hs => mem_series.mpr ⟨fam, hfam, s, hs, rfl⟩
      rw [List.flatMap_cons, List.flatMap_cons, parse_family (h.names fam hfam),
        ih fun f hf => hfams (List.mem_cons_of_mem fam hf)]
      exact fun s hs => ⟨h.labels (fam.1, s.2) (hmem s hs), hcontained (fam.1, s.2) (hmem s hs),
        h.whole (fam.1, s.2) (hmem s hs)⟩
  have hseries : r.series.map readSeries = r.families.toList.flatMap fun fam =>
      fam.2.series.toList.map fun s => readSeries (fam.1, s.2) := by
    rw [Registry.series, List.map_flatMap]
    simp only [List.map_map, Function.comp_def]
  rw [Registry.render, hparse _ (List.Subset.refl _), hseries]
  exact (List.flatMap_append_perm _ _ _).symm

end Lines

section RoundTrip

variable {U} {r : Registry}

theorem strays_eq_nil_iff {fam : Text × Family} :
    strays U fam = [] ↔ ∀ line ∈ (splitlines fam.2.help).tail, ¬ SampleLine U line := by
  rw [strays, List.filterMap_eq_nil_iff]
  refine forall₂_congr fun line hline => ?_
  have hbreak := splitFrom_noBreak fam.2.help (fun c hc => absurd hc List.not_mem_nil) line
    (List.mem_of_mem_tail hline)
  rw [← parseLine_isSome_iff hbreak, Option.not_isSome_iff_eq_none]

theorem length_escape (v : Text) :
    (escape v).length = (v.map fun c => (escapeChar c).length).sum :=
  List.length_flatMap

theorem length_le_escape (v : Text) : v.length ≤ (escape v).length := by
  rw [length_escape]
  have h : (v.map fun _ => 1).sum ≤ (v.map fun c => (escapeChar c).length).sum := by
    refine List.sum_le_sum fun c _ => ?_
    rw [length_escapeChar]
    split <;> decide
  simpa using h

theorem length_lt_escape {v : Text} {c : Char} (hc : c ∈ v)
    (hspecial : c = '"' ∨ c = '\\' ∨ c = '\n') : v.length < (escape v).length := by
  rw [length_escape]
  have h : (v.map fun _ => 1).sum < (v.map fun c => (escapeChar c).length).sum := by
    refine List.sum_lt_sum _ _ (fun c _ => ?_) ⟨c, hc, ?_⟩
    · rw [length_escapeChar]
      split <;> decide
    · rw [length_escapeChar, if_pos hspecial]
      decide
  simpa using h

theorem escape_plain {v : Text} (hv : ∀ c ∈ v, c ≠ '"' ∧ c ≠ '\\' ∧ c ≠ '\n') : escape v = v := by
  have hchar : ∀ c ∈ v, escapeChar c = [c] := by
    intro c hc
    obtain ⟨hq, hb, hn⟩ := hv c hc
    simp [escapeChar, hq, hb, hn]
  rw [escape, List.flatMap_congr hchar, List.flatMap_singleton']

def weight (a : Text × Multiset (Text × Text) × Number) : Nat :=
  (a.2.1.map fun label => label.2.length).sum

theorem weight_series (s : Text × Series) :
    weight (seriesContent s) = (s.2.labels.toList.map fun label => label.2.length).sum := by
  simp [weight, seriesContent]

theorem weight_read (s : Text × Series) :
    weight (readSeries s).content =
      (s.2.labels.toList.map fun label => (escape label.2).length).sum := by
  simp [weight, readSeries, Sample.content, readLabels, Function.comp_def]

theorem contained_of_roundTrips (h : RoundTrips U r) : ∀ s ∈ r.series, Contained s.2.labels := by
  intro s hs label hlabel
  obtain ⟨sample, hsample, hcontent⟩ := List.mem_map.mp
    (h.mem_iff.mpr (List.mem_map_of_mem hs))
  have hlabels : (sample.labels : Multiset (Text × Text)) = s.2.labels.toList :=
    congrArg (fun a => a.2.1) hcontent
  refine parsed_contained sample hsample label ?_
  rw [← Multiset.mem_coe, hlabels]
  exact hlabel

theorem content_of_readable (h : Readable U r) {s : Text × Series} (hs : s ∈ r.series) :
    (readSeries s).content = seriesContent s := by
  have hlabels : readLabels s.2.labels = s.2.labels.toList := by
    refine (List.map_congr_left fun label hlabel => ?_).trans (List.map_id _)
    have hplain := h.labels s hs label hlabel
    refine Prod.ext rfl (escape_plain fun c hc => ⟨(hplain c hc).1, (hplain c hc).2.1, ?_⟩)
    rintro rfl
    exact absurd (hplain _ hc).2.2.2 (by decide)
  have hvalue := (readBack_eq_iff s.2.value).mpr (h.values s hs)
  rw [readSeries, Sample.content, seriesContent, hlabels, hvalue]

theorem roundTrips_of_readable (hr : r.WellFormed) (h : Readable U r) : RoundTrips U r := by
  have hcontained : ∀ s ∈ r.series, Contained s.2.labels :=
    fun s hs label hlabel c hc => (h.labels s hs label hlabel c hc).2.2
  have hstrays : r.families.toList.flatMap (strays U) = [] :=
    List.flatMap_eq_nil_iff.mpr fun fam hfam => strays_eq_nil_iff.mpr (h.help fam hfam)
  have hparse := (parse_render (U := U) hr hcontained).map Sample.content
  rw [hstrays, List.nil_append, List.map_map] at hparse
  exact hparse.trans (.of_eq (List.map_congr_left fun s hs => content_of_readable h hs))

theorem strays_of_roundTrips (hr : r.WellFormed) (h : RoundTrips U r) :
    r.families.toList.flatMap (strays U) = [] := by
  have hparse := (parse_render (U := U) hr (contained_of_roundTrips h)).length_eq
  have hlength := h.length_eq
  rw [List.length_map, List.length_map] at hlength
  rw [List.length_append, List.length_map] at hparse
  exact List.eq_nil_of_length_eq_zero (by omega)

theorem contents_of_roundTrips (hr : r.WellFormed) (h : RoundTrips U r) :
    (r.series.map fun s => (readSeries s).content).Perm (r.series.map seriesContent) := by
  have hparse := (parse_render (U := U) hr (contained_of_roundTrips h)).map Sample.content
  rw [strays_of_roundTrips hr h, List.nil_append, List.map_map] at hparse
  exact hparse.symm.trans h

/-- An escaped character would make the values that are read longer than those written. -/
theorem plain_of_roundTrips (hr : r.WellFormed) (h : RoundTrips U r) {s : Text × Series}
    (hs : s ∈ r.series) {label : Text × Text} (hlabel : label ∈ s.2.labels.toList) {c : Char}
    (hc : c ∈ label.2) : c ≠ '"' ∧ c ≠ '\\' := by
  by_contra hspecial
  have hweights := ((contents_of_roundTrips hr h).map weight).sum_eq
  rw [List.map_map, List.map_map] at hweights
  have hlt : (r.series.map (weight ∘ seriesContent)).sum <
      (r.series.map (weight ∘ fun s => (readSeries s).content)).sum := by
    refine List.sum_lt_sum _ _ (fun s _ => ?_) ⟨s, hs, ?_⟩
    · simp only [Function.comp_apply, weight_series, weight_read]
      exact List.sum_le_sum fun label _ => length_le_escape label.2
    · simp only [Function.comp_apply, weight_series, weight_read]
      exact List.sum_lt_sum _ _ (fun label _ => length_le_escape label.2)
        ⟨label, hlabel, length_lt_escape hc (by tauto)⟩
  exact absurd hweights hlt.ne'

theorem readable_of_roundTrips (hr : r.WellFormed) (h : RoundTrips U r) : Readable U r := by
  refine ⟨fun s hs label hlabel c hc => ?_, fun s hs => ?_, fun fam hfam => ?_⟩
  · obtain ⟨hq, hb⟩ := plain_of_roundTrips hr h hs hlabel hc
    exact ⟨hq, hb, contained_of_roundTrips h s hs label hlabel c hc⟩
  · obtain ⟨s', -, hcontent⟩ := List.mem_map.mp
      ((contents_of_roundTrips hr h).mem_iff.mpr (List.mem_map_of_mem hs))
    have hnum : Number.num (readBack s'.2.value) = .num s.2.value :=
      congrArg (fun a => a.2.2) hcontent
    have hvalue : readBack s'.2.value = s.2.value := by exact_mod_cast Number.num.inj hnum
    rw [← hvalue, ← readBack_eq_iff, readBack_readBack]
  · exact strays_eq_nil_iff.mp
      (List.flatMap_eq_nil_iff.mp (strays_of_roundTrips hr h) fam hfam)

theorem roundTrips_iff_readable (hr : r.WellFormed) : RoundTrips U r ↔ Readable U r :=
  ⟨readable_of_roundTrips hr, roundTrips_of_readable hr⟩

end RoundTrip

/-- What the exporter writes is read back exactly where nothing needs escaping or rounding
and no help text goes on with a sample. -/
theorem roundTrips_iff {r : Registry} (h : registrySystem.Reachable Allowed r) :
    RoundTrips U r ↔ Readable U r :=
  roundTrips_iff_readable (reachable_wellFormed h)

def asciiOnly : Unicode := ⟨fun _ => false, fun _ => none⟩

def sensorGauge (sensor : Text) : Registry := ({} : Registry).setSensorGauge ['g'] sensor 5

def sensorLabels (sensor : Text) : Labels :=
  Std.TreeMap.ofList [(['s', 'e', 'n', 's', 'o', 'r'], sensor)]

theorem mem_sensorGauge {sensor : Text} {s : Text × Series} :
    s ∈ (sensorGauge sensor).series ↔ s = (['g'], ⟨sensorLabels sensor, 5⟩) :=
  List.mem_singleton

theorem mem_sensorLabels {sensor : Text} {label : Text × Text} :
    label ∈ (sensorLabels sensor).toList ↔ label = (['s', 'e', 'n', 's', 'o', 'r'], sensor) :=
  List.mem_singleton

theorem sensorGauge_reachable (sensor : Text) :
    registrySystem.Reachable Allowed (sensorGauge sensor) := by
  refine (Transition.System.Reachable.start rfl).step (a := .setSensorGauge ['g'] sensor 5)
    ⟨?_, fun s hs => ?_⟩ rfl
  · exact ⟨'g', [], rfl, by decide, fun d hd => absurd hd List.not_mem_nil⟩
  · rw [mem_sensorGauge.mp hs]
    exact (by decide : (5 : Int).natAbs < 2 ^ 53)

theorem roundTrips_imu : RoundTrips asciiOnly (sensorGauge ['i', 'm', 'u']) := by
  refine (roundTrips_iff asciiOnly (sensorGauge_reachable _)).mpr
    ⟨fun s hs label hlabel => ?_, fun s hs => ?_, fun fam hfam line hline => ?_⟩
  · rw [mem_sensorGauge.mp hs, mem_sensorLabels] at hlabel
    rw [hlabel]
    simp [isLineBreak]
  · rw [mem_sensorGauge.mp hs]
    exact ⟨5, 0, by decide, rfl⟩
  · rw [List.mem_singleton.mp hfam] at hline
    cases hline

/-- A quotation mark comes back with the backslash that escapes it. -/
theorem quote_not_read : ¬ ∀ (U : Unicode) (r : Registry),
    registrySystem.Reachable Allowed r → RoundTrips U r := by
  intro h
  have hr := sensorGauge_reachable ['a', '"', 'b']
  have hreadable := (roundTrips_iff_readable (reachable_wellFormed hr)).mp (h asciiOnly _ hr)
  have hquote := hreadable.labels _ (mem_sensorGauge.mpr rfl) _ (mem_sensorLabels.mpr rfl) '"'
    (by decide)
  exact hquote.1 rfl

end SensorForge.Dashboard
