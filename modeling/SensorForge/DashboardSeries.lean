import SensorForge.LatestByKey
import SensorForge.PrometheusExporter
import SensorForge.RegistryKeys

/-! What the dashboard keeps of its scrapes: the values of the sensors by name, and the time
series of its charts. -/

namespace SensorForge.Dashboard

open GeneralFormat LatestByKey Metrics PythonText

def byName (samples : List Sample) (name : Text) : List Sample := samples.filter (·.name = name)

/-- `out[key] = value` for a dictionary in the order of insertion. -/
def assign (d : List (Text × Number)) (item : Text × Number) : List (Text × Number) :=
  if d.any fun e => e.1 = item.1 then d.map fun e => if e.1 = item.1 then item else e
  else d ++ [item]

/-- `labels.get("sensor")` -/
def Sample.sensor (s : Sample) : Option Text :=
  (s.labels.find? (·.1 = "sensor".toList)).map Prod.snd

def sensorValues (samples : List Sample) (name : Text) : List (Text × Number) :=
  (byName samples name).foldl (fun out s =>
    match s.sensor with
    | some sensor => assign out (sensor, s.value)
    | none => out) []

def scalar (samples : List Sample) (name : Text) (fallback : Number := .num 0) : Number :=
  match byName samples name with
  | s :: _ => s.value
  | [] => fallback

/-- A `defaultdict(list)` of points in time. -/
abbrev TimeSeries := Text → List (ℚ × Number)

def TimeSeries.extend (series : TimeSeries) (t : ℚ) (values : List (Text × Number)) : TimeSeries :=
  values.foldl (fun series item =>
    Function.update series item.1 (series item.1 ++ [(t, item.2)])) series

structure Board where
  throughput : TimeSeries := fun _ => []
  dropRate : TimeSeries := fun _ => []
  crc : List (ℚ × Number) := []

abbrev PerSensor := Text → Text → Option Number

def PerSensor.fill (perSensor : PerSensor) (pct : Text) (values : List (Text × Number)) :
    PerSensor :=
  values.foldl (fun perSensor item =>
    Function.update perSensor item.1 (Function.update (perSensor item.1) pct (some item.2)))
    perSensor

/-- `_poll_once`, from the samples of the scrape. -/
def Board.pollOnce (b : Board) (t : ℚ) (samples : List Sample) : Board × PerSensor :=
  ({ throughput := b.throughput.extend t
      (sensorValues samples "sensorforge_msgs_per_sec".toList)
     dropRate := b.dropRate.extend t (sensorValues samples "sensorforge_drop_rate_pct".toList)
     crc := b.crc ++ [(t, scalar samples "sensorforge_crc_failures_total".toList)] },
    [("p50", "sensorforge_latency_p50_ms"), ("p99", "sensorforge_latency_p99_ms"),
      ("p999", "sensorforge_latency_p999_ms")].foldl (fun perSensor e =>
        PerSensor.fill perSensor e.1.toList (sensorValues samples e.2.toList)) fun _ _ => none)

def lookup (d : List (Text × Number)) (k : Text) : Option Number :=
  (d.find? (·.1 = k)).map Prod.snd

section Dictionary

variable {d values : List (Text × Number)} {item : Text × Number} {k : Text}

theorem lookup_eq_none_iff : lookup d k = none ↔ k ∉ d.map Prod.fst := by
  simp only [lookup, Option.map_eq_none_iff, List.find?_eq_none, decide_eq_true_eq, List.mem_map,
    not_exists, not_and]

theorem lookup_cons : lookup (item :: d) k = if item.1 = k then some item.2 else lookup d k := by
  by_cases hk : item.1 = k <;> simp [lookup, hk]

theorem lookup_replace : lookup (d.map fun e => if e.1 = item.1 then item else e) k =
    (lookup d k).map fun v => if item.1 = k then item.2 else v := by
  induction d with
  | nil => rfl
  | cons e d ih =>
    rw [List.map_cons, lookup_cons, lookup_cons, ih]
    by_cases he : e.1 = item.1
    · by_cases hk : item.1 = k <;> simp [he, hk]
    · rw [if_neg he]
      by_cases hk : e.1 = k
      · have hitem : item.1 ≠ k := fun h => he (hk.trans h.symm)
        simp [hk, hitem]
      · simp [hk]

theorem any_iff_mem : d.any (fun e => e.1 = k) = true ↔ k ∈ d.map Prod.fst := by
  rw [List.any_eq_true, List.mem_map]
  simp only [decide_eq_true_eq]

theorem lookup_assign :
    lookup (assign d item) k = if item.1 = k then some item.2 else lookup d k := by
  unfold assign
  split
  · next hmem =>
    rw [lookup_replace]
    by_cases hk : item.1 = k
    · obtain ⟨v, hv⟩ := Option.ne_none_iff_exists'.mp
        (mt lookup_eq_none_iff.mp (not_not.mpr (hk ▸ any_iff_mem.mp hmem)))
      simp [hk, hv]
    · simp [hk]
  · next hnew =>
    rw [lookup, List.find?_append, Option.map_or, ← lookup]
    by_cases hk : item.1 = k
    · rw [lookup_eq_none_iff.mpr (hk ▸ mt any_iff_mem.mpr hnew)]
      simp [hk]
    · simp [hk]

theorem nodup_assign (h : (d.map Prod.fst).Nodup) : ((assign d item).map Prod.fst).Nodup := by
  unfold assign
  split
  · have hkeys : (d.map fun e => if e.1 = item.1 then item else e).map Prod.fst = d.map Prod.fst := by
      rw [List.map_map]
      refine List.map_congr_left fun e _ => ?_
      by_cases he : e.1 = item.1 <;> simp [he]
    rwa [hkeys]
  · next hnew =>
    rw [List.map_append, List.nodup_append]
    refine ⟨h, by simp, fun a ha b hb heq => hnew (any_iff_mem.mpr ?_)⟩
    rwa [← List.mem_singleton.mp hb, ← heq]

theorem extend_apply (h : (values.map Prod.fst).Nodup) (series : TimeSeries) (t : ℚ) (k : Text) :
    series.extend t values k = series k ++ ((lookup values k).map fun v => (t, v)).toList := by
  induction values generalizing series with
  | nil => simp [TimeSeries.extend, lookup]
  | cons item values ih =>
    rw [List.map_cons, List.nodup_cons] at h
    have hih := ih h.2 (Function.update series item.1 (series item.1 ++ [(t, item.2)]))
    rw [TimeSeries.extend, List.foldl_cons, ← TimeSeries.extend, hih]
    by_cases hk : item.1 = k
    · subst hk
      rw [lookup_eq_none_iff.mpr h.1, lookup_cons, if_pos rfl, Function.update_self]
      simp
    · rw [lookup_cons, if_neg hk, Function.update_of_ne (Ne.symm hk)]

theorem fill_apply (h : (values.map Prod.fst).Nodup) (perSensor : PerSensor) (pct k p : Text) :
    PerSensor.fill perSensor pct values k p =
      if p = pct then (lookup values k).or (perSensor k p) else perSensor k p := by
  induction values generalizing perSensor with
  | nil => simp [PerSensor.fill, lookup]
  | cons item values ih =>
    rw [List.map_cons, List.nodup_cons] at h
    rw [PerSensor.fill, List.foldl_cons, ← PerSensor.fill, ih h.2, lookup_cons]
    by_cases hk : item.1 = k
    · subst hk
      rw [lookup_eq_none_iff.mpr h.1, Function.update_self]
      by_cases hp : p = pct
      · subst hp
        simp
      · simp [hp]
    · rw [if_neg hk, Function.update_of_ne (Ne.symm hk)]

end Dictionary

section Values

variable {samples : List Sample} {name k : Text}

theorem sensorValues_eq : sensorValues samples name =
    ((byName samples name).filterMap fun s => s.sensor.map fun sensor => (sensor, s.value)).foldl
      assign [] := by
  rw [sensorValues, List.foldl_filterMap]
  congr 1
  funext out s
  cases s.sensor <;> rfl

theorem sensorValues_nodup : ((sensorValues samples name).map Prod.fst).Nodup := by
  rw [sensorValues_eq]
  refine List.foldlRecOn _ assign (motive := fun d => (d.map Prod.fst).Nodup) ?_ ?_
  · exact List.nodup_nil
  · exact fun d hd item _ => nodup_assign hd

/-- The last sample of the sensor counts. -/
theorem lookup_sensorValues : lookup (sensorValues samples name) k =
    ((byName samples name).reverse.find? fun s => s.sensor = some k).map Sample.value := by
  rw [sensorValues]
  induction byName samples name using List.reverseRecOn with
  | nil => rfl
  | append_singleton samples s ih =>
    rw [List.foldl_append, List.foldl_cons, List.foldl_nil, List.reverse_append,
      List.reverse_singleton, List.singleton_append, List.find?_cons]
    cases hs : s.sensor with
    | none => simpa [hs] using ih
    | some sensor =>
      dsimp only
      rw [lookup_assign]
      by_cases hk : sensor = k
      · simp [hk]
      · simpa [hk] using ih

/-- If the samples of the sensor agree, any of them counts. -/
theorem lookup_sensorValues_of_mem {s : Sample} (hs : s ∈ samples) (hname : s.name = name)
    (hk : s.sensor = some k)
    (hsame : ∀ s' ∈ samples, s'.name = name → s'.sensor = some k → s'.value = s.value) :
    lookup (sensorValues samples name) k = some s.value := by
  rw [lookup_sensorValues]
  cases hfind : (byName samples name).reverse.find? fun s => s.sensor = some k with
  | none =>
    have hmem : s ∈ (byName samples name).reverse :=
      List.mem_reverse.mpr (List.mem_filter.mpr ⟨hs, by simpa using hname⟩)
    exact absurd hk (by simpa using List.find?_eq_none.mp hfind s hmem)
  | some s' =>
    have hmem := List.mem_filter.mp (List.mem_reverse.mp (List.mem_of_find?_eq_some hfind))
    have hk' : s'.sensor = some k := by simpa using List.find?_some hfind
    rw [Option.map_some, hsame s' hmem.1 (by simpa using hmem.2) hk']

theorem lookup_sensorValues_none
    (h : ∀ s ∈ samples, s.name = name → s.sensor ≠ some k) :
    lookup (sensorValues samples name) k = none := by
  rw [lookup_sensorValues, Option.map_eq_none_iff, List.find?_eq_none]
  intro s hs
  have hmem := List.mem_filter.mp (List.mem_reverse.mp hs)
  simpa using h s hmem.1 (by simpa using hmem.2)

theorem pollOnce_perSensor (b : Board) (t : ℚ) (samples : List Sample) (k p : Text) :
    (b.pollOnce t samples).2 k p =
      if p = "p999".toList then
        lookup (sensorValues samples "sensorforge_latency_p999_ms".toList) k
      else if p = "p99".toList then
        lookup (sensorValues samples "sensorforge_latency_p99_ms".toList) k
      else if p = "p50".toList then
        lookup (sensorValues samples "sensorforge_latency_p50_ms".toList) k
      else none := by
  have hne : "p999".toList ≠ "p99".toList ∧ "p999".toList ≠ "p50".toList ∧
      "p99".toList ≠ "p50".toList := by decide
  rw [Board.pollOnce, List.foldl_cons, List.foldl_cons, List.foldl_cons, List.foldl_nil]
  dsimp only
  rw [fill_apply sensorValues_nodup, fill_apply sensorValues_nodup,
    fill_apply sensorValues_nodup]
  by_cases hp999 : p = "p999".toList
  · rw [if_pos hp999, if_pos hp999, if_neg (hp999 ▸ hne.1), if_neg (hp999 ▸ hne.2.1), Option.or_none]
  · rw [if_neg hp999, if_neg hp999]
    by_cases hp99 : p = "p99".toList
    · rw [if_pos hp99, if_pos hp99, if_neg (hp99 ▸ hne.2.2), Option.or_none]
    · rw [if_neg hp99, if_neg hp99, Option.or_none]

end Values

section Escape

theorem escapeChar_cases (c : Char) :
    (c ≠ '\\' ∧ escapeChar c = [c]) ∨ (c = '"' ∧ escapeChar c = ['\\', '"']) ∨
      (c = '\\' ∧ escapeChar c = ['\\', '\\']) ∨ (c = '\n' ∧ escapeChar c = ['\\', 'n']) := by
  by_cases hquote : c = '"'
  · exact .inr (.inl ⟨hquote, by rw [hquote]; rfl⟩)
  · by_cases hslash : c = '\\'
    · exact .inr (.inr (.inl ⟨hslash, by rw [hslash]; rfl⟩))
    · by_cases hnewline : c = '\n'
      · exact .inr (.inr (.inr ⟨hnewline, by rw [hnewline]; rfl⟩))
      · exact .inl ⟨hslash, by simp [escapeChar, hquote, hslash, hnewline]⟩

theorem escapeChar_append_inj {c d : Char} {s t : Text}
    (h : escapeChar c ++ s = escapeChar d ++ t) : c = d ∧ s = t := by
  rcases escapeChar_cases c with ⟨hc, hec⟩ | ⟨hc, hec⟩ | ⟨hc, hec⟩ | ⟨hc, hec⟩ <;>
    rcases escapeChar_cases d with ⟨hd, hed⟩ | ⟨hd, hed⟩ | ⟨hd, hed⟩ | ⟨hd, hed⟩ <;>
    rw [hec, hed] at h <;> grind

/-- Different names stay different. -/
theorem escape_injective : Function.Injective escape := by
  have hne : ∀ (c : Char) (s : Text), escape (c :: s) ≠ [] := by
    intro c s h
    have hlength := congrArg List.length h
    rw [escape, List.flatMap_cons, List.length_append, length_escapeChar, List.length_nil] at hlength
    split at hlength <;> omega
  intro s t h
  induction s generalizing t with
  | nil =>
    cases t with
    | nil => rfl
    | cons d t => exact absurd h.symm (hne d t)
  | cons c s ih =>
    cases t with
    | nil => exact absurd h (hne c s)
    | cons d t =>
      obtain ⟨rfl, hrest⟩ := escapeChar_append_inj h
      rw [ih hrest]

end Escape

end SensorForge.Dashboard
