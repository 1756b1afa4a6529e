import SensorForge.GeneralFormat
import SensorForge.TransitionSystem

/-! The metric registry of the exporter and the text that it renders. A text is a list of
characters; what the exporter does with single bytes concerns ASCII characters only. -/

namespace SensorForge.Metrics

open GeneralFormat PythonText Transition

abbrev Labels := Std.TreeMap Text Text

/-- The values are whole numbers where they are formatted, and of any type else. -/
structure Series (V : Type := Int) where
  labels : Labels := ∅
  value : V

inductive MetricType
  | gauge
  | counter
  deriving DecidableEq

structure Family (V : Type := Int) where
  type : Option MetricType := none
  help : Text := []
  series : Std.TreeMap Text (Series V) := ∅

structure Registry (V : Type := Int) where
  families : Std.TreeMap Text (Family V) := ∅

variable {V : Type}

def key (labels : Labels) : Text :=
  labels.toList.flatMap fun label => label.1 ++ '=' :: label.2 ++ [';']

/-- `families_[name]`, written by `f`. -/
def Registry.withFamily (r : Registry V) (name : Text) (f : Family V → Family V) : Registry V :=
  ⟨r.families.alter name fun fam => some (f (fam.getD {}))⟩

def Registry.setGauge (r : Registry V) (name : Text) (value : V) (labels : Labels := ∅) :
    Registry V :=
  r.withFamily name fun fam =>
    { fam with type := some .gauge, series := fam.series.insert (key labels) ⟨labels, value⟩ }

def Registry.setSensorGauge (r : Registry V) (name sensor : Text) (value : V) : Registry V :=
  r.setGauge name value (Std.TreeMap.ofList [(['s', 'e', 'n', 's', 'o', 'r'], sensor)])

def Registry.addCounter [Add V] [Zero V] [One V] (r : Registry V) (name : Text) (delta : V := 1)
    (labels : Labels := ∅) : Registry V :=
  r.withFamily name fun fam =>
    { fam with
      type := some .counter
      series := fam.series.alter (key labels) fun s =>
        some ⟨labels, (s.map Series.value).getD 0 + delta⟩ }

def Registry.setHelp (r : Registry V) (name help : Text) : Registry V :=
  r.withFamily name fun fam => { fam with help := help }

def escapeChar (c : Char) : Text :=
  (if c = '"' ∨ c = '\\' then ['\\'] else []) ++ if c = '\n' then ['\\', 'n'] else [c]

def escape (s : Text) : Text := s.flatMap escapeChar

def renderLabel (label : Text × Text) : Text :=
  label.1 ++ '=' :: '"' :: (escape label.2 ++ ['"'])

def renderLabels (labels : Labels) : Text :=
  if labels.toList = [] then []
  else '{' :: ([','].intercalate (labels.toList.map renderLabel) ++ ['}'])

def renderSeries (name : Text) (s : Series) : Text :=
  name ++ renderLabels s.labels ++ ' ' :: formatInt s.value

def MetricType.text : MetricType → Text
  | .gauge => ['g', 'a', 'u', 'g', 'e']
  | .counter => ['c', 'o', 'u', 'n', 't', 'e', 'r']

def helpLine (name help : Text) : Text := ['#', ' ', 'H', 'E', 'L', 'P', ' '] ++ name ++ ' ' :: help

def typeLine (name : Text) (type : Option MetricType) : Text :=
  ['#', ' ', 'T', 'Y', 'P', 'E', ' '] ++ name ++ ' ' :: (type.getD .gauge).text

def Family.render (name : Text) (fam : Family) : Text :=
  (if fam.help = [] then [] else helpLine name fam.help ++ ['\n']) ++
    (typeLine name fam.type ++ ['\n']) ++
    fam.series.toList.flatMap fun s => renderSeries name s.2 ++ ['\n']

def Registry.render (r : Registry) : Text :=
  r.families.toList.flatMap fun fam => fam.2.render fam.1

/-- All series, under the names of their families. -/
def Registry.series (r : Registry V) : List (Text × Series V) :=
  r.families.toList.flatMap fun fam => fam.2.series.toList.map fun s => (fam.1, s.2)

def isNameStart (c : Char) : Bool := isAsciiLetter c || c = '_' || c = ':'

def isNameChar (c : Char) : Bool := isNameStart c || isAsciiDigit c

def MetricName (name : Text) : Prop :=
  ∃ c rest, name = c :: rest ∧ isNameStart c = true ∧ ∀ d ∈ rest, isNameChar d = true

def LabelName (name : Text) : Prop := MetricName name ∧ ':' ∉ name

def ValidLabels (labels : Labels) : Prop := ∀ label ∈ labels.toList, LabelName label.1

inductive Call (V : Type := Int)
  | setGauge (name : Text) (value : V) (labels : Labels)
  | setSensorGauge (name sensor : Text) (value : V)
  | addCounter (name : Text) (delta : V) (labels : Labels)
  | setHelp (name help : Text)

def Call.Valid : Call V → Prop
  | .setGauge name _ labels => MetricName name ∧ ValidLabels labels
  | .setSensorGauge name _ _ => MetricName name
  | .addCounter name _ labels => MetricName name ∧ ValidLabels labels
  | .setHelp name _ => MetricName name

def Registry.call [Add V] [Zero V] [One V] (r : Registry V) : Call V → Registry V
  | .setGauge name value labels => r.setGauge name value labels
  | .setSensorGauge name sensor value => r.setSensorGauge name sensor value
  | .addCounter name delta labels => r.addCounter name delta labels
  | .setHelp name help => r.setHelp name help

def registrySystem : System Registry Call where
  start r := r = {}
  next r c := some (r.call c)

/-- Whole numbers of which doubles hold every one. -/
def Registry.Whole (r : Registry) : Prop := ∀ s ∈ r.series, s.2.value.natAbs < 2 ^ 53

def Allowed (r : Registry) (c : Call) : Prop := c.Valid ∧ (r.call c).Whole

/-- What holds of every registry that the calls build. -/
structure Registry.WellFormed (r : Registry) : Prop where
  names : ∀ fam ∈ r.families.toList, MetricName fam.1
  labels : ∀ s ∈ r.series, ValidLabels s.2.labels
  whole : r.Whole

theorem length_escapeChar (c : Char) :
    (escapeChar c).length = if c = '"' ∨ c = '\\' ∨ c = '\n' then 2 else 1 := by
  by_cases hnewline : c = '\n'
  · subst hnewline
    rfl
  · by_cases hquote : c = '"' ∨ c = '\\' <;> simp [escapeChar, hnewline, hquote]

theorem mem_series {r : Registry V} {s : Text × Series V} :
    s ∈ r.series ↔ ∃ fam ∈ r.families.toList, ∃ e ∈ fam.2.series.toList, s = (fam.1, e.2) := by
  simp only [Registry.series, List.mem_flatMap, List.mem_map, eq_comm]

theorem mem_withFamily {r : Registry} {name : Text} {f : Family → Family} {fam : Text × Family}
    (h : fam ∈ (r.withFamily name f).families.toList) :
    (∃ old : Family, fam = (name, f old) ∧ ∀ e ∈ old.series.toList, (name, e.2) ∈ r.series) ∨
      fam ∈ r.families.toList := by
  obtain ⟨n, fam⟩ := fam
  rw [Std.TreeMap.mem_toList_iff_getElem?_eq_some, Registry.withFamily,
    Std.TreeMap.getElem?_alter] at h
  split at h
  · next heq =>
    left
    obtain rfl : name = n := Std.LawfulEqCmp.eq_of_compare heq
    refine ⟨_, by rw [Option.some.inj h], fun e he => ?_⟩
    cases hold : r.families[name]? with
    | none =>
      rw [hold] at he
      exact absurd he List.not_mem_nil
    | some old =>
      rw [hold] at he
      exact mem_series.mpr
        ⟨(name, old), Std.TreeMap.mem_toList_iff_getElem?_eq_some.mpr hold, e, he, rfl⟩
  · exact .inr (Std.TreeMap.mem_toList_iff_getElem?_eq_some.mpr h)

theorem withFamily_wellFormed {r : Registry} {name : Text} {f : Family → Family}
    (h : r.WellFormed) (hname : MetricName name)
    (hf : ∀ old : Family, ∀ e ∈ (f old).series.toList,
      e ∈ old.series.toList ∨ ValidLabels e.2.labels)
    (hwhole : (r.withFamily name f).Whole) : (r.withFamily name f).WellFormed := by
  refine ⟨fun fam hfam => ?_, fun s hs => ?_, hwhole⟩
  · rcases mem_withFamily hfam with ⟨old, rfl, -⟩ | hfam
    · exact hname
    · exact h.names fam hfam
  · obtain ⟨fam, hfam, e, he, rfl⟩ := mem_series.mp hs
    rcases mem_withFamily hfam with ⟨old, rfl, hold⟩ | hfam
    · rcases hf old e he with he | he
      · exact h.labels _ (hold e he)
      · exact he
    · exact h.labels _ (mem_series.mpr ⟨fam, hfam, e, he, rfl⟩)

theorem mem_insert_series {series : Std.TreeMap Text Series} {k : Text} {s : Series}
    {e : Text × Series} (he : e ∈ (series.insert k s).toList) : e ∈ series.toList ∨ e.2 = s := by
  rw [Std.TreeMap.mem_toList_iff_getElem?_eq_some, Std.TreeMap.getElem?_insert] at he
  split at he
  · exact .inr (Option.some.inj he).symm
  · exact .inl (Std.TreeMap.mem_toList_iff_getElem?_eq_some.mpr he)

theorem mem_alter_series {series : Std.TreeMap Text Series} {k : Text}
    {f : Option Series → Series} {e : Text × Series}
    (he : e ∈ (series.alter k fun o => some (f o)).toList) :
    e ∈ series.toList ∨ ∃ o, e.2 = f o := by
  rw [Std.TreeMap.mem_toList_iff_getElem?_eq_some, Std.TreeMap.getElem?_alter] at he
  split at he
  · exact .inr ⟨_, (Option.some.inj he).symm⟩
  · exact .inl (Std.TreeMap.mem_toList_iff_getElem?_eq_some.mpr he)

theorem setGauge_wellFormed {r : Registry} {name : Text} {value : Int} {labels : Labels}
    (h : r.WellFormed) (hname : MetricName name) (hlabels : ValidLabels labels)
    (hwhole : (r.setGauge name value labels).Whole) : (r.setGauge name value labels).WellFormed := by
  refine withFamily_wellFormed h hname (fun old e he => ?_) hwhole
  refine (mem_insert_series he).imp_right fun hs => ?_
  rw [hs]
  exact hlabels

theorem call_wellFormed {r : Registry} {c : Call} (h : r.WellFormed) (hc : Allowed r c) :
    (r.call c).WellFormed := by
  obtain ⟨hvalid, hwhole⟩ := hc
  cases c with
  | setGauge name value labels => exact setGauge_wellFormed h hvalid.1 hvalid.2 hwhole
  | setSensorGauge name sensor value =>
    refine setGauge_wellFormed h hvalid (fun label hlabel => ?_) hwhole
    obtain rfl : label = (['s', 'e', 'n', 's', 'o', 'r'], sensor) := List.mem_singleton.mp hlabel
    refine ⟨⟨'s', _, rfl, by decide, ?_⟩, ?_⟩
    · simp [isNameChar, isNameStart, isAsciiLetter]
    · simp
  | addCounter name delta labels =>
    refine withFamily_wellFormed h hvalid.1 (fun old e he => ?_) hwhole
    refine (mem_alter_series he).imp_right ?_
    rintro ⟨o, hs⟩
    rw [hs]
    exact hvalid.2
  | setHelp name help =>
    refine withFamily_wellFormed h hvalid ?_ hwhole
    exact fun old e he => .inl he

theorem empty_wellFormed : ({} : Registry).WellFormed :=
  ⟨fun _ h => absurd h List.not_mem_nil, fun _ h => absurd h List.not_mem_nil,
    fun _ h => absurd h List.not_mem_nil⟩

theorem reachable_wellFormed {r : Registry} (h : registrySystem.Reachable Allowed r) :
    r.WellFormed := by
  refine h.invariant ?_ ?_
  · rintro _ rfl
    exact empty_wellFormed
  · rintro r c _ hr hc ⟨⟩
    exact call_wellFormed hr hc

end SensorForge.Metrics
