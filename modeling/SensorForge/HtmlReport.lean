import SensorForge.FixedPoint
import SensorForge.Markup
import SensorForge.OrderStatistic
import SensorForge.ScenarioReport

/-! The HTML page of a scenario's report, and what is read of its tables. -/

namespace SensorForge.Scenarios

open GeneralFormat Markup OrderStatistic

/-- The loop over the assertions. -/
def evaluateAll (scenarioName : String) (assertions : List (Assertion ℚ)) (metrics : MetricMap) :
    ScenarioResult :=
  assertions.foldl (fun sr a =>
    let ar := evaluate a metrics
    { sr with
      passed := if ar.passed then sr.passed else false
      assertions := sr.assertions ++ [ar] })
    { scenarioName, passed := true }

/-- The map's entries, in the order of its keys, which are the streams. -/
def ScenarioReport.entries (r : ScenarioReport) (streams : List String) :
    List (String × SensorMetrics) :=
  (sorted streams.dedup).filterMap fun s => (r.perSensor s).map fun m => (s, m)

def escapeChar (c : Char) : Text :=
  if c = '&' then referenceTo "amp".toList
  else if c = '<' then referenceTo "lt".toList
  else if c = '>' then referenceTo "gt".toList
  else if c = '"' then referenceTo "quot".toList
  else [c]

def esc (s : String) : Text := s.toList.flatMap escapeChar

def fmt (v : ℚ) : Text := fixedPoint 3 v

def intText (n : Int) : Text :=
  (if n < 0 then ['-'] else []) ++ Nat.toDigits 10 n.natAbs

def tag (t : String) (inner : Text) : Text := tagged t.toList inner

def heading (s : String) : Text := tag "th" s.toList

section Html

variable (r : ScenarioReport) (sensors : List (String × SensorMetrics))

def status (passed : Bool) : Text := if passed then "PASS".toList else "FAIL".toList

def color (passed : Bool) : String := if passed then "#1b8a3a" else "#c0392b"

def rule (selector : String) (declarations : Text) : Text :=
  selector.toList ++ ('{' :: declarations ++ ['}'])

def style (passed : Bool) : Text :=
  rule "body" ("font-family:-apple-system,Segoe UI,Roboto,sans-serif;margin:0;".toList ++
    "background:#0f1115;color:#e6e6e6".toList) ++
  rule ".wrap" "max-width:900px;margin:0 auto;padding:24px".toList ++
  rule ".banner" ("padding:16px 20px;border-radius:10px;color:#fff;font-weight:600;".toList ++
    "font-size:20px;background:".toList ++ (color passed).toList) ++
  rule "h1" "font-size:22px;margin:8px 0".toList ++
  rule "h2" "font-size:16px;margin:24px 0 8px;color:#9fb0c0".toList ++
  rule "table" "width:100%;border-collapse:collapse;font-size:14px;margin-top:6px".toList ++
  rule "th,td" "text-align:left;padding:8px 10px;border-bottom:1px solid #232833".toList ++
  rule "th" "color:#9fb0c0;font-weight:600".toList ++
  rule ".pass" "color:#38d160".toList ++ rule ".fail" "color:#ff6b6b".toList ++
  rule ".muted" "color:#8a94a3".toList ++
  rule ".bar" "height:10px;background:#38d160;border-radius:3px".toList

def headHtml : Text :=
  tag "head" (startTag "meta charset=\"utf-8\"".toList ++
    startTag "meta name=\"viewport\" content=\"width=device-width,initial-scale=1\"".toList ++
    tag "title" ("SensorForge report - ".toList ++ esc r.scenario) ++
    tag "style" (style r.passed))

def bannerHtml : Text :=
  tag "h1" "SensorForge Scenario Report".toList ++
  tag "div class=\"banner\"" (esc r.scenario ++ [' '] ++ referenceTo "mdash".toList ++ [' '] ++
    status r.passed) ++
  tag "p class=\"muted\"" (esc r.timestamp ++ [' '] ++ referenceTo "middot".toList ++
    " duration ".toList ++ fmt r.durationSeconds ++ " s".toList)

def assertionHtml (a : AssertionReport) : Text :=
  tag "tr" (tag "td" (esc a.metric) ++ tag "td" (esc a.op) ++ tag "td" (fmt a.threshold) ++
    tag "td" (if a.found then fmt a.actual else referenceTo "mdash".toList) ++
    tag (if a.passed then "td class=\"pass\"" else "td class=\"fail\"") (status a.passed))

def assertionHeadings : List String := ["Metric", "Operator", "Threshold", "Actual", "Result"]

def assertionsHtml : Text :=
  tag "h2" "Assertions".toList ++
  tag "table" (tag "tr" (assertionHeadings.flatMap heading) ++ r.assertions.flatMap assertionHtml)

def maxP99 : ℚ := sensors.foldl (fun m s => max m s.2.latencyP99Ms) 1

/-- `static_cast<int>` truncates. -/
def barWidth (max p99 : ℚ) : Int :=
  let w := 100 * p99 / max
  if w < 0 then -⌊-w⌋ else ⌊w⌋

def barTag (width : Int) : Text :=
  "div class=\"bar\" style=\"width:".toList ++ intText width ++ "%\"".toList

def sensorHtml (maxP99 : ℚ) (name : String) (s : SensorMetrics) : Text :=
  tag "tr" (tag "td" (esc name) ++ tag "td" (fmt s.msgsSec) ++ tag "td" (fmt s.dropRatePct) ++
    tag "td" (fmt s.latencyP50Ms) ++ tag "td" (fmt s.latencyP99Ms) ++
    tag "td" (Nat.toDigits 10 s.sequenceGaps) ++
    tag "td" (tagged (barTag (barWidth maxP99 s.latencyP99Ms)) []))

def sensorHeadings : List String :=
  ["Sensor", "msgs/s", "drop %", "p50 ms", "p99 ms", "gaps", "p99 latency"]

def sensorsHtml : Text :=
  tag "h2" "Per-sensor metrics".toList ++
  tag "table" (tag "tr" (sensorHeadings.flatMap heading) ++
    sensors.flatMap fun s => sensorHtml (maxP99 sensors) s.1 s.2)

def transportHeadings : List String := ["bytes/s", "CRC failures", "sequence gaps", "retransmits"]

def transportHtml (t : TransportMetrics) : Text :=
  tag "h2" "Transport".toList ++
  tag "table" (tag "tr" (transportHeadings.flatMap heading) ++
    tag "tr" (tag "td" (fmt t.bytesSec) ++ tag "td" (Nat.toDigits 10 t.crcFailures) ++
      tag "td" (Nat.toDigits 10 t.sequenceGaps) ++ tag "td" (Nat.toDigits 10 t.retransmits)))

/-- `to_html`; the sensors are the entries of the report's map. -/
def toHtml : Text :=
  startTag "!doctype html".toList ++ tag "html lang=\"en\"" (headHtml r ++
    tag "body" (tag "div class=\"wrap\"" (bannerHtml r ++ assertionsHtml r ++
      sensorsHtml sensors ++ transportHtml r.transport)))

end Html

/-- The part of the language that the pages use. -/
def html : Language where
  isVoid
    | '!' :: _ => true
    | ['m', 'e', 't', 'a'] => true
    | _ => false
  reference
    | ['a', 'm', 'p'] => some '&'
    | ['l', 't'] => some '<'
    | ['g', 't'] => some '>'
    | ['q', 'u', 'o', 't'] => some '"'
    | ['m', 'd', 'a', 's', 'h'] => some '—'
    | ['m', 'i', 'd', 'd', 'o', 't'] => some '·'
    | _ => none

section Page

variable (r : ScenarioReport) (sensors : List (String × SensorMetrics))

def el (t : String) (ns : List Node) : List Node := [.element t.toList ns]

def cell (t : Text) : List Node := el "td" (text t)

def headingNodes (s : String) : List Node := el "th" (text s.toList)

def headNodes : List Node :=
  el "head" ([Node.void "meta charset=\"utf-8\"".toList] ++
    [Node.void "meta name=\"viewport\" content=\"width=device-width,initial-scale=1\"".toList] ++
    el "title" (text "SensorForge report - ".toList ++ text r.scenario.toList) ++
    el "style" (text (style r.passed)))

def bannerNodes : List Node :=
  el "h1" (text "SensorForge Scenario Report".toList) ++
  el "div class=\"banner\"" (text r.scenario.toList ++ text [' '] ++ text ['—'] ++ text [' '] ++
    text (status r.passed)) ++
  el "p class=\"muted\"" (text r.timestamp.toList ++ text [' '] ++ text ['·'] ++
    text " duration ".toList ++ text (fmt r.durationSeconds) ++ text " s".toList)

def assertionNodes (a : AssertionReport) : List Node :=
  el "tr" (cell a.metric.toList ++ cell a.op.toList ++ cell (fmt a.threshold) ++
    cell (if a.found then fmt a.actual else ['—']) ++
    el (if a.passed then "td class=\"pass\"" else "td class=\"fail\"") (text (status a.passed)))

def tableNodes (title : String) (headings : List String) (rows : List Node) : List Node :=
  el "h2" (text title.toList) ++
    el "table" (el "tr" (headings.flatMap headingNodes) ++ rows)

def sensorNodes (maxP99 : ℚ) (name : String) (s : SensorMetrics) : List Node :=
  el "tr" (cell name.toList ++ cell (fmt s.msgsSec) ++ cell (fmt s.dropRatePct) ++
    cell (fmt s.latencyP50Ms) ++ cell (fmt s.latencyP99Ms) ++
    cell (Nat.toDigits 10 s.sequenceGaps) ++
    el "td" [.element (barTag (barWidth maxP99 s.latencyP99Ms)) []])

def transportNodes (t : TransportMetrics) : List Node :=
  el "tr" (cell (fmt t.bytesSec) ++ cell (Nat.toDigits 10 t.crcFailures) ++
    cell (Nat.toDigits 10 t.sequenceGaps) ++ cell (Nat.toDigits 10 t.retransmits))

/-- The tree that the page stands for. -/
def page : List Node :=
  [Node.void "!doctype html".toList] ++ el "html lang=\"en\"" (headNodes r ++
    el "body" (el "div class=\"wrap\"" (bannerNodes r ++
      tableNodes "Assertions" assertionHeadings (r.assertions.flatMap assertionNodes) ++
      tableNodes "Per-sensor metrics" sensorHeadings
        (sensors.flatMap fun s => sensorNodes (maxP99 sensors) s.1 s.2) ++
      tableNodes "Transport" transportHeadings (transportNodes r.transport))))

end Page

section Represents

variable {r : ScenarioReport} {sensors : List (String × SensorMetrics)} {s t : String} {l : Text}
  {inner : Text} {ns : List Node}

/-- A literal, by its characters. -/
theorem plain_literal (hs : s = String.ofList l)
    (h : l.all (fun c => c.toNat ≠ 60 && c.toNat ≠ 38) = true) :
    Represents html s.toList (text s.toList) := by
  rw [hs, String.toList_ofList]
  refine .plain fun c hc => ?_
  have hc := List.all_eq_true.mp h c hc
  constructor <;> (rintro rfl; exact absurd hc (by decide))

theorem reference_represents {c : Char} (hs : s = String.ofList l) (hname : ';' ∉ l)
    (hc : html.reference l = some c) : Represents html (referenceTo s.toList) [.char c] := by
  rw [hs, String.toList_ofList]
  exact .reference hname hc

theorem isTag_of_all (h : l.all (fun c => c.toNat ≠ 62) = true) (hhead : l.head? ≠ some '/') :
    IsTag l := by
  refine ⟨fun hmem => ?_, hhead⟩
  exact absurd (List.all_eq_true.mp h _ hmem) (by decide)

theorem void_represents (ht : t = String.ofList l) (h : l.all (fun c => c.toNat ≠ 62) = true)
    (hhead : l.head? ≠ some '/') (hvoid : html.isVoid (nameOf l) = true) :
    Represents html (startTag t.toList) [.void t.toList] := by
  rw [ht, String.toList_ofList]
  exact .void (isTag_of_all h hhead) hvoid

/-- The texts of tags that open an element. -/
def opens (l : Text) : Bool :=
  l.all (fun c => c.toNat ≠ 62) && l.head? != some '/' && !html.isVoid (nameOf l)

theorem tag_represents (ht : t = String.ofList l) (h : opens l = true)
    (hinner : Represents html inner ns) : Represents html (tag t inner) (el t ns) := by
  rw [opens, Bool.and_eq_true, Bool.and_eq_true] at h
  obtain ⟨⟨hall, hhead⟩, hvoid⟩ := h
  rw [tag, el, ht, String.toList_ofList]
  exact .tagged (isTag_of_all hall (bne_iff_ne.mp hhead)) (Bool.not_eq_true' _ ▸ hvoid) hinner

theorem escapeChar_represents (c : Char) : Represents html (escapeChar c) [.char c] := by
  unfold escapeChar
  split_ifs with hamp hlt hgt hquot
  · subst hamp
    exact reference_represents rfl (by decide) rfl
  · subst hlt
    exact reference_represents rfl (by decide) rfl
  · subst hgt
    exact reference_represents rfl (by decide) rfl
  · subst hquot
    exact reference_represents rfl (by decide) rfl
  · exact .char ⟨hlt, hamp⟩

theorem esc_represents (s : String) : Represents html (esc s) (text s.toList) :=
  .escaped fun c _ => escapeChar_represents c

theorem digit_ne {c : Char} (hc : PythonText.isAsciiDigit c = true) : c ≠ '<' ∧ c ≠ '&' := by
  constructor
  · rintro rfl
    exact absurd hc (by decide)
  · rintro rfl
    exact absurd hc (by decide)

theorem plain_digits (n : Nat) :
    Represents html (Nat.toDigits 10 n) (text (Nat.toDigits 10 n)) :=
  .plain fun c hc => digit_ne (toDigits_ascii n c hc)

theorem plain_fmt (v : ℚ) : Represents html (fmt v) (text (fmt v)) := by
  refine .plain fun c hc => ?_
  rcases fixedPoint_chars 3 v c hc with hdigit | rfl | rfl
  · exact digit_ne hdigit
  · decide
  · decide

theorem cell_represents {t : Text} (h : Represents html inner (text t)) :
    Represents html (tag "td" inner) (cell t) := tag_represents rfl rfl h

theorem status_represents (passed : Bool) :
    Represents html (status passed) (text (status passed)) := by
  cases passed
  · exact plain_literal rfl rfl
  · exact plain_literal rfl rfl

theorem color_represents (passed : Bool) :
    Represents html (color passed).toList (text (color passed).toList) := by
  cases passed
  · exact plain_literal rfl rfl
  · exact plain_literal rfl rfl

theorem rule_represents (hs : Represents html s.toList (text s.toList))
    (hl : Represents html l (text l)) : Represents html (rule s l) (text (rule s l)) := by
  have hopen : Represents html ['{'] (text ['{']) := .char (by decide)
  have hclose : Represents html ['}'] (text ['}']) := .char (by decide)
  exact .texts hs (.texts (.texts hopen hl) hclose)

theorem style_represents (passed : Bool) :
    Represents html (style passed) (text (style passed)) := by
  have hrule {s t : String} {k l : Text} (hs : s = String.ofList k) (ht : t = String.ofList l)
      (hk : k.all (fun c => c.toNat ≠ 60 && c.toNat ≠ 38) = true)
      (hl : l.all (fun c => c.toNat ≠ 60 && c.toNat ≠ 38) = true) :=
    rule_represents (plain_literal hs hk) (plain_literal ht hl)
  refine .texts (.texts (.texts (.texts (.texts (.texts (.texts (.texts (.texts (.texts (.texts
    ?_ (hrule rfl rfl rfl rfl)) ?_) (hrule rfl rfl rfl rfl)) (hrule rfl rfl rfl rfl))
    (hrule rfl rfl rfl rfl)) (hrule rfl rfl rfl rfl)) (hrule rfl rfl rfl rfl))
    (hrule rfl rfl rfl rfl)) (hrule rfl rfl rfl rfl)) (hrule rfl rfl rfl rfl))
    (hrule rfl rfl rfl rfl)
  · exact rule_represents (plain_literal rfl rfl)
      (.texts (plain_literal rfl rfl) (plain_literal rfl rfl))
  · exact rule_represents (plain_literal rfl rfl)
      (.texts (.texts (plain_literal rfl rfl) (plain_literal rfl rfl)) (color_represents passed))

theorem head_represents : Represents html (headHtml r) (headNodes r) := by
  refine tag_represents rfl rfl (.append (.append (.append ?_ ?_) (tag_represents rfl rfl ?_))
    (tag_represents rfl rfl ?_))
  · exact void_represents rfl rfl (by decide) rfl
  · exact void_represents rfl rfl (by decide) rfl
  · exact .append (plain_literal rfl rfl) (esc_represents r.scenario)
  · exact style_represents r.passed

theorem banner_represents : Represents html (bannerHtml r) (bannerNodes r) := by
  have hspace : Represents html [' '] (text [' ']) := .char (by decide)
  refine .append (.append (tag_represents rfl rfl ?_) (tag_represents rfl rfl ?_))
    (tag_represents rfl rfl ?_)
  · exact plain_literal rfl rfl
  · exact .append (.append (.append (.append (esc_represents r.scenario) hspace)
      (reference_represents rfl (by decide) rfl)) hspace) (status_represents r.passed)
  · exact .append (.append (.append (.append (.append (esc_represents r.timestamp) hspace)
      (reference_represents rfl (by decide) rfl)) (plain_literal rfl rfl))
      (plain_fmt r.durationSeconds)) (plain_literal rfl rfl)

theorem assertion_represents (a : AssertionReport) :
    Represents html (assertionHtml a) (assertionNodes a) := by
  refine tag_represents rfl rfl (.append (.append (.append (.append
    (cell_represents (esc_represents _)) (cell_represents (esc_represents _)))
    (cell_represents (plain_fmt _))) (cell_represents ?_)) ?_)
  · cases a.found with
    | true => exact plain_fmt a.actual
    | false => exact reference_represents rfl (by decide) rfl
  · cases a.passed with
    | true => exact tag_represents rfl rfl (status_represents true)
    | false => exact tag_represents rfl rfl (status_represents false)

/-- Literals that are texts. -/
def Plain (s : String) : Prop := Represents html s.toList (text s.toList)

theorem headings_represent {headings : List String} (h : ∀ s ∈ headings, Plain s) :
    Represents html (headings.flatMap heading) (headings.flatMap headingNodes) :=
  .flatMap fun s hs => tag_represents rfl rfl (h s hs)

theorem barTag_isTag (width : Int) :
    IsTag (barTag width) ∧ html.isVoid (nameOf (barTag width)) = false := by
  have hdigits : '>' ∉ intText width := by
    intro h
    rcases List.mem_append.mp h with h | h
    · split at h
      · exact absurd (List.mem_singleton.mp h) (by decide)
      · exact List.not_mem_nil h
    · exact absurd (toDigits_ascii _ _ h) (by decide)
  have hhead : (barTag width).head? = some 'd' := rfl
  refine ⟨⟨fun h => ?_, by rw [hhead]; decide⟩, rfl⟩
  rcases List.mem_append.mp h with h | h
  · rcases List.mem_append.mp h with h | h
    · exact absurd h (by decide)
    · exact hdigits h
  · exact absurd h (by decide)

theorem sensor_represents (maxP99 : ℚ) (name : String) (s : SensorMetrics) :
    Represents html (sensorHtml maxP99 name s) (sensorNodes maxP99 name s) := by
  have hbar := barTag_isTag (barWidth maxP99 s.latencyP99Ms)
  exact tag_represents rfl rfl (.append (.append (.append (.append (.append (.append
    (cell_represents (esc_represents _)) (cell_represents (plain_fmt _)))
    (cell_represents (plain_fmt _))) (cell_represents (plain_fmt _)))
    (cell_represents (plain_fmt _))) (cell_represents (plain_digits _)))
    (tag_represents rfl rfl (.tagged hbar.1 hbar.2 .nil)))

theorem table_represents {title : String} {headings : List String} {rows : Text}
    {nodes : List Node} (htitle : Plain title) (hheadings : ∀ s ∈ headings, Plain s)
    (h : Represents html rows nodes) :
    Represents html (tag "h2" title.toList ++
      tag "table" (tag "tr" (headings.flatMap heading) ++ rows))
      (tableNodes title headings nodes) :=
  .append (tag_represents rfl rfl htitle)
    (tag_represents rfl rfl (.append (tag_represents rfl rfl (headings_represent hheadings)) h))

theorem assertionHeadings_plain : ∀ s ∈ assertionHeadings, Plain s := by
  simp only [assertionHeadings, List.forall_mem_cons]
  exact ⟨plain_literal rfl rfl, plain_literal rfl rfl, plain_literal rfl rfl,
    plain_literal rfl rfl, plain_literal rfl rfl, fun _ h => absurd h List.not_mem_nil⟩

theorem sensorHeadings_plain : ∀ s ∈ sensorHeadings, Plain s := by
  simp only [sensorHeadings, List.forall_mem_cons]
  exact ⟨plain_literal rfl rfl, plain_literal rfl rfl, plain_literal rfl rfl,
    plain_literal rfl rfl, plain_literal rfl rfl, plain_literal rfl rfl,
    plain_literal rfl rfl, fun _ h => absurd h List.not_mem_nil⟩

theorem transportHeadings_plain : ∀ s ∈ transportHeadings, Plain s := by
  simp only [transportHeadings, List.forall_mem_cons]
  exact ⟨plain_literal rfl rfl, plain_literal rfl rfl, plain_literal rfl rfl,
    plain_literal rfl rfl, fun _ h => absurd h List.not_mem_nil⟩

theorem transport_represents (t : TransportMetrics) :
    Represents html (transportHtml t)
      (tableNodes "Transport" transportHeadings (transportNodes t)) :=
  table_represents (plain_literal rfl rfl) transportHeadings_plain
    (tag_represents rfl rfl (.append (.append (.append (cell_represents (plain_fmt _))
      (cell_represents (plain_digits _))) (cell_represents (plain_digits _)))
      (cell_represents (plain_digits _))))

/-- The page is read back as its tree, whatever the texts of the report hold. -/
theorem read_toHtml (r : ScenarioReport) (sensors : List (String × SensorMetrics)) :
    Markup.read html (toHtml r sensors) = some (page r sensors) := by
  refine Represents.read (.append (void_represents rfl rfl (by decide) rfl)
    (tag_represents rfl rfl (.append head_represents (tag_represents rfl rfl
      (tag_represents rfl rfl (.append (.append (.append banner_represents ?_) ?_)
        (transport_represents r.transport)))))))
  · exact table_represents (plain_literal rfl rfl) assertionHeadings_plain
      (.flatMap fun a _ => assertion_represents a)
  · exact table_represents (plain_literal rfl rfl) sensorHeadings_plain
      (.flatMap fun s _ => sensor_represents (maxP99 sensors) s.1 s.2)

end Represents

section Tables

variable {r : ScenarioReport} {sensors : List (String × SensorMetrics)}

/-- The cells of a row: its headings and its data. -/
def cells (row : List Node) : List Text :=
  (inside "th".toList row ++ inside "td".toList row).map content

/-- The rows of every table. -/
def tables (nodes : List Node) : List (List (List Text)) :=
  (inside "table".toList nodes).map fun table => (inside "tr".toList table).map cells

theorem inside_el (name t : String) (ns : List Node) : inside name.toList (el t ns) =
    if nameOf t.toList = name.toList then ns :: inside name.toList ns else inside name.toList ns :=
  inside_element _ _ ns

theorem inside_cell (name : String) (t : Text) : inside name.toList (cell t) =
    if "td".toList = name.toList then [text t] else [] := by
  rw [cell, inside_el, inside_text]
  rfl

theorem inside_bar (name : String) (width : Int) :
    inside name.toList [.element (barTag width) []] =
      if "div".toList = name.toList then [[]] else [] := by
  rw [inside_element]
  rfl

theorem inside_headings (name : String) (headings : List String) :
    inside name.toList (headings.flatMap headingNodes) =
      if "th".toList = name.toList then headings.map fun s => text s.toList else [] := by
  rw [inside_flatMap]
  have hone : ∀ s, inside name.toList (headingNodes s) =
      if "th".toList = name.toList then [text s.toList] else [] := by
    intro s
    rw [headingNodes, inside_el, inside_text]
    rfl
  simp only [hone]
  split
  · rw [List.map_eq_flatMap]
  · simp

def assertionCells (a : AssertionReport) : List Text :=
  [a.metric.toList, a.op.toList, fmt a.threshold, if a.found then fmt a.actual else ['—'],
    status a.passed]

def sensorCells (name : String) (s : SensorMetrics) : List Text :=
  [name.toList, fmt s.msgsSec, fmt s.dropRatePct, fmt s.latencyP50Ms, fmt s.latencyP99Ms,
    Nat.toDigits 10 s.sequenceGaps, []]

def transportCells (t : TransportMetrics) : List Text :=
  [fmt t.bytesSec, Nat.toDigits 10 t.crcFailures, Nat.toDigits 10 t.sequenceGaps,
    Nat.toDigits 10 t.retransmits]

/-- A row without a table in it, and its cells. -/
structure IsRow (nodes : List Node) (row : List Text) : Prop where
  rows : (inside "tr".toList nodes).map cells = [row]
  tables : inside "table".toList nodes = []

/-- A row that holds nothing but data, which may hold bars. -/
theorem isRow_el {inner : List Node} {data bars : List (List Node)}
    (h : ∀ name : String, inside name.toList inner = if "td".toList = name.toList then data
      else if "div".toList = name.toList then bars else []) :
    IsRow (el "tr" inner) (data.map content) := by
  have htr := h "tr"
  have htable := h "table"
  have hth := h "th"
  have htd := h "td"
  rw [if_neg (by decide), if_neg (by decide)] at htr htable hth
  rw [if_pos rfl] at htd
  constructor
  · rw [inside_el, if_pos (by decide), htr, List.map_singleton, cells, hth, htd, List.nil_append]
  · rw [inside_el, if_neg (by decide), htable]

theorem map_content_text (ts : List Text) : (ts.map text).map content = ts := by
  rw [List.map_map]
  exact (List.map_congr_left fun t _ => content_text t).trans (List.map_id ts)

theorem assertion_isRow (a : AssertionReport) : IsRow (assertionNodes a) (assertionCells a) := by
  have hresult : ∀ name : String, inside name.toList (el
      (if a.passed then "td class=\"pass\"" else "td class=\"fail\"") (text (status a.passed))) =
      if "td".toList = name.toList then [text (status a.passed)] else [] := by
    intro name
    rw [inside_el, inside_text]
    cases a.passed <;> rfl
  rw [← map_content_text (assertionCells a)]
  refine @isRow_el _ _ [] fun name => ?_
  simp only [inside_append, inside_cell, hresult, ite_self]
  split <;> rfl

theorem sensor_isRow (maxP99 : ℚ) (name : String) (s : SensorMetrics) :
    IsRow (sensorNodes maxP99 name s) (sensorCells name s) := by
  have hbar : ∀ n : String, inside n.toList
      (el "td" [.element (barTag (barWidth maxP99 s.latencyP99Ms)) []]) =
      if "td".toList = n.toList then [[.element (barTag (barWidth maxP99 s.latencyP99Ms)) []]]
      else if "div".toList = n.toList then [[]] else [] := by
    intro n
    have hname : nameOf "td".toList = "td".toList := by decide
    rw [inside_el, inside_bar, hname]
    split
    · next h => rw [← h, if_neg (by decide)]
    · rfl
  have hdata : sensorCells name s = (([name.toList, fmt s.msgsSec, fmt s.dropRatePct,
      fmt s.latencyP50Ms, fmt s.latencyP99Ms, Nat.toDigits 10 s.sequenceGaps].map text) ++
      [[Node.element (barTag (barWidth maxP99 s.latencyP99Ms)) []]]).map content := by
    rw [List.map_append, map_content_text]
    rfl
  rw [hdata]
  refine @isRow_el _ _ [[]] fun n => ?_
  simp only [inside_append, inside_cell, hbar]
  split
  · rfl
  · rfl

theorem transport_isRow (t : TransportMetrics) : IsRow (transportNodes t) (transportCells t) := by
  rw [← map_content_text (transportCells t)]
  refine @isRow_el _ _ [] fun name => ?_
  simp only [inside_append, inside_cell, ite_self]
  split <;> rfl

theorem tables_append (ns ms : List Node) : tables (ns ++ ms) = tables ns ++ tables ms := by
  rw [tables, inside_append, List.map_append, ← tables, ← tables]

theorem tables_none {ns : List Node} (h : inside "table".toList ns = []) : tables ns = [] := by
  rw [tables, h, List.map_nil]

theorem headings_isRow (headings : List String) :
    (inside "tr".toList (el "tr" (headings.flatMap headingNodes))).map cells =
        [headings.map String.toList] ∧
      inside "table".toList (el "tr" (headings.flatMap headingNodes)) = [] := by
  have hinner := fun name => inside_headings name headings
  have htr := hinner "tr"
  have htable := hinner "table"
  have hth := hinner "th"
  have htd := hinner "td"
  rw [if_neg (by decide)] at htr htable htd
  rw [if_pos rfl] at hth
  constructor
  · rw [inside_el, if_pos (by decide), htr, List.map_singleton, cells, hth, htd, List.append_nil,
      List.map_map]
    exact congrArg ([·]) (List.map_congr_left fun s _ => content_text s.toList)
  · rw [inside_el, if_neg (by decide), htable]

/-- The rows of a table, behind its headings. -/
theorem tables_tableNodes {α : Type*} {title : String} {headings : List String} {as : List α}
    {nodes : α → List Node} {row : α → List Text} (h : ∀ a ∈ as, IsRow (nodes a) (row a)) :
    tables (tableNodes title headings (as.flatMap nodes)) =
      [headings.map String.toList :: as.map row] := by
  obtain ⟨hheadings, hnone⟩ := headings_isRow headings
  have hrows : (inside "tr".toList (as.flatMap nodes)).map cells = as.map row := by
    rw [inside_flatMap, List.map_flatMap, List.map_eq_flatMap]
    exact List.flatMap_congr fun a ha => (h a ha).rows
  have htables : inside "table".toList (as.flatMap nodes) = [] := by
    rw [inside_flatMap, List.flatMap_eq_nil_iff]
    exact fun a ha => (h a ha).tables
  have htitle : tables (el "h2" (text title.toList)) = [] := by
    refine tables_none ?_
    rw [inside_el, if_neg (by decide), inside_text]
  rw [tableNodes, tables_append, htitle, List.nil_append, tables, inside_el, if_pos (by decide),
    inside_append, hnone, htables, List.append_nil, List.map_singleton, inside_append,
    List.map_append, hheadings, hrows]
  rfl

theorem tables_el {t : String} (ht : nameOf t.toList ≠ "table".toList) (ns : List Node) :
    tables (el t ns) = tables ns := by
  rw [tables, inside_el, if_neg ht, ← tables]

theorem tables_text (t : Text) : tables (text t) = [] := tables_none (inside_text _ t)

theorem tables_head : tables (headNodes r) = [] := by
  simp only [headNodes]
  rw [tables_el (by decide), tables_append, tables_append, tables_append, tables_el (by decide),
    tables_el (by decide), tables_append, tables_text, tables_text, tables_text]
  rfl

theorem tables_banner : tables (bannerNodes r) = [] := by
  rw [bannerNodes, tables_append, tables_append, tables_el (by decide), tables_el (by decide),
    tables_el (by decide)]
  simp only [tables_append, tables_text, List.append_nil]

/-- The tables of the page have the fields of the report as their cells, and no others. -/
theorem tables_page (r : ScenarioReport) (sensors : List (String × SensorMetrics)) :
    tables (page r sensors) =
      [assertionHeadings.map String.toList :: r.assertions.map assertionCells,
        sensorHeadings.map String.toList :: sensors.map fun s => sensorCells s.1 s.2,
        [transportHeadings.map String.toList, transportCells r.transport]] := by
  have hassertions := @tables_tableNodes _ "Assertions" assertionHeadings r.assertions _ _
    fun a _ => assertion_isRow a
  have hsensors := @tables_tableNodes _ "Per-sensor metrics" sensorHeadings sensors _ _
    fun s _ => sensor_isRow (maxP99 sensors) s.1 s.2
  have htransport := @tables_tableNodes _ "Transport" transportHeadings [r.transport] _ _
    fun t _ => transport_isRow t
  rw [List.flatMap_singleton] at htransport
  rw [page, tables_append, tables_el (by decide), tables_append, tables_head, tables_el (by decide),
    tables_el (by decide), tables_append, tables_append, tables_append, tables_banner, hassertions,
    hsensors, htransport]
  rfl

end Tables

section Runs

variable {ms : List (StreamMetrics ℚ)} {metrics : MetricMap}

/-- What the banner says, which is the second `div`, in the one around the page. -/
def bannerOf (nodes : List Node) : Option Text := ((inside "div".toList nodes)[1]?).map content

theorem bannerOf_page (r : ScenarioReport) (sensors : List (String × SensorMetrics)) :
    bannerOf (page r sensors) = some (r.scenario.toList ++ " — ".toList ++ status r.passed) := by
  have hhead : inside "div".toList (headNodes r) = [] := by
    simp only [headNodes]
    rw [inside_el, if_neg (by decide), inside_append, inside_append, inside_append, inside_el,
      if_neg (by decide), inside_el, if_neg (by decide), inside_append, inside_text, inside_text,
      inside_text]
    rfl
  have hbanner : inside "div".toList (bannerNodes r) = [text r.scenario.toList ++ text [' '] ++
      text ['—'] ++ text [' '] ++ text (status r.passed)] := by
    rw [bannerNodes, inside_append, inside_append, inside_el, if_neg (by decide), inside_el,
      if_pos (by decide), inside_el, if_neg (by decide)]
    simp only [inside_append, inside_text, List.append_nil, List.nil_append]
  have hvoid : inside "div".toList [.void "!doctype html".toList] = [] := rfl
  rw [bannerOf, page, inside_append, hvoid, inside_el, if_neg (by decide), inside_append, hhead,
    inside_el, if_neg (by decide), inside_el, if_pos (by decide), inside_append, inside_append,
    inside_append, hbanner]
  simp only [List.nil_append, List.cons_append, List.getElem?_cons_succ, List.getElem?_cons_zero,
    Option.map_some, content_append, content_text, List.append_assoc]
  rfl

theorem evaluateAll_eq (name : String) (assertions : List (Assertion ℚ)) (metrics : MetricMap) :
    evaluateAll name assertions metrics =
      { scenarioName := name
        passed := assertions.all fun a => (evaluate a metrics).passed
        assertions := assertions.map fun a => evaluate a metrics } := by
  rw [evaluateAll]
  induction assertions using List.reverseRecOn with
  | nil => rfl
  | append_singleton assertions a ih =>
    rw [List.foldl_append, ih]
    cases h : (evaluate a metrics).passed <;> simp [h]

/-- The cells of an assertion, from the metrics it is about. -/
def verdictCells (metrics : MetricMap) (a : Assertion ℚ) : List Text :=
  [a.metric.toList, a.op.toString.toList, fmt a.value, (metrics a.metric).elim ['—'] fmt,
    status (evaluate a metrics).passed]

theorem assertionCells_evaluate (a : Assertion ℚ) (metrics : MetricMap) :
    assertionCells (evaluate a metrics).report = verdictCells metrics a := by
  rw [verdictCells, assertionCells, AssertionResult.report, evaluate]
  cases metrics a.metric <;> rfl

/-- The streams in the order of their names. -/
def inOrderOfName (ms : List (StreamMetrics ℚ)) : List (StreamMetrics ℚ) :=
  ms.mergeSort fun a b => decide (a.name ≤ b.name)

theorem inOrderOfName_perm (ms : List (StreamMetrics ℚ)) : (inOrderOfName ms).Perm ms :=
  List.mergeSort_perm _ _

theorem inOrderOfName_names (ms : List (StreamMetrics ℚ)) :
    (inOrderOfName ms).map StreamMetrics.name = sorted (ms.map StreamMetrics.name) := by
  have hpairwise : ((inOrderOfName ms).map StreamMetrics.name).Pairwise fun a b =>
      decide (a ≤ b) = true := by
    rw [List.pairwise_map]
    exact List.pairwise_mergeSort (fun a b c hab hbc => by
      rw [decide_eq_true_eq] at hab hbc ⊢
      exact hab.trans hbc) (fun a b => by
      rw [Bool.or_eq_true, decide_eq_true_eq, decide_eq_true_eq]
      exact le_total a.name b.name) ms
  rw [← sorted_congr ((inOrderOfName_perm ms).map StreamMetrics.name), sorted,
    List.mergeSort_of_pairwise hpairwise]

theorem inOrderOfName_increasing (hnames : (ms.map StreamMetrics.name).Nodup) :
    (inOrderOfName ms).Pairwise fun a b => a.name < b.name := by
  have hle := sorted_pairwise (ms.map StreamMetrics.name)
  have hne := (sorted_perm (ms.map StreamMetrics.name)).nodup_iff.mpr hnames
  rw [← inOrderOfName_names] at hle hne
  exact ((List.pairwise_map.mp hle).and (List.pairwise_map.mp hne)).imp fun h =>
    lt_of_le_of_ne h.1 h.2

theorem entries_reportOf (now : String) (result : ScenarioResult) (d : ℚ)
    (hnames : (ms.map StreamMetrics.name).Nodup) :
    (reportOf now result d ms).entries (ms.map StreamMetrics.name) =
      (inOrderOfName ms).map fun m => (m.name, m.sensor) := by
  rw [ScenarioReport.entries, hnames.dedup, ← inOrderOfName_names, List.filterMap_map,
    ← List.filterMap_eq_map]
  refine List.filterMap_congr fun m hm => ?_
  rw [Function.comp_apply, reportOf_perSensor now result d hnames
    ((inOrderOfName_perm ms).mem_iff.mp hm)]
  rfl

/-- The report of `finish`. -/
def runReport (now name : String) (durationSeconds : ℚ) (assertions : List (Assertion ℚ))
    (ms : List (StreamMetrics ℚ)) : ScenarioReport :=
  reportOf now (evaluateAll name assertions (emitAll ms)) durationSeconds ms

/-- The page of a run, read as markup: the elements of `page` with one row for each assertion and
each stream, and so its banner and its tables. The scenario, the streams and the metrics can have
any names, but no two streams the same. -/
theorem page_of_run (now name : String) (durationSeconds : ℚ) (assertions : List (Assertion ℚ))
    (hnames : (ms.map StreamMetrics.name).Nodup) :
    ∃ (nodes : List Node) (rows : List (StreamMetrics ℚ)),
      Markup.read html (toHtml (runReport now name durationSeconds assertions ms)
        ((runReport now name durationSeconds assertions ms).entries
          (ms.map StreamMetrics.name))) = some nodes ∧
      nodes = page (runReport now name durationSeconds assertions ms)
        (rows.map fun m => (m.name, m.sensor)) ∧
      rows.Perm ms ∧ rows.Pairwise (fun a b => a.name < b.name) ∧
      bannerOf nodes = some (name.toList ++ " — ".toList ++
        status (assertions.all fun a => (evaluate a (emitAll ms)).passed)) ∧
      tables nodes =
        [assertionHeadings.map String.toList :: assertions.map (verdictCells (emitAll ms)),
          sensorHeadings.map String.toList :: rows.map fun m => sensorCells m.name m.sensor,
          [transportHeadings.map String.toList, transportCells
            { sequenceGaps := ⌊metricOr (emitAll ms) "transport_sequence_gaps"⌋₊ }]] := by
  have hresult := evaluateAll_eq name assertions (emitAll ms)
  have hscenario : (runReport now name durationSeconds assertions ms).scenario = name :=
    congrArg ScenarioResult.scenarioName hresult
  have hpassed : (runReport now name durationSeconds assertions ms).passed =
      assertions.all fun a => (evaluate a (emitAll ms)).passed :=
    congrArg ScenarioResult.passed hresult
  have hreports : (runReport now name durationSeconds assertions ms).assertions =
      (assertions.map fun a => evaluate a (emitAll ms)).map AssertionResult.report :=
    congrArg (fun result => result.assertions.map AssertionResult.report) hresult
  have hassertions : (runReport now name durationSeconds assertions ms).assertions.map
      assertionCells = assertions.map (verdictCells (emitAll ms)) := by
    rw [hreports, List.map_map, List.map_map]
    exact List.map_congr_left fun a _ => assertionCells_evaluate a (emitAll ms)
  have hentries : (runReport now name durationSeconds assertions ms).entries
      (ms.map StreamMetrics.name) = (inOrderOfName ms).map fun m => (m.name, m.sensor) :=
    entries_reportOf now _ durationSeconds hnames
  rw [hentries]
  refine ⟨_, inOrderOfName ms, read_toHtml _ _, rfl, inOrderOfName_perm ms,
    inOrderOfName_increasing hnames, ?_, ?_⟩
  · rw [bannerOf_page, hscenario, hpassed]
  · rw [tables_page, hassertions, runReport, List.map_map, reportOf_transport]
    rfl

/-- Two streams, one of which is called like a tag. -/
def taggedStreams : List (StreamMetrics ℚ) :=
  [{ name := "imu", expectedRateHz := 100, durationSeconds := 10 },
    { name := "</td><td>", expectedRateHz := 0, durationSeconds := 10 }]

/-- An assertion on a metric that there is not. -/
def taggedAssertion : Assertion ℚ :=
  { metric := "<b>", op := .kEquals, value := 1, windowSeconds := none }

theorem page_of_run_tagged :
    ∃ nodes, Markup.read html (toHtml (runReport "" "a&amp;b" 10 [taggedAssertion] taggedStreams)
        ((runReport "" "a&amp;b" 10 [taggedAssertion] taggedStreams).entries
          (taggedStreams.map StreamMetrics.name))) = some nodes ∧
      bannerOf nodes = some "a&amp;b — FAIL".toList ∧
      (tables nodes).head? = some [assertionHeadings.map String.toList,
        ["<b>".toList, "equals".toList, fmt 1, "—".toList, "FAIL".toList]] := by
  have hnames : (taggedStreams.map StreamMetrics.name).Nodup := by decide
  have hmissing : emitAll taggedStreams "<b>" = none :=
    Option.isNone_iff_eq_none.mp (by decide +kernel)
  have hfailed : (evaluate taggedAssertion (emitAll taggedStreams)).passed = false := by
    rw [evaluate, show taggedAssertion.metric = "<b>" from rfl, hmissing]
  obtain ⟨nodes, _, hread, _, _, _, hbanner, htables⟩ :=
    page_of_run "" "a&amp;b" 10 [taggedAssertion] hnames
  refine ⟨nodes, hread, ?_, ?_⟩
  · rw [hbanner, List.all_cons, hfailed]
    rfl
  · rw [htables, List.head?_cons, List.map_singleton, verdictCells, hfailed,
      show taggedAssertion.metric = "<b>" from rfl, hmissing]
    rfl

end Runs

end SensorForge.Scenarios
