import SensorForge.Exposition
import SensorForge.HttpResponse
import SensorForge.SignificantDigits

/-! The exporter's answers: the path that it finds in what it has received of a request, and
the registry as it renders numbers that need not be whole. -/

namespace SensorForge.Metrics

open GeneralFormat Http PythonText

def seriesLine (name : Text) (s : Series ℚ) : Text :=
  name ++ renderLabels s.labels ++ ' ' :: formatRat s.value

def Family.lines (name : Text) (fam : Family ℚ) : List Text :=
  (if fam.help = [] then [] else [helpLine name fam.help]) ++
    typeLine name fam.type :: fam.series.toList.map fun s => seriesLine name s.2

def Registry.lines (r : Registry ℚ) : List Text :=
  r.families.toList.flatMap fun fam => fam.2.lines fam.1

/-- `render` -/
def Registry.renderRat (r : Registry ℚ) : Text := r.lines.flatMap fun line => line ++ ['\n']

def Registry.cast (r : Registry) : Registry ℚ :=
  ⟨r.families.map fun _ fam =>
    { fam with series := fam.series.map fun _ s => ⟨s.labels, (s.value : ℚ)⟩ }⟩

/-- Whole numbers are rendered as before. -/
theorem renderRat_cast (r : Registry) : r.cast.renderRat = r.render := by
  rw [Registry.renderRat, Registry.lines, Registry.cast, Std.TreeMap.toList_map, List.flatMap_map,
    List.flatMap_assoc, Registry.render]
  refine List.flatMap_congr fun fam _ => ?_
  have hseries : ∀ s : Series, seriesLine fam.1 ⟨s.labels, (s.value : ℚ)⟩ =
      renderSeries fam.1 s := by
    intro s
    rw [seriesLine, renderSeries, formatRat_intCast]
  rw [Family.lines, Family.render, Std.TreeMap.toList_map, List.map_map, List.flatMap_append,
    List.flatMap_cons, List.flatMap_map]
  simp only [hseries, Function.comp_apply]
  split <;> simp

def utf8 (t : Text) : Octets := t.flatMap String.utf8EncodeChar

/-- What stands between the first two spaces of what `recv` has left in the buffer. -/
def requestPath (received : Octets) : Octets :=
  let buf := received.takeWhile (· ≠ 0)
  match buf.dropWhile (· ≠ 0x20) with
  | [] => utf8 "/".toList
  | _ :: rest => if 0x20 ∈ rest then rest.takeWhile (· ≠ 0x20) else utf8 "/".toList

def contentTypeName : Octets := utf8 "Content-Type".toList

def response (status ctype : Octets) (body : Octets) : Response where
  status
  headers := [(contentTypeName, ctype), (contentLengthName, decimal body.length),
    (utf8 "Connection".toList, utf8 "close".toList)]
  body

/-- One turn of `serve_loop` for a client. -/
def answer (r : Registry ℚ) (received : Octets) : Response :=
  let path := requestPath received
  if path = utf8 "/metrics".toList ∨ path = utf8 "/".toList then
    response (utf8 "200 OK".toList) (utf8 "text/plain; version=0.0.4; charset=utf-8".toList)
      (utf8 r.renderRat)
  else
    response (utf8 "404 Not Found".toList) (utf8 "text/plain".toList) (utf8 "not found\n".toList)

theorem decimal_digit {n : Nat} : ∀ b ∈ decimal n, 0x30 ≤ b := by
  intro b hb
  obtain ⟨c, hc, rfl⟩ := List.mem_map.mp hb
  have hdigit := Nat.isDigit_of_mem_toDigits (by decide) (by decide) hc
  simp only [Char.isDigit, Bool.and_eq_true, decide_eq_true_eq] at hdigit
  have hlo := UInt32.le_iff_toNat_le.mp hdigit.1
  have hhi := UInt32.le_iff_toNat_le.mp hdigit.2
  have hlo : 48 ≤ c.toNat := hlo
  have hhi : c.toNat ≤ 57 := hhi
  rw [UInt8.le_iff_toNat_le]
  simp
  omega

theorem response_proper {status ctype : Octets} (hstatus : 13 ∉ status)
    (hctype : ctype.head? ≠ some 0x20 ∧ 13 ∉ ctype) (body : Octets) :
    (response status ctype body).Proper := by
  have hdigits := @decimal_digit body.length
  have hspace : (decimal body.length).head? ≠ some 0x20 := by
    intro h
    exact absurd (hdigits _ (List.mem_of_head? h)) (by decide)
  have hcr : 13 ∉ decimal body.length := fun h => absurd (hdigits 13 h) (by decide)
  refine ⟨hstatus, ?_, ?_, ?_⟩
  · simp only [response, List.forall_mem_cons]
    exact ⟨by decide, by decide, by decide, fun _ h => absurd h List.not_mem_nil⟩
  · simp only [response, List.forall_mem_cons]
    exact ⟨hctype, ⟨hspace, hcr⟩, by decide, fun _ h => absurd h List.not_mem_nil⟩
  · have hname : contentTypeName ≠ contentLengthName := by decide
    simp [contentLength, response, hname, ofDecimal_decimal]

theorem response_contentType (status ctype body : Octets) :
    (response status ctype body).headers.filter (·.1 = contentTypeName) =
      [(contentTypeName, ctype)] := by
  have hlength : contentLengthName ≠ contentTypeName := by decide
  have hconnection : utf8 "Connection".toList ≠ contentTypeName := by decide
  simp only [response, List.filter_cons, List.filter_nil, decide_true, if_true,
    decide_eq_true_eq, if_neg hlength, if_neg hconnection]

section Request

variable {method target : Octets}

/-- Neither of the two bytes at which the exporter stops reading. -/
def Word (bs : Octets) : Prop := ∀ b ∈ bs, b ≠ 0x20 ∧ b ≠ 0

theorem Word.takeWhile_append (h : Word target) (rest : Octets) :
    (target ++ rest).takeWhile (· ≠ 0) = target ++ rest.takeWhile (· ≠ 0) :=
  List.takeWhile_append_of_pos fun b hb => decide_eq_true (h b hb).2

theorem Word.dropWhile_append (h : Word target) (rest : Octets) :
    (target ++ rest).dropWhile (· ≠ 0x20) = rest.dropWhile (· ≠ 0x20) :=
  List.dropWhile_append_of_pos fun b hb => decide_eq_true (h b hb).1

theorem Word.take (h : Word target) (n : Nat) : Word (target.take n) :=
  fun b hb => h b (List.mem_of_mem_take hb)

theorem requestPath_whole (hmethod : Word method) (htarget : Word target) (rest : Octets) :
    requestPath (method ++ 0x20 :: (target ++ 0x20 :: rest)) = target := by
  have hbuf : (method ++ 0x20 :: (target ++ 0x20 :: rest)).takeWhile (· ≠ 0) =
      method ++ 0x20 :: (target ++ 0x20 :: rest.takeWhile (· ≠ 0)) := by
    rw [hmethod.takeWhile_append, List.takeWhile_cons_of_pos (by decide),
      htarget.takeWhile_append, List.takeWhile_cons_of_pos (by decide)]
  have htarget : ∀ b ∈ target, decide (b ≠ 0x20) = true :=
    fun b hb => decide_eq_true (htarget b hb).1
  rw [requestPath, hbuf, hmethod.dropWhile_append, List.dropWhile_cons_of_neg (by decide)]
  dsimp only
  rw [if_pos (by simp), List.takeWhile_append_of_pos htarget,
    List.takeWhile_cons_of_neg (by decide), List.append_nil]

theorem requestPath_method (hmethod : Word method) :
    requestPath method = utf8 "/".toList := by
  have hbuf := hmethod.takeWhile_append []
  have hdrop := hmethod.dropWhile_append []
  rw [List.append_nil, List.takeWhile_nil, List.append_nil] at hbuf
  rw [List.append_nil, List.dropWhile_nil] at hdrop
  rw [requestPath, hbuf, hdrop]

theorem requestPath_target (hmethod : Word method) (htarget : Word target) :
    requestPath (method ++ 0x20 :: target) = utf8 "/".toList := by
  have hbuf := htarget.takeWhile_append []
  rw [List.append_nil, List.takeWhile_nil, List.append_nil] at hbuf
  have hspace : 0x20 ∉ target := fun h => (htarget _ h).1 rfl
  rw [requestPath, hmethod.takeWhile_append, List.takeWhile_cons_of_pos (by decide), hbuf,
    hmethod.dropWhile_append, List.dropWhile_cons_of_neg (by decide)]
  exact if_neg hspace

/-- A request of which only the first `n` bytes have arrived. The target counts once the space
behind it has. -/
theorem requestPath_take (hmethod : Word method) (htarget : Word target) (rest : Octets) (n : Nat) :
    requestPath ((method ++ 0x20 :: (target ++ 0x20 :: rest)).take n) =
      if method.length + target.length + 2 ≤ n then target else utf8 "/".toList := by
  rcases Nat.lt_or_ge method.length n with hlt | hge
  · obtain ⟨k, rfl⟩ := Nat.exists_eq_add_of_lt hlt
    rw [List.take_append, List.take_of_length_le (by omega), Nat.add_assoc, Nat.add_sub_cancel_left,
      List.take_succ_cons]
    split
    · next h =>
      obtain ⟨j, rfl⟩ := Nat.exists_eq_add_of_le (by omega : target.length + 1 ≤ k)
      rw [List.take_append, List.take_of_length_le (by omega), Nat.add_assoc target.length,
        Nat.add_sub_cancel_left, Nat.add_comm 1 j, List.take_succ_cons]
      exact requestPath_whole hmethod htarget _
    · next h =>
      rw [List.take_append_of_le_length (by omega)]
      exact requestPath_target hmethod (htarget.take k)
  · rw [List.take_append_of_le_length hge, if_neg (by omega)]
    exact requestPath_method (hmethod.take n)

end Request

end SensorForge.Metrics

namespace SensorForge.Dashboard

open GeneralFormat Metrics PythonText

variable {U : Unicode}

/-- Every name is one of a metric, and nothing in the registry ends a line or a label group. -/
structure Plain (r : Registry ℚ) : Prop where
  names : ∀ fam ∈ r.families.toList, MetricName fam.1
  help : ∀ fam ∈ r.families.toList, ∀ c ∈ fam.2.help, isLineBreak c = false
  labels : ∀ s ∈ r.series, ValidLabels s.2.labels ∧ Contained s.2.labels

/-- What is read of a series: its value to six digits, as the nearest double. -/
def shownSeries (s : Text × Series ℚ) : Sample :=
  ⟨s.1, readLabels s.2.labels, nearest (roundedRat s.2.value)⟩

theorem parse_lines {lines : List Text} (h : ∀ line ∈ lines, ∀ c ∈ line, isLineBreak c = false) :
    parseExposition U (lines.flatMap fun line => line ++ ['\n']) = lines.filterMap (parseLine U) := by
  induction lines with
  | nil => rfl
  | cons line lines ih =>
    obtain ⟨hline, hlines⟩ := List.forall_mem_cons.mp h
    rw [List.flatMap_cons, List.append_assoc, List.singleton_append, parse_newline,
      parse_oneLine hline, ih hlines, List.filterMap_cons]
    cases parseLine U line <;> rfl

theorem seriesLine_noBreak {name : Text} {s : Series ℚ} (hname : MetricName name)
    (hnames : ValidLabels s.labels) (h : Contained s.labels) :
    ∀ c ∈ seriesLine name s, isLineBreak c = false :=
  List.forall_mem_append.mpr ⟨List.forall_mem_append.mpr
    ⟨name_noBreak hname, renderLabels_noBreak hnames h⟩, List.forall_mem_cons.mpr
      ⟨by decide, fun c hc => (numeral_plain (formatRat_chars s.value c hc)).2⟩⟩

theorem parse_seriesLine {name : Text} {s : Series ℚ} (hname : MetricName name)
    (hnames : ValidLabels s.labels) (h : Contained s.labels) :
    parseLine U (seriesLine name s) = some (shownSeries (name, s)) := by
  obtain ⟨group, hgroup, hlabels⟩ := renderLabels_group (U := U) hnames h
  obtain ⟨c, cs, hcs⟩ := List.exists_cons_of_ne_nil (formatRat_ne_nil s.value)
  have hnumeral : ∀ d ∈ formatRat s.value, isSpace d = false :=
    fun d hd => (numeral_plain (formatRat_chars s.value d hd)).1
  have hstrip : strip (seriesLine name s) = seriesLine name s := by
    refine strip_eq_self (fun d hd => ?_) (fun d hd => ?_)
    · obtain ⟨e, es, rfl, he, -⟩ := hname
      rw [← Option.some.inj hd]
      exact nameChar_notSpace (nameStart_nameChar he)
    · rw [seriesLine, List.getLast?_append_of_ne_nil _ (List.cons_ne_nil _ _),
        List.getLast?_cons_of_ne_nil (formatRat_ne_nil s.value)] at hd
      exact hnumeral d (List.mem_of_getLast? hd)
  have hm : sampleRe.first (strip (seriesLine name s)) =
      some ((name, group, formatRat s.value), []) := by
    rw [hstrip, seriesLine, List.append_assoc, hcs]
    refine first_sampleRe hname hgroup (List.cons_ne_nil ' ' [])
      (List.forall_mem_singleton.mpr (by decide))
      (hnumeral c (by rw [hcs]; exact List.mem_cons_self)) ?_
    rintro d hd rfl
    rw [← hcs] at hd
    exact absurd (hnumeral _ hd) (by decide)
  have htoken := firstToken_append hnumeral (formatRat_ne_nil s.value) [] (by rintro _ ⟨⟩)
  rw [List.append_nil] at htoken
  rw [parseLine_of_match hm, htoken, float_formatRat, hlabels]
  rfl

theorem typeLine_noBreak {name : Text} (hname : MetricName name) (type : Option MetricType) :
    ∀ c ∈ typeLine name type, isLineBreak c = false := by
  have hmark : ∀ c ∈ ['#', ' ', 'T', 'Y', 'P', 'E', ' '], isLineBreak c = false := by
    simp [isLineBreak]
  have htype : ∀ c ∈ (type.getD .gauge).text, isLineBreak c = false := by
    cases type.getD .gauge <;> simp [MetricType.text, isLineBreak]
  exact List.forall_mem_append.mpr ⟨List.forall_mem_append.mpr ⟨hmark, name_noBreak hname⟩,
    List.forall_mem_cons.mpr ⟨by decide, htype⟩⟩

theorem helpLine_noBreak {name help : Text} (hname : MetricName name)
    (hhelp : ∀ c ∈ help, isLineBreak c = false) :
    ∀ c ∈ helpLine name help, isLineBreak c = false := by
  have hmark : ∀ c ∈ ['#', ' ', 'H', 'E', 'L', 'P', ' '], isLineBreak c = false := by
    simp [isLineBreak]
  exact List.forall_mem_append.mpr ⟨List.forall_mem_append.mpr ⟨hmark, name_noBreak hname⟩,
    List.forall_mem_cons.mpr ⟨by decide, hhelp⟩⟩

/-- One sample for every series, in their order. -/
theorem parse_renderRat {r : Registry ℚ} (h : Plain r) :
    parseExposition U r.renderRat = r.series.map shownSeries := by
  have hmem : ∀ fam ∈ r.families.toList, ∀ s ∈ fam.2.series.toList, (fam.1, s.2) ∈ r.series :=
    fun fam hfam s hs => mem_series.mpr ⟨fam, hfam, s, hs, rfl⟩
  have hlines : ∀ line ∈ r.lines, ∀ c ∈ line, isLineBreak c = false := by
    intro line hline
    obtain ⟨fam, hfam, hline⟩ := List.mem_flatMap.mp hline
    rcases List.mem_append.mp hline with hline | hline
    · split at hline
      · cases hline
      · rw [List.mem_singleton.mp hline]
        exact helpLine_noBreak (h.names fam hfam) (h.help fam hfam)
    · rcases List.mem_cons.mp hline with rfl | hline
      · exact typeLine_noBreak (h.names fam hfam) fam.2.type
      · obtain ⟨s, hs, rfl⟩ := List.mem_map.mp hline
        obtain ⟨hnames, hcontained⟩ := h.labels _ (hmem fam hfam s hs)
        exact seriesLine_noBreak (h.names fam hfam) hnames hcontained
  have hfamily : ∀ fam ∈ r.families.toList, (fam.2.lines fam.1).filterMap (parseLine U) =
      fam.2.series.toList.map fun s => shownSeries (fam.1, s.2) := by
    intro fam hfam
    have hhelp : (if fam.2.help = [] then [] else [helpLine fam.1 fam.2.help]).filterMap
        (parseLine U) = [] := by
      split
      · rfl
      · rw [List.filterMap_cons_none (parseLine_comment (by simp [helpLine]))]
        rfl
    rw [Family.lines, List.filterMap_append, hhelp, List.nil_append,
      List.filterMap_cons_none (parseLine_comment (by simp [typeLine])), List.filterMap_map,
      ← List.filterMap_eq_map]
    refine List.filterMap_congr fun s hs => ?_
    obtain ⟨hnames, hcontained⟩ := h.labels _ (hmem fam hfam s hs)
    exact parse_seriesLine (h.names fam hfam) hnames hcontained
  rw [Registry.renderRat, parse_lines hlines, Registry.lines, List.filterMap_flatMap,
    Registry.series, List.map_flatMap]
  refine List.flatMap_congr fun fam hfam => ?_
  rw [hfamily fam hfam, List.map_map]
  rfl

end SensorForge.Dashboard
