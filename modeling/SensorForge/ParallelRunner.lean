import SensorForge.Scenario

/-! The parallel runner: its arguments, the runs that it launches one after the other,
and the report files that they leave behind. -/

namespace SensorForge.Scenarios

structure NamespaceManager where
  nsPrefix : String := "/scenario"
  basePort : UInt16 := 0
  counter : Nat := 0

def NamespaceManager.nextNamespace (m : NamespaceManager) : String × NamespaceManager :=
  (m.nsPrefix ++ "_" ++ Nat.repr m.counter, { m with counter := m.counter + 1 })

def NamespaceManager.metricsPort (m : NamespaceManager) (index : Nat) : UInt16 :=
  if m.basePort = 0 then 0 else UInt16.ofNat (m.basePort.toNat + index)

/-- `std::atoi`: blanks, a sign, digits; a value that does not fit in a `long` saturates
and is then cut to an `int`. -/
def atoi (s : String) : Int :=
  let cs := s.toList.dropWhile fun c => c = ' ' ∨ ('\t' ≤ c ∧ c ≤ '\r')
  let (negative, cs) := match cs with
    | '-' :: rest => (true, rest)
    | '+' :: rest => (false, rest)
    | rest => (false, rest)
  let digits := cs.takeWhile fun c => '0' ≤ c ∧ c ≤ '9'
  let n : Int := digits.foldl (fun n c => 10 * n + (c.toNat - '0'.toNat : Nat)) 0
  (Int32.ofInt (max (-2 ^ 63) (min (if negative then -n else n) (2 ^ 63 - 1)))).toInt

structure Options where
  scenarioPaths : List String := []
  reportDir : String := ""
  metricsBasePort : UInt16 := 0
  count : Nat := 1
  count_pos : 0 < count := by decide

/-- The loop over the arguments after the program's name. -/
def parseArgs : List String → Options → Options
  | arg :: value :: rest, o =>
    if arg = "--scenario" then
      parseArgs rest { o with scenarioPaths := o.scenarioPaths ++ [value] }
    else if arg = "--report-dir" then parseArgs rest { o with reportDir := value }
    else if arg = "--metrics-base-port" then
      parseArgs rest { o with metricsBasePort := UInt16.ofInt (atoi value) }
    else if arg = "--count" then
      parseArgs rest { o with
        count := (max 1 (atoi value)).toNat
        count_pos := by omega }
    else parseArgs (value :: rest) o
  | _, o => o

structure Run (D : Type) where
  scenario : Scenario D
  ns : String
  reportDir : String := ""
  metricsPort : UInt16 := 0

variable {D : Type}

/-- One round of the inner loop; `parse` reads a scenario file and throws on a bad one. -/
def launchOne (parse : String → Option (Scenario D)) (o : Options)
    (st : NamespaceManager × List (Run D)) (path : String) :
    Option (NamespaceManager × List (Run D)) :=
  (parse path).map fun s =>
    let idx := st.2.length
    let (ns, mgr) := st.1.nextNamespace
    let runner : Run D := { scenario := s, ns := ns }
    let runner := if o.reportDir ≠ "" then { runner with reportDir := o.reportDir } else runner
    let port := mgr.metricsPort idx
    let runner := if port ≠ 0 then { runner with metricsPort := port } else runner
    (mgr, st.2 ++ [runner])

/-- `none` where `main` returns before it has started a run. -/
def launch (parse : String → Option (Scenario D)) (o : Options) : Option (List (Run D)) :=
  if o.scenarioPaths = [] then none
  else
    ((List.replicate o.count o.scenarioPaths).flatten.foldlM (launchOne parse o)
      ({ basePort := o.metricsBasePort }, [])).map Prod.snd

/-- The file that opening a path for writing creates or truncates, where it can be opened. -/
structure FileSystem (ι : Type) where
  opens : String → Option ι

abbrev Files (ι : Type) := ι → Option String

structure Document where
  json : String
  html : String

def reportPath (dir name extension : String) : String := dir ++ "/" ++ name ++ extension

def reportPaths (dir name : String) : List String :=
  [reportPath dir name ".json", reportPath dir name ".html"]

section FileSystem

variable {ι : Type} [DecidableEq ι] (fs : FileSystem ι)

def FileSystem.write (files : Files ι) (path content : String) : Files ι :=
  match fs.opens path with
  | some f => Function.update files f (some content)
  | none => files

def FileSystem.read (files : Files ι) (path : String) : Option String :=
  (fs.opens path).bind files

/-- The structured reports at the end of `finish`. -/
def Run.finish (files : Files ι) (r : Run D) (doc : Document) : Files ι :=
  if r.reportDir ≠ "" then
    let files := fs.write files (reportPath r.reportDir r.scenario.name ".json") doc.json
    fs.write files (reportPath r.reportDir r.scenario.name ".html") doc.html
  else files

/-- The loop over the runs after the deadline; `docs` is what each of them has measured. -/
def finishAll (files : Files ι) (runs : List (Run D)) (docs : Nat → Document) : Files ι :=
  runs.zipIdx.foldl (fun files r => r.1.finish fs files (docs r.2)) files

end FileSystem

/-- What is launched for the scenario in place `i`. -/
def runAt (o : Options) (i : Nat) (s : Scenario D) : Run D :=
  { scenario := s
    ns := "/scenario" ++ "_" ++ Nat.repr i
    reportDir := o.reportDir
    metricsPort := NamespaceManager.metricsPort { basePort := o.metricsBasePort } i }

theorem launchOne_eq (parse : String → Option (Scenario D)) (o : Options) (runs : List (Run D))
    (path : String) :
    launchOne parse o ({ basePort := o.metricsBasePort, counter := runs.length }, runs) path =
      (parse path).map fun s =>
        ({ basePort := o.metricsBasePort, counter := runs.length + 1 },
          runs ++ [runAt o runs.length s]) := by
  unfold launchOne
  refine congrArg (fun f => (parse path).map f) (funext fun s => ?_)
  by_cases hdir : o.reportDir = "" <;>
    by_cases hport : NamespaceManager.metricsPort { basePort := o.metricsBasePort } runs.length = 0 <;>
      simp_all [NamespaceManager.nextNamespace, NamespaceManager.metricsPort, runAt]

theorem launchAll (parse : String → Option (Scenario D)) (o : Options) (paths : List String)
    (runs : List (Run D)) {st : NamespaceManager × List (Run D)}
    (h : paths.foldlM (launchOne parse o)
      ({ basePort := o.metricsBasePort, counter := runs.length }, runs) = some st) :
    ∃ scs : List (Scenario D), paths.map parse = scs.map some ∧
      st.2 = runs ++ scs.mapIdx fun i s => runAt o (runs.length + i) s := by
  induction paths generalizing runs with
  | nil =>
    rw [List.foldlM_nil] at h
    cases h
    exact ⟨[], rfl, by simp⟩
  | cons path paths ih =>
    rw [List.foldlM_cons, launchOne_eq] at h
    cases hs : parse path with
    | none => simp [hs] at h
    | some s =>
      have hnext : (runs ++ [runAt o runs.length s]).length = runs.length + 1 := by simp
      rw [hs, Option.map_some, Option.bind_eq_bind, Option.bind_some, ← hnext] at h
      obtain ⟨scs, hparse, hruns⟩ := ih _ h
      refine ⟨s :: scs, by rw [List.map_cons, hs, hparse, List.map_cons], ?_⟩
      rw [hruns, List.mapIdx_cons, hnext]
      simp [Nat.add_assoc, Nat.add_comm 1]

/-- The names of the scenarios, in the order of the arguments. -/
def scenarioNames (parse : String → Option (Scenario D)) (o : Options) : List String :=
  o.scenarioPaths.filterMap fun path => (parse path).map (·.name)

theorem launch_spec {parse : String → Option (Scenario D)} {o : Options} {runs : List (Run D)}
    (h : launch parse o = some runs) :
    o.scenarioPaths ≠ [] ∧ ∃ scs : List (Scenario D), runs = scs.mapIdx (runAt o) ∧
      scs.length = o.count * o.scenarioPaths.length ∧
      scs.map (·.name) = (List.replicate o.count (scenarioNames parse o)).flatten := by
  unfold launch at h
  split at h
  · cases h
  · next hne =>
    obtain ⟨st, hst, rfl⟩ := Option.map_eq_some_iff.mp h
    obtain ⟨scs, hparse, hruns⟩ := launchAll parse o _ [] hst
    refine ⟨hne, scs, ?_, ?_, ?_⟩
    · simpa using hruns
    · have hlen := congrArg List.length hparse
      simpa using hlen.symm
    · have hnames := congrArg (List.filterMap fun s => s.map (·.name)) hparse
      rw [List.filterMap_map, List.filterMap_map, List.filterMap_flatten, List.map_replicate] at hnames
      have hsome : scs.filterMap ((fun s => s.map (·.name)) ∘ some) = scs.map (·.name) := by
        simp
      rw [← hsome, ← hnames]
      rfl

theorem metricsPort_pos_iff {base : UInt16} {n : Nat} (hn : 0 < n) :
    (∀ i < n, NamespaceManager.metricsPort { basePort := base } i ≠ 0) ↔
      base ≠ 0 ∧ base.toNat + n ≤ 65536 := by
  have hbase : base = 0 ↔ base.toNat = 0 := by
    rw [← UInt16.toNat_inj]
    rfl
  have hport : ∀ i, base ≠ 0 → (NamespaceManager.metricsPort { basePort := base } i = 0 ↔
      (base.toNat + i) % 65536 = 0) := by
    intro i h0
    rw [NamespaceManager.metricsPort, if_neg h0, ← UInt16.toNat_inj, UInt16.toNat_ofNat']
    rfl
  have hlt := base.toNat_lt
  constructor
  · intro h
    have h0 : base ≠ 0 := by
      intro h0
      exact h 0 hn (by rw [NamespaceManager.metricsPort, if_pos h0])
    refine ⟨h0, ?_⟩
    by_contra hgt
    refine h (65536 - base.toNat) (by omega) ((hport _ h0).mpr ?_)
    rw [Nat.add_sub_cancel' (by omega)]
  · rintro ⟨h0, hle⟩ i hi
    rw [ne_eq, hport i h0]
    have := mt hbase.mpr h0
    omega

theorem metricsPort_inj {base : UInt16} {n i j : Nat} (h0 : base ≠ 0)
    (hle : base.toNat + n ≤ 65536) (hi : i < n) (hj : j < n)
    (h : NamespaceManager.metricsPort { basePort := base } i =
      NamespaceManager.metricsPort { basePort := base } j) : i = j := by
  rw [NamespaceManager.metricsPort, if_neg h0, NamespaceManager.metricsPort, if_neg h0,
    ← UInt16.toNat_inj, UInt16.toNat_ofNat', UInt16.toNat_ofNat'] at h
  omega

theorem reportPath_inj {dir a b : String} {extension : String}
    (h : reportPath dir a extension = reportPath dir b extension) : a = b := by
  have hl := congrArg String.toList h
  simp only [reportPath, String.toList_append] at hl
  exact String.toList_inj.mp (List.append_cancel_left (List.append_cancel_right hl))

theorem reportPath_json_ne_html (dir a b : String) :
    reportPath dir a ".json" ≠ reportPath dir b ".html" := by
  intro h
  have hl := congrArg String.toList h
  simp only [reportPath, String.toList_append] at hl
  have hlength : ".json".toList.length = ".html".toList.length := by decide
  have hne : ".json".toList ≠ ".html".toList := by decide
  exact hne (List.append_inj_right' hl hlength)

theorem reportPaths_disjoint_iff (dir a b : String) :
    List.Disjoint (reportPaths dir a) (reportPaths dir b) ↔ a ≠ b := by
  constructor
  · rintro h rfl
    exact h List.mem_cons_self List.mem_cons_self
  · intro hne path ha hb
    simp only [reportPaths, List.mem_cons, List.not_mem_nil, or_false] at ha hb
    rcases ha with rfl | rfl <;> rcases hb with hb | hb
    · exact hne (reportPath_inj hb)
    · exact reportPath_json_ne_html _ _ _ hb
    · exact reportPath_json_ne_html _ _ _ hb.symm
    · exact hne (reportPath_inj hb)

theorem reportPaths_nodup_iff (dir : String) (names : List String) :
    (names.flatMap (reportPaths dir)).Nodup ↔ names.Nodup := by
  have hone : ∀ name, (reportPaths dir name).Nodup := by
    intro name
    simp [reportPaths, reportPath_json_ne_html]
  rw [List.nodup_flatMap, List.nodup_iff_pairwise_ne]
  simp only [hone, implies_true, true_and]
  exact ⟨fun h => h.imp fun {a b} hab => (reportPaths_disjoint_iff dir a b).mp hab,
    fun h => h.imp fun {a b} hab => (reportPaths_disjoint_iff dir a b).mpr hab⟩

theorem nodup_flatten_replicate {α : Type} {l : List α} (hl : l ≠ []) {n : Nat} (hn : 0 < n) :
    (List.replicate n l).flatten.Nodup ↔ n = 1 ∧ l.Nodup := by
  have hself : ¬ List.Disjoint l l := by
    obtain ⟨a, ha⟩ := List.exists_mem_of_ne_nil l hl
    exact fun h => h ha ha
  rw [List.nodup_flatten, List.pairwise_replicate]
  have hone : n ≤ 1 ↔ n = 1 := by omega
  simp [hself, hone, Nat.pos_iff_ne_zero.mp hn, and_comm]

theorem nodup_map_mapIdx {α β γ : Type} {f : Nat → α → β} {g : β → γ} {l : List α}
    (h : ∀ i < l.length, ∀ j < l.length, ∀ a b, g (f i a) = g (f j b) → i = j) :
    ((l.mapIdx f).map g).Nodup := by
  rw [List.nodup_iff_pairwise_ne, List.pairwise_map, List.pairwise_iff_getElem]
  intro i j hi hj hij he
  rw [List.length_mapIdx] at hi hj
  rw [List.getElem_mapIdx, List.getElem_mapIdx] at he
  exact absurd (h i hi j hj _ _ he) (Nat.ne_of_lt hij)

theorem runAt_ns_inj {o : Options} {i j : Nat} {s t : Scenario D}
    (h : (runAt o i s).ns = (runAt o j t).ns) : i = j := by
  have hl := congrArg String.toList h
  simp only [runAt, String.toList_append] at hl
  exact Nat.repr_injective (String.toList_inj.mp (List.append_cancel_left hl))

theorem opens_of_read {ι : Type} (fs : FileSystem ι) {files : Files ι} {path content : String}
    (h : fs.read files path = some content) : (fs.opens path).isSome := by
  obtain ⟨f, hf, _⟩ := Option.bind_eq_some_iff.mp h
  rw [hf]
  rfl

section Reports

variable {ι : Type} [DecidableEq ι] (fs : FileSystem ι)

/-- Every one of the paths can be written, and no two of them are one file. -/
structure FileSystem.Separates (paths : List String) : Prop where
  opens : ∀ p ∈ paths, (fs.opens p).isSome
  apart : ∀ p ∈ paths, ∀ q ∈ paths, fs.opens p = fs.opens q → p = q

def writeAll (files : Files ι) (ws : List (String × String)) : Files ι :=
  ws.foldl (fun files w => fs.write files w.1 w.2) files

theorem write_read_other {files : Files ι} {path path' content : String}
    (h : fs.opens path' ≠ fs.opens path) :
    fs.read (fs.write files path' content) path = fs.read files path := by
  unfold FileSystem.read FileSystem.write
  cases hpath : fs.opens path with
  | none => rfl
  | some f =>
    split
    · next f' hf' =>
      rw [hf', hpath] at h
      exact Function.update_of_ne (fun hff => h (congrArg some hff.symm)) _ _
    · rfl

theorem writeAll_read_other {files : Files ι} {ws : List (String × String)} {path : String}
    (h : ∀ w ∈ ws, fs.opens w.1 ≠ fs.opens path) :
    fs.read (writeAll fs files ws) path = fs.read files path := by
  induction ws generalizing files with
  | nil => rfl
  | cons w ws ih =>
    have hrest : fs.read (writeAll fs (fs.write files w.1 w.2) ws) path = _ :=
      ih fun w' hw' => h w' (List.mem_cons_of_mem w hw')
    exact hrest.trans (write_read_other fs (h w List.mem_cons_self))

theorem writeAll_read {files : Files ι} {ws : List (String × String)}
    (hopen : ∀ w ∈ ws, (fs.opens w.1).isSome)
    (hd : (ws.map fun w => fs.opens w.1).Nodup) {w : String × String} (hw : w ∈ ws) :
    fs.read (writeAll fs files ws) w.1 = some w.2 := by
  induction ws generalizing files with
  | nil => cases hw
  | cons w' ws ih =>
    obtain ⟨hnot, hd⟩ := List.nodup_cons.mp hd
    rcases List.mem_cons.mp hw with rfl | hw
    · have hrest : fs.read (writeAll fs (fs.write files w.1 w.2) ws) w.1 = _ :=
        writeAll_read_other fs fun w' hw' he => hnot (List.mem_map.mpr ⟨w', hw', he⟩)
      refine hrest.trans ?_
      obtain ⟨f, hf⟩ := Option.isSome_iff_exists.mp (hopen w List.mem_cons_self)
      simp [FileSystem.read, FileSystem.write, hf]
    · exact ih (fun w'' h => hopen w'' (List.mem_cons_of_mem _ h)) hd hw

def Run.paths (r : Run D) : List String := reportPaths r.reportDir r.scenario.name

/-- What the runs of one command share nothing of. -/
structure DisjointResources (runs : List (Run D)) : Prop where
  namespaces : (runs.map (·.ns)).Nodup
  ports : (runs.map (·.metricsPort)).Nodup
  enabled : ∀ r ∈ runs, r.metricsPort ≠ 0
  reports : ((runs.flatMap Run.paths).map fs.opens).Nodup
  held : ∀ (files : Files ι) (docs : Nat → Document) (i : Nat) (h : i < runs.length),
    fs.read (finishAll fs files runs docs)
        (reportPath runs[i].reportDir runs[i].scenario.name ".json") = some (docs i).json ∧
      fs.read (finishAll fs files runs docs)
        (reportPath runs[i].reportDir runs[i].scenario.name ".html") = some (docs i).html

/-- The files that the list of scenarios names are all different, the list is run once,
and the ports above the base suffice. -/
structure Separable (parse : String → Option (Scenario D)) (o : Options) : Prop where
  base : o.metricsBasePort ≠ 0
  ports : o.metricsBasePort.toNat + o.scenarioPaths.length ≤ 65536
  dir : o.reportDir ≠ ""
  once : o.count = 1
  names : (scenarioNames parse o).Nodup
  files : fs.Separates ((scenarioNames parse o).flatMap (reportPaths o.reportDir))

def reportWrites (runs : List (Run D)) (docs : Nat → Document) : List (String × String) :=
  runs.zipIdx.flatMap fun r =>
    [(reportPath r.1.reportDir r.1.scenario.name ".json", (docs r.2).json),
      (reportPath r.1.reportDir r.1.scenario.name ".html", (docs r.2).html)]

theorem finishAll_eq_writeAll {runs : List (Run D)} (hdir : ∀ r ∈ runs, r.reportDir ≠ "")
    (files : Files ι) (docs : Nat → Document) :
    finishAll fs files runs docs = writeAll fs files (reportWrites runs docs) := by
  rw [finishAll, writeAll, reportWrites, List.foldl_flatMap]
  refine List.foldl_ext _ _ _ fun files r hr => ?_
  rw [Run.finish, if_pos (hdir r.1 (List.fst_mem_of_mem_zipIdx hr))]
  rfl

theorem finishAll_of_no_dir {runs : List (Run D)} (hdir : ∀ r ∈ runs, r.reportDir = "")
    (files : Files ι) (docs : Nat → Document) : finishAll fs files runs docs = files := by
  rw [finishAll, List.foldl_ext _ (fun files _ => files) _ fun files r hr => ?_]
  · exact List.foldl_fixed _
  · rw [Run.finish, if_neg (not_not.mpr (hdir r.1 (List.fst_mem_of_mem_zipIdx hr)))]

theorem reportWrites_paths (runs : List (Run D)) (docs : Nat → Document) :
    (reportWrites runs docs).map Prod.fst = runs.flatMap Run.paths := by
  rw [reportWrites, List.map_flatMap]
  conv_rhs => rw [← List.zipIdx_map_fst 0 runs, List.flatMap_map]
  rfl

theorem held_of_apart {runs : List (Run D)} (hdir : ∀ r ∈ runs, r.reportDir ≠ "")
    (hopen : ∀ p ∈ runs.flatMap Run.paths, (fs.opens p).isSome)
    (hd : ((runs.flatMap Run.paths).map fs.opens).Nodup) (files : Files ι) (docs : Nat → Document)
    {i : Nat} (h : i < runs.length) {w : String × String}
    (hw : w ∈ [(reportPath runs[i].reportDir runs[i].scenario.name ".json", (docs i).json),
      (reportPath runs[i].reportDir runs[i].scenario.name ".html", (docs i).html)]) :
    fs.read (finishAll fs files runs docs) w.1 = some w.2 := by
  rw [finishAll_eq_writeAll fs hdir]
  rw [← reportWrites_paths runs docs, List.map_map] at hd
  refine writeAll_read fs (fun w hw => hopen _ ?_) hd ?_
  · rw [← reportWrites_paths runs docs]
    exact List.mem_map_of_mem hw
  · refine List.mem_flatMap.mpr ⟨(runs[i], i), ?_, hw⟩
    exact List.mem_zipIdx_iff_getElem?.mpr (List.getElem?_eq_getElem h)

section Launched

variable {parse : String → Option (Scenario D)} {o : Options} {runs : List (Run D)}

theorem launch_length (h : launch parse o = some runs) :
    runs.length = o.count * o.scenarioPaths.length := by
  obtain ⟨-, scs, rfl, hlen, -⟩ := launch_spec h
  rw [List.length_mapIdx, hlen]

theorem launch_pos (h : launch parse o = some runs) : 0 < runs.length := by
  rw [launch_length h]
  exact Nat.mul_pos o.count_pos (List.length_pos_of_ne_nil (launch_spec h).1)

theorem launch_getElem (h : launch parse o = some runs) {i : Nat} (hi : i < runs.length) :
    ∃ s, runs[i] = runAt o i s := by
  obtain ⟨-, scs, rfl, -, -⟩ := launch_spec h
  exact ⟨_, List.getElem_mapIdx⟩

theorem launch_dir (h : launch parse o = some runs) : ∀ r ∈ runs, r.reportDir = o.reportDir := by
  intro r hr
  obtain ⟨i, hi, rfl⟩ := List.getElem_of_mem hr
  obtain ⟨s, hs⟩ := launch_getElem h hi
  rw [hs]
  rfl

theorem launch_names (h : launch parse o = some runs) : runs.map (·.scenario.name) =
    (List.replicate o.count (scenarioNames parse o)).flatten := by
  obtain ⟨-, scs, rfl, -, hnames⟩ := launch_spec h
  rw [← hnames]
  refine List.ext_getElem (by simp) fun i _ _ => ?_
  simp [runAt]

theorem scenarioNames_ne_nil (h : launch parse o = some runs) : scenarioNames parse o ≠ [] := by
  intro hnil
  have hzero := congrArg List.length (launch_names h)
  simp only [hnil, List.length_map, List.length_flatten, List.map_replicate, List.length_nil,
    List.sum_replicate, smul_zero] at hzero
  exact absurd hzero (launch_pos h).ne'

theorem launch_paths (h : launch parse o = some runs) : runs.flatMap Run.paths =
    (List.replicate o.count (scenarioNames parse o)).flatten.flatMap (reportPaths o.reportDir) := by
  rw [← launch_names h, List.flatMap_map]
  refine List.flatMap_congr fun r hr => ?_
  rw [Run.paths, launch_dir h r hr]

theorem launch_ports (h : launch parse o = some runs) : (∀ r ∈ runs, r.metricsPort ≠ 0) ↔
    o.metricsBasePort ≠ 0 ∧ o.metricsBasePort.toNat + runs.length ≤ 65536 := by
  rw [← metricsPort_pos_iff (launch_pos h), List.forall_mem_iff_getElem]
  refine forall₂_congr fun i hi => ?_
  obtain ⟨s, hs⟩ := launch_getElem h hi
  rw [hs]
  rfl

theorem launch_once (h : launch parse o = some runs) (hreports : (runs.flatMap Run.paths).Nodup) :
    o.count = 1 ∧ (scenarioNames parse o).Nodup := by
  rwa [launch_paths h, reportPaths_nodup_iff,
    nodup_flatten_replicate (scenarioNames_ne_nil h) o.count_pos] at hreports

theorem launch_paths_once (h : launch parse o = some runs) (honce : o.count = 1) :
    runs.flatMap Run.paths = (scenarioNames parse o).flatMap (reportPaths o.reportDir) := by
  rw [launch_paths h, honce, List.replicate_one, List.flatten_singleton]

theorem launch_length_once (h : launch parse o = some runs) (honce : o.count = 1) :
    runs.length = o.scenarioPaths.length := by
  rw [launch_length h, honce, Nat.one_mul]

theorem DisjointResources.opens (hr : DisjointResources fs runs) :
    ∀ p ∈ runs.flatMap Run.paths, (fs.opens p).isSome := by
  intro p hp
  obtain ⟨r, hmem, hp⟩ := List.mem_flatMap.mp hp
  obtain ⟨i, hi, rfl⟩ := List.getElem_of_mem hmem
  have hheld := hr.held (fun _ => none) (fun _ => ⟨"", ""⟩) i hi
  simp only [Run.paths, reportPaths, List.mem_cons, List.not_mem_nil, or_false] at hp
  rcases hp with rfl | rfl
  · exact opens_of_read fs hheld.1
  · exact opens_of_read fs hheld.2

theorem separable_of_disjoint (h : launch parse o = some runs) (hr : DisjointResources fs runs) :
    Separable fs parse o := by
  obtain ⟨honce, hnodup⟩ := launch_once h (hr.reports.of_map _)
  obtain ⟨hbase, hle⟩ := (launch_ports h).mp hr.enabled
  rw [launch_length_once h honce] at hle
  refine ⟨hbase, hle, fun hnone => ?_, honce, hnodup, ?_⟩
  · have hheld := (hr.held (fun _ => none) (fun _ => ⟨"", ""⟩) 0 (launch_pos h)).1
    rw [finishAll_of_no_dir fs (fun r hr => (launch_dir h r hr).trans hnone)] at hheld
    simp [FileSystem.read] at hheld
  · rw [← launch_paths_once h honce]
    exact ⟨hr.opens fs, List.inj_on_of_nodup_map hr.reports⟩

theorem disjoint_of_separable (h : launch parse o = some runs) (hs : Separable fs parse o) :
    DisjointResources fs runs := by
  have hle := hs.ports
  rw [← launch_length_once h hs.once] at hle
  have hfiles := hs.files
  rw [← launch_paths_once h hs.once] at hfiles
  have hreports : ((runs.flatMap Run.paths).map fs.opens).Nodup := by
    refine List.Nodup.map_on hfiles.apart ?_
    rw [launch_paths_once h hs.once, reportPaths_nodup_iff]
    exact hs.names
  have hdir : ∀ r ∈ runs, r.reportDir ≠ "" := fun r hr => by
    rw [launch_dir h r hr]
    exact hs.dir
  obtain ⟨-, scs, hruns, -, -⟩ := launch_spec h
  refine ⟨?_, ?_, (launch_ports h).mpr ⟨hs.base, hle⟩, hreports, fun files docs i hi => ?_⟩
  · rw [hruns]
    exact nodup_map_mapIdx fun i _ j _ _ _ he => runAt_ns_inj he
  · rw [hruns]
    rw [hruns, List.length_mapIdx] at hle
    exact nodup_map_mapIdx fun i hi j hj _ _ he => metricsPort_inj hs.base hle hi hj he
  · exact ⟨held_of_apart fs hdir hfiles.opens hreports files docs hi List.mem_cons_self,
      held_of_apart fs hdir hfiles.opens hreports files docs hi
        (List.mem_cons_of_mem _ List.mem_cons_self)⟩

end Launched

/-- The runs that one command launches have resources of their own exactly when the
scenarios are run once, have different names and not too high a base port, and the
reports are written to different files. -/
theorem parallel_disjoint_iff {parse : String → Option (Scenario D)} {o : Options}
    {runs : List (Run D)} (h : launch parse o = some runs) :
    DisjointResources fs runs ↔ Separable fs parse o :=
  ⟨separable_of_disjoint fs h, disjoint_of_separable fs h⟩

end Reports

def demoScenario : Scenario Int64 :=
  { name := "demo", durationSeconds := 10, streams := [], faults := [], assertions := [] }

def demoOptions : Options :=
  { scenarioPaths := ["demo.yaml"], reportDir := "reports", metricsBasePort := 9090 }

def cityScenario : Scenario Int64 :=
  { name := "city", durationSeconds := 20, streams := [⟨"imu", 200⟩], faults := []
    assertions := [] }

def cityOptions : Options := { demoOptions with scenarioPaths := ["demo.yaml", "city.yaml"] }

def parseByPath (path : String) : Option (Scenario Int64) :=
  if path = "demo.yaml" then some demoScenario
  else if path = "city.yaml" then some cityScenario
  else none

/-- Two scenarios side by side. -/
theorem parallel_disjoint_city :
    launch parseByPath cityOptions =
        some [runAt cityOptions 0 demoScenario, runAt cityOptions 1 cityScenario] ∧
      DisjointResources (⟨some⟩ : FileSystem String)
        [runAt cityOptions 0 demoScenario, runAt cityOptions 1 cityScenario] := by
  have hlaunch : launch parseByPath cityOptions =
      some [runAt cityOptions 0 demoScenario, runAt cityOptions 1 cityScenario] := rfl
  refine ⟨hlaunch, (parallel_disjoint_iff _ hlaunch).mpr ?_⟩
  exact
    { base := by decide
      ports := by decide
      dir := by decide
      once := rfl
      names := by decide
      files := ⟨fun _ _ => rfl, fun _ _ _ _ h => Option.some.inj h⟩ }

/-- Run twice, the scenario's second report replaces its first. -/
theorem parallel_reports_overwritten :
    ¬ ∀ (fs : FileSystem String) (parse : String → Option (Scenario Int64)) (o : Options) runs,
      launch parse o = some runs → o.metricsBasePort ≠ 0 → o.reportDir ≠ "" →
        DisjointResources fs runs := by
  intro h
  have hlaunch : launch (fun _ => some demoScenario)
      { demoOptions with count := 2, count_pos := by decide } =
        some [runAt demoOptions 0 demoScenario, runAt demoOptions 1 demoScenario] := rfl
  have hreports := (h ⟨some⟩ _ _ _ hlaunch (by decide) (by decide)).reports.of_map
  have hnames : ["demo", "demo"].Nodup := (reportPaths_nodup_iff "reports" _).mp hreports
  simp at hnames

end SensorForge.Scenarios
