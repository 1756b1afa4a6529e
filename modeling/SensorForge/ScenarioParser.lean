import SensorForge.Scenario

/-! The scenario parser over the nodes of yaml-cpp, which is a parameter. What it accepts
follows the document entry by entry; its checks reject bad numbers, which lets through
those that compare with nothing. -/

namespace SensorForge.Scenarios

open Faults
open Double (ofInt)

/-- What a range-based `for` over a node yields: the element of a sequence as a node, the
key and the value of a map as a pair. -/
structure YamlEntry (N : Type) where
  node : N
  first : N
  second : N

/-- The part of yaml-cpp that the parser uses; `get` is `operator[]` of a constant node, and
what it throws are `YAML::Exception`s. -/
structure YamlCpp (N E D : Type) where
  load : String → Except E N
  get : N → String → Except E N
  isDefined : N → Bool
  asString : N → Except E String
  asDouble : N → Except E D
  iterate : N → List (YamlEntry N)

/-- Both are derived from `std::runtime_error`. -/
inductive RuntimeError (E : Type)
  | yaml (e : E)
  | what (message : String)
  deriving DecidableEq

abbrev Parsed (E α : Type) := Except (RuntimeError E) α

variable {N E D : Type} [Double D] (Y : YamlCpp N E D)

def thrown {α : Type} (x : Except E α) : Parsed E α := x.mapError .yaml

/-- `node[key] ? node[key].as<std::string>() : ""`. -/
def YamlCpp.stringOr (node : N) (key : String) (fallback : String := "") : Parsed E String := do
  let value ← thrown (Y.get node key)
  if Y.isDefined value then thrown (Y.asString value) else pure fallback

/-- `node[key] ? node[key].as<double>() : 0.0`. -/
def YamlCpp.doubleOr (node : N) (key : String) (fallback : D := ofInt 0) : Parsed E D := do
  let value ← thrown (Y.get node key)
  if Y.isDefined value then thrown (Y.asDouble value) else pure fallback

/-- `if (node[key]) {… = node[key].as<double>();}`. -/
def YamlCpp.doubleIf (node : N) (key : String) : Parsed E (Option D) := do
  let value ← thrown (Y.get node key)
  if Y.isDefined value then some <$> thrown (Y.asDouble value) else pure none

/-- The entries of the node under the key, if there is one. -/
def YamlCpp.entries (node : N) (key : String) : Parsed E (List (YamlEntry N)) := do
  let value ← thrown (Y.get node key)
  pure (if Y.isDefined value then Y.iterate value else [])

/-- `params[key] = value`. -/
def setParam (params : List (String × D)) (key : String) (value : D) : List (String × D) :=
  (key, value) :: params.filter fun p => p.1 ≠ key

def inlineKeys : List String := ["delay_ms", "drop_rate", "bandwidth_kbps", "burst_ms"]

def parseStream (kv : YamlEntry N) : Parsed E (StreamConfig D) := do
  let name ← thrown (Y.asString kv.first)
  let rateHz ← Y.doubleOr kv.second "rate_hz"
  if rateHz ≤ ofInt 0 then
    throw (.what ("scenario: stream '" ++ name ++ "' rate_hz must be > 0"))
  pure { name, rateHz }

def parseParam (params : List (String × D)) (p : YamlEntry N) : Parsed E (List (String × D)) := do
  let key ← thrown (Y.asString p.first)
  let value ← thrown (Y.asDouble p.second)
  pure (setParam params key value)

def parseInline (f : N) (params : List (String × D)) (key : String) :
    Parsed E (List (String × D)) := do
  let value ← Y.doubleIf f key
  pure (value.elim params (setParam params key))

def parseFault (f : YamlEntry N) : Parsed E (FaultSpec D) := do
  let stream ← Y.stringOr f.node "stream"
  let startSeconds ← Y.doubleOr f.node "start_seconds"
  let durationSeconds ← Y.doubleOr f.node "duration_seconds"
  let typeStr ← Y.stringOr f.node "type"
  let type := faultTypeFromString typeStr
  if type = .kUnknown then
    throw (.what ("scenario: unknown fault type '" ++ typeStr ++ "'"))
  let nested ← Y.entries f.node "params"
  let params ← nested.foldlM (parseParam Y) []
  let params ← inlineKeys.foldlM (parseInline Y f.node) params
  pure { stream, startSeconds, durationSeconds, type, params }

def parseAssertion (a : YamlEntry N) : Parsed E (Assertion D) := do
  let metric ← Y.stringOr a.node "metric"
  let opStr ← Y.stringOr a.node "operator"
  let op := compareOpFromString opStr
  if metric = "" ∨ op = .kUnknown then
    throw (.what "scenario: assertion needs metric + valid operator")
  let value ← Y.doubleOr a.node "value"
  let windowSeconds ← Y.doubleIf a.node "window_seconds"
  pure { metric, op, value, windowSeconds }

def parseNode (root : N) : Parsed E (Scenario D) := do
  let nameNode ← thrown (Y.get root "name")
  if !Y.isDefined nameNode then
    throw (.what "scenario: missing required 'name'")
  let name ← thrown (Y.asString nameNode)
  let durationSeconds ← Y.doubleOr root "duration_seconds"
  if durationSeconds ≤ ofInt 0 then
    throw (.what "scenario: duration_seconds must be > 0")
  let streams ← (← Y.entries root "streams").mapM (parseStream Y)
  let faults ← (← Y.entries root "faults").mapM (parseFault Y)
  let assertions ← (← Y.entries root "assertions").mapM (parseAssertion Y)
  pure { name, durationSeconds, streams, faults, assertions }

def parseScenarioString (yaml : String) : Parsed E (Scenario D) := do
  let root ← thrown (Y.load yaml)
  parseNode Y root

/-- `NaN` alone differs from itself. -/
def isNaN (x : D) : Bool := !(x == x)

/-- Only `NaN` is neither at most zero nor greater. -/
structure ComparesWithZero (D : Type) [Double D] : Prop where
  total : ∀ x : D, isNaN x = false → x ≤ ofInt 0 ∨ ofInt 0 < x
  nan : ∀ x : D, isNaN x = true → ¬ ofInt 0 < x

/-- What a scenario that is accepted should be. -/
structure Scenario.Valid (sc : Scenario D) : Prop where
  duration : ofInt 0 < sc.durationSeconds
  rates : ∀ s ∈ sc.streams, ofInt 0 < s.rateHz
  types : ∀ f ∈ sc.faults, f.type ≠ .kUnknown
  assertions : ∀ a ∈ sc.assertions, a.metric ≠ "" ∧ a.op ≠ .kUnknown

/-- One stream, fault and assertion for each entry of the document, in its order. -/
structure Follows (root : N) (sc : Scenario D) : Prop where
  streams : ∃ es, Y.entries root "streams" = .ok es ∧
    List.Forall₂ (fun e s => parseStream Y e = .ok s) es sc.streams
  faults : ∃ es, Y.entries root "faults" = .ok es ∧
    List.Forall₂ (fun e f => parseFault Y e = .ok f) es sc.faults
  assertions : ∃ es, Y.entries root "assertions" = .ok es ∧
    List.Forall₂ (fun e a => parseAssertion Y e = .ok a) es sc.assertions

/-- Neither the duration of the document nor the rate of a stream is `NaN`. -/
structure NaNFree (root : N) : Prop where
  duration : ∀ x, Y.doubleOr root "duration_seconds" = .ok x → isNaN x = false
  rates : ∀ es, Y.entries root "streams" = .ok es →
    ∀ e ∈ es, ∀ x, Y.doubleOr e.second "rate_hz" = .ok x → isNaN x = false

theorem bind_ok {ε α β : Type} {x : Except ε α} {f : α → Except ε β} {b : β} :
    x >>= f = .ok b ↔ ∃ a, x = .ok a ∧ f a = .ok b := by
  cases x with
  | error e => simp [bind, Except.bind]
  | ok a => simp [bind, Except.bind]

theorem mapM_ok {ε α β : Type} {f : α → Except ε β} {xs : List α} {ys : List β}
    (h : xs.mapM f = .ok ys) : List.Forall₂ (fun x y => f x = .ok y) xs ys := by
  induction xs generalizing ys with
  | nil =>
    rw [List.mapM_nil] at h
    cases h
    exact .nil
  | cons x xs ih =>
    rw [List.mapM_cons] at h
    obtain ⟨y, hy, h⟩ := bind_ok.mp h
    obtain ⟨zs, hzs, h⟩ := bind_ok.mp h
    cases h
    exact .cons hy (ih hzs)

variable {Y}

theorem parseStream_ok {kv : YamlEntry N} {s : StreamConfig D} (h : parseStream Y kv = .ok s) :
    Y.doubleOr kv.second "rate_hz" = .ok s.rateHz ∧ ¬ s.rateHz ≤ ofInt 0 := by
  obtain ⟨name, _, h⟩ := bind_ok.mp h
  obtain ⟨rateHz, hrate, h⟩ := bind_ok.mp h
  by_cases hle : rateHz ≤ ofInt 0
  · rw [if_pos hle] at h
    cases h
  · rw [if_neg hle] at h
    cases h
    exact ⟨hrate, hle⟩

theorem parseFault_ok {e : YamlEntry N} {f : FaultSpec D} (h : parseFault Y e = .ok f) :
    f.type ≠ .kUnknown := by
  obtain ⟨stream, _, h⟩ := bind_ok.mp h
  obtain ⟨startSeconds, _, h⟩ := bind_ok.mp h
  obtain ⟨durationSeconds, _, h⟩ := bind_ok.mp h
  obtain ⟨typeStr, _, h⟩ := bind_ok.mp h
  by_cases htype : faultTypeFromString typeStr = .kUnknown
  · dsimp only at h
    rw [if_pos htype] at h
    cases h
  · dsimp only at h
    rw [if_neg htype] at h
    obtain ⟨nested, _, h⟩ := bind_ok.mp h
    obtain ⟨params, _, h⟩ := bind_ok.mp h
    obtain ⟨params', _, h⟩ := bind_ok.mp h
    cases h
    exact htype

theorem parseAssertion_ok {e : YamlEntry N} {a : Assertion D} (h : parseAssertion Y e = .ok a) :
    a.metric ≠ "" ∧ a.op ≠ .kUnknown := by
  obtain ⟨metric, _, h⟩ := bind_ok.mp h
  obtain ⟨opStr, _, h⟩ := bind_ok.mp h
  by_cases hbad : metric = "" ∨ compareOpFromString opStr = .kUnknown
  · dsimp only at h
    rw [if_pos hbad] at h
    cases h
  · dsimp only at h
    rw [if_neg hbad] at h
    obtain ⟨value, _, h⟩ := bind_ok.mp h
    obtain ⟨windowSeconds, _, h⟩ := bind_ok.mp h
    cases h
    exact not_or.mp hbad

theorem parseNode_ok {root : N} {sc : Scenario D} (h : parseNode Y root = .ok sc) :
    Y.doubleOr root "duration_seconds" = .ok sc.durationSeconds ∧
      ¬ sc.durationSeconds ≤ ofInt 0 ∧ Follows Y root sc := by
  obtain ⟨nameNode, _, h⟩ := bind_ok.mp h
  cases hdef : Y.isDefined nameNode with
  | false =>
    simp only [hdef] at h
    cases h
  | true =>
    simp only [hdef, Bool.not_true, Bool.false_eq_true, if_false] at h
    obtain ⟨name, _, h⟩ := bind_ok.mp h
    obtain ⟨durationSeconds, hduration, h⟩ := bind_ok.mp h
    by_cases hle : durationSeconds ≤ ofInt 0
    · rw [if_pos hle] at h
      cases h
    · rw [if_neg hle] at h
      obtain ⟨es, hes, h⟩ := bind_ok.mp h
      obtain ⟨streams, hstreams, h⟩ := bind_ok.mp h
      obtain ⟨fs, hfs, h⟩ := bind_ok.mp h
      obtain ⟨faults, hfaults, h⟩ := bind_ok.mp h
      obtain ⟨as, has, h⟩ := bind_ok.mp h
      obtain ⟨assertions, hassertions, h⟩ := bind_ok.mp h
      cases h
      exact ⟨hduration, hle, ⟨es, hes, mapM_ok hstreams⟩, ⟨fs, hfs, mapM_ok hfaults⟩,
        ⟨as, has, mapM_ok hassertions⟩⟩

theorem forall₂_mem_right {α β : Type} {R : α → β → Prop} {xs : List α} {ys : List β}
    (h : List.Forall₂ R xs ys) {y : β} (hy : y ∈ ys) : ∃ x ∈ xs, R x y := by
  induction h with
  | nil => cases hy
  | @cons x _ _ _ hr _ ih =>
    rcases List.mem_cons.mp hy with rfl | hy
    · exact ⟨x, by simp, hr⟩
    · obtain ⟨x', hx', hr'⟩ := ih hy
      exact ⟨x', by simp [hx'], hr'⟩

theorem positive_iff (hzero : ComparesWithZero D) {x : D} (hx : ¬ x ≤ ofInt 0) :
    ofInt 0 < x ↔ isNaN x = false := by
  constructor
  · intro hlt
    by_contra hnan
    exact hzero.nan x (by simpa using hnan) hlt
  · intro hnan
    exact (hzero.total x hnan).resolve_left hx

theorem parseNode_checked {root : N} {sc : Scenario D} (h : parseNode Y root = .ok sc) :
    sc.Checked := by
  obtain ⟨_, hpositive, hfollows⟩ := parseNode_ok h
  obtain ⟨es, _, hstreams⟩ := hfollows.streams
  obtain ⟨fs, _, hfaults⟩ := hfollows.faults
  obtain ⟨as, _, hassertions⟩ := hfollows.assertions
  refine ⟨hpositive, fun s hs => ?_, fun f hf => ?_, fun a ha => ?_⟩
  · obtain ⟨e, _, he⟩ := forall₂_mem_right hstreams hs
    exact (parseStream_ok he).2
  · obtain ⟨e, _, he⟩ := forall₂_mem_right hfaults hf
    exact parseFault_ok he
  · obtain ⟨e, _, he⟩ := forall₂_mem_right hassertions ha
    exact parseAssertion_ok he

theorem parseNode_valid_iff (hzero : ComparesWithZero D) {root : N} {sc : Scenario D}
    (h : parseNode Y root = .ok sc) : sc.Valid ↔ NaNFree Y root := by
  have hchecked := parseNode_checked h
  obtain ⟨hduration, _, hfollows⟩ := parseNode_ok h
  obtain ⟨es, hes, hstreams⟩ := hfollows.streams
  constructor
  · intro hvalid
    refine ⟨fun x hx => ?_, fun es' hes' e he x hx => ?_⟩
    · rw [hduration] at hx
      cases hx
      exact (positive_iff hzero hchecked.duration).mp hvalid.duration
    · rw [hes] at hes'
      cases hes'
      obtain ⟨s, hs, hparse⟩ := forall₂_mem_right hstreams.flip he
      rw [(parseStream_ok hparse).1] at hx
      cases hx
      exact (positive_iff hzero (hchecked.rates s hs)).mp (hvalid.rates s hs)
  · intro hnan
    refine ⟨?_, fun s hs => ?_, hchecked.types, hchecked.assertions⟩
    · exact (positive_iff hzero hchecked.duration).mpr (hnan.duration _ hduration)
    · obtain ⟨e, he, hparse⟩ := forall₂_mem_right hstreams hs
      exact (positive_iff hzero (hchecked.rates s hs)).mpr
        (hnan.rates es hes e he _ (parseStream_ok hparse).1)

/-- Every document is refused with a runtime error, or read entry by entry, and no check has
thrown; the numbers are then positive exactly if none of them is `NaN`. -/
theorem accepted_valid_iff (hzero : ComparesWithZero D) (yaml : String) :
    (∃ e, parseScenarioString Y yaml = .error e) ∨
      ∃ root sc, Y.load yaml = .ok root ∧ parseScenarioString Y yaml = .ok sc ∧
        Follows Y root sc ∧ sc.Checked ∧ (sc.Valid ↔ NaNFree Y root) := by
  cases hparse : parseScenarioString Y yaml with
  | error e => exact .inl ⟨e, rfl⟩
  | ok sc =>
    obtain ⟨root, hload, hnode⟩ := bind_ok.mp hparse
    have hroot : Y.load yaml = .ok root := by
      cases hl : Y.load yaml with
      | error e =>
        rw [hl] at hload
        cases hload
      | ok root' =>
        rw [hl] at hload
        cases hload
        rfl
    exact .inr ⟨root, sc, hroot, rfl, (parseNode_ok hnode).2.2, parseNode_checked hnode,
      parseNode_valid_iff hzero hnode⟩

/-- Whole numbers and `NaN`, which compares with nothing. -/
inductive MaybeNaN
  | nan
  | num (n : Int64)
  deriving DecidableEq

def MaybeNaN.map₂ (f : Int64 → Int64 → Int64) : MaybeNaN → MaybeNaN → MaybeNaN
  | .num m, .num n => .num (f m n)
  | _, _ => .nan

def MaybeNaN.compares (r : Int64 → Int64 → Bool) : MaybeNaN → MaybeNaN → Bool
  | .num m, .num n => r m n
  | _, _ => false

instance : Double MaybeNaN where
  add := MaybeNaN.map₂ (· + ·)
  sub := MaybeNaN.map₂ (· - ·)
  mul := MaybeNaN.map₂ (· * ·)
  div := MaybeNaN.map₂ (· / ·)
  lt x y := MaybeNaN.compares (fun m n => m < n) x y = true
  le x y := MaybeNaN.compares (fun m n => m ≤ n) x y = true
  beq := MaybeNaN.compares (fun m n => m == n)
  ofInt n := .num (Int64.ofInt n)
  decLT _ _ := instDecidableEqBool _ _
  decLE _ _ := instDecidableEqBool _ _

theorem maybeNaN_comparesWithZero : ComparesWithZero MaybeNaN where
  total := by
    intro x hx
    cases x with
    | nan => cases hx
    | num n =>
      have hcases : n ≤ 0 ∨ 0 < n := (Int64.lt_or_le 0 n).symm
      exact hcases.imp decide_eq_true decide_eq_true
  nan := by
    intro x hx hlt
    cases x with
    | nan => cases hlt
    | num n => simp [isNaN, BEq.beq, MaybeNaN.compares] at hx

/-- The values that the documents below are made of. -/
inductive Yaml
  | scalar (text : String)
  | sequence (items : List Yaml)
  | map (entries : List (String × Yaml))

/-- What `operator[]` finds in a value; `none` is a node that is not valid. -/
def Yaml.get : Option Yaml → String → Except String (Option Yaml)
  | none, _ => .error "invalid node"
  | some (.scalar _), _ => .error "operator[] call on a scalar"
  | some (.sequence _), _ => .ok none
  | some (.map entries), key => .ok (entries.lookup key)

def Yaml.asString : Option Yaml → Except String String
  | some (.scalar text) => .ok text
  | _ => .error "bad conversion"

def Yaml.asDouble : Option Yaml → Except String MaybeNaN
  | some (.scalar ".nan") => .ok .nan
  | some (.scalar "30") => .ok (.num 30)
  | _ => .error "bad conversion"

def Yaml.iterate : Option Yaml → List (YamlEntry (Option Yaml))
  | some (.sequence items) => items.map fun item => ⟨some item, none, none⟩
  | some (.map entries) => entries.map fun e => ⟨none, some (.scalar e.1), some e.2⟩
  | _ => []

/-- `name: x`, `duration_seconds: 30`, and a camera of the given rate. -/
def cameraDocument (rate : String) : Yaml :=
  .map [("name", .scalar "x"), ("duration_seconds", .scalar "30"),
    ("streams", .map [("camera", .map [("rate_hz", .scalar rate)])])]

def cameraText (rate : String) : String :=
  "name: x\nduration_seconds: 30\nstreams:\n  camera: \x7brate_hz: " ++ rate ++ "\x7d"

/-- yaml-cpp on the text of the document. -/
def cameraYaml (rate : String) : YamlCpp (Option Yaml) String MaybeNaN where
  load text := if text = cameraText rate then .ok (some (cameraDocument rate)) else .error "parser"
  get := Yaml.get
  isDefined := Option.isSome
  asString := Yaml.asString
  asDouble := Yaml.asDouble
  iterate := Yaml.iterate

def cameraScenario (rateHz : MaybeNaN) : Scenario MaybeNaN :=
  ⟨"x", .num 30, [⟨"camera", rateHz⟩], [], []⟩

theorem cameraDocument_parses :
    parseScenarioString (cameraYaml "30") (cameraText "30") = .ok (cameraScenario (.num 30)) := rfl

theorem accepted_valid_camera : (cameraScenario (.num 30)).Valid := by
  rcases accepted_valid_iff (Y := cameraYaml "30") maybeNaN_comparesWithZero (cameraText "30")
    with ⟨e, he⟩ | ⟨root, sc, hload, hparse, _, _, hiff⟩
  · rw [cameraDocument_parses] at he
    cases he
  · rw [cameraDocument_parses] at hparse
    cases hparse
    cases hload
    refine hiff.mpr ⟨fun x hx => ?_, fun es hes e he x hx => ?_⟩
    · cases hx
      rfl
    · cases hes
      rw [List.mem_singleton.mp he] at hx
      cases hx
      rfl

/-- A rate of `.nan` is not at most zero, and is let through. -/
theorem accepts_nan :
    ¬ ∀ (Y : YamlCpp (Option Yaml) String MaybeNaN) (yaml : String) (sc : Scenario MaybeNaN),
      parseScenarioString Y yaml = .ok sc → sc.Valid := by
  intro h
  have hvalid := h (cameraYaml ".nan") (cameraText ".nan") (cameraScenario .nan) rfl
  have hrate := hvalid.rates ⟨"camera", .nan⟩ (by simp [cameraScenario])
  cases hrate

end SensorForge.Scenarios
