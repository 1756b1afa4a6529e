import SensorForge.Registry

/-! The registry as a map from names and label sets to values. Its series are filed under a
flat text of the labels, and two label sets with one such text share a series. -/

namespace SensorForge.Metrics

open PythonText

variable {V : Type} [Add V] [Zero V] [One V]

/-- Label sets are compared by their entries in the order of their names. -/
abbrev LabelSet := List (Text × Text)

/-- The name and the labels that a call writes to, and the new value from the old. -/
def Call.write : Call V → Option (Text × Labels × (Option V → V))
  | .setGauge name value labels => some (name, labels, fun _ => value)
  | .setSensorGauge name sensor value =>
    some (name, Std.TreeMap.ofList [(['s', 'e', 'n', 's', 'o', 'r'], sensor)], fun _ => value)
  | .addCounter name delta labels => some (name, labels, fun old => old.getD 0 + delta)
  | .setHelp _ _ => none

/-- What the registry is for: setting assigns, adding adds. -/
abbrev Reference (V : Type) := Text → LabelSet → Option V

def Reference.call (m : Reference V) (c : Call V) : Reference V :=
  match c.write with
  | none => m
  | some (name, labels, f) => fun n ls =>
    if n = name ∧ ls = labels.toList then some (f (m name labels.toList)) else m n ls

def reference (calls : List (Call V)) : Reference V :=
  calls.foldl Reference.call fun _ _ => none

def registryAfter (calls : List (Call V)) : Registry V := calls.foldl Registry.call {}

/-- A line for the name and the labels is rendered, with the value. -/
def Registry.Renders (r : Registry V) (name : Text) (ls : LabelSet) (value : V) : Prop :=
  ∃ s, (name, s) ∈ r.series ∧ s.labels.toList = ls ∧ s.value = value

def Targets (calls : List (Call V)) (name : Text) (labels : Labels) : Prop :=
  ∃ c ∈ calls, ∃ f, c.write = some (name, labels, f)

/-- The labels one behind the other, each with `=` behind its name and `;` behind its value,
which are not escaped where they are part of a name or a value. -/
def flattened : LabelSet → Text
  | [] => []
  | (name, value) :: ls => name ++ '=' :: (value ++ ';' :: flattened ls)

/-- Different label sets that are used with one name read differently one label after the other. -/
def TextsApart (calls : List (Call V)) : Prop :=
  ∀ name labels labels', Targets calls name labels → Targets calls name labels' →
    labels.toList ≠ labels'.toList → flattened labels.toList ≠ flattened labels'.toList

/-- The series of the name under the text. -/
def Registry.filed (r : Registry V) (name k : Text) : Option (Series V) :=
  r.families[name]?.bind fun fam => fam.series[k]?

omit [Add V] [Zero V] [One V] in
theorem mem_series_iff {r : Registry V} {name : Text} {s : Series V} :
    (name, s) ∈ r.series ↔ ∃ k, r.filed name k = some s := by
  rw [mem_series]
  constructor
  · rintro ⟨fam, hfam, e, he, heq⟩
    obtain ⟨rfl, rfl⟩ := Prod.mk.inj heq
    rw [Std.TreeMap.mem_toList_iff_getElem?_eq_some] at hfam he
    exact ⟨e.1, by rw [Registry.filed, hfam, Option.bind_some, he]⟩
  · rintro ⟨k, hk⟩
    obtain ⟨fam, hfam, hs⟩ := Option.bind_eq_some_iff.mp hk
    exact ⟨(name, fam), Std.TreeMap.mem_toList_iff_getElem?_eq_some.mpr hfam, (k, s),
      Std.TreeMap.mem_toList_iff_getElem?_eq_some.mpr hs, rfl⟩

omit [Add V] [Zero V] [One V] in
theorem filed_withFamily (r : Registry V) (name : Text) (f : Family V → Family V) (n k : Text) :
    (r.withFamily name f).filed n k =
      if name = n then (f (r.families[name]?.getD {})).series[k]? else r.filed n k := by
  rw [Registry.filed, Registry.withFamily, Std.TreeMap.getElem?_alter]
  by_cases hn : name = n
  · subst hn
    simp
  · have hcmp : compare name n ≠ .eq := fun h => hn (Std.LawfulEqCmp.eq_of_compare h)
    rw [if_neg hcmp, if_neg hn]
    rfl

omit [Add V] [Zero V] [One V] in
theorem filed_family (r : Registry V) (name k : Text) :
    (r.families[name]?.getD {}).series[k]? = r.filed name k := by
  rw [Registry.filed]
  cases r.families[name]? <;> simp

/-- What a call does to the series under each text. -/
theorem filed_call (r : Registry V) (c : Call V) (n k : Text) :
    (r.call c).filed n k =
      match c.write with
      | none => r.filed n k
      | some (name, labels, f) =>
        if name = n ∧ key labels = k then
          some ⟨labels, f ((r.filed name (key labels)).map Series.value)⟩
        else r.filed n k := by
  have hgauge : ∀ (name : Text) (labels : Labels) (value : V),
      (r.setGauge name value labels).filed n k =
        if name = n ∧ key labels = k then some ⟨labels, value⟩ else r.filed n k := by
    intro name labels value
    rw [Registry.setGauge, filed_withFamily]
    by_cases hn : name = n
    · subst hn
      simp only [if_true, true_and]
      rw [Std.TreeMap.getElem?_insert, filed_family]
      simp
    · simp [hn]
  cases c with
  | setGauge name value labels => exact hgauge name labels value
  | setSensorGauge name sensor value => exact hgauge name _ value
  | addCounter name delta labels =>
    rw [Registry.call, Registry.addCounter, filed_withFamily, Call.write]
    by_cases hn : name = n
    · subst hn
      simp only [if_true, true_and]
      rw [Std.TreeMap.getElem?_alter, filed_family, filed_family]
      simp
    · simp [hn]
  | setHelp name help =>
    rw [Registry.call, Registry.setHelp, filed_withFamily, Call.write]
    by_cases hn : name = n
    · subst hn
      simp only [if_true]
      exact filed_family r name k
    · simp [hn]

theorem key_eq_flattened (labels : Labels) : key labels = flattened labels.toList := by
  rw [key]
  induction labels.toList with
  | nil => rfl
  | cons label ls ih =>
    rw [List.flatMap_cons, ih, flattened]
    simp

theorem key_congr {labels labels' : Labels} (h : labels.toList = labels'.toList) :
    key labels = key labels' := by
  rw [key, key, h]

theorem registryAfter_append (calls : List (Call V)) (c : Call V) :
    registryAfter (calls ++ [c]) = (registryAfter calls).call c := by
  rw [registryAfter, List.foldl_append]
  rfl

omit [One V] in
theorem reference_append (calls : List (Call V)) (c : Call V) :
    reference (calls ++ [c]) = (reference calls).call c := by
  rw [reference, List.foldl_append]
  rfl

omit [Add V] [Zero V] [One V] in
theorem filed_empty (name k : Text) : (({} : Registry V).filed name k) = none := by
  simp [Registry.filed]

/-- A series is filed under the text of its labels, and some call has written it. -/
theorem filed_target {calls : List (Call V)} {name k : Text} {s : Series V}
    (h : (registryAfter calls).filed name k = some s) :
    key s.labels = k ∧ Targets calls name s.labels := by
  induction calls using List.reverseRecOn with
  | nil =>
    rw [registryAfter, List.foldl_nil, filed_empty] at h
    cases h
  | append_singleton calls c ih =>
    have hold : (registryAfter calls).filed name k = some s →
        key s.labels = k ∧ Targets (calls ++ [c]) name s.labels := by
      intro hs
      obtain ⟨hkey, c', hc', hwrite⟩ := ih hs
      exact ⟨hkey, c', List.mem_append_left _ hc', hwrite⟩
    rw [registryAfter_append, filed_call] at h
    cases hwrite : c.write with
    | none =>
      rw [hwrite] at h
      exact hold h
    | some write =>
      obtain ⟨n, labels, f⟩ := write
      simp only [hwrite] at h
      split at h
      · next heq =>
        obtain ⟨rfl, rfl⟩ := heq
        cases h
        exact ⟨rfl, c, by simp, f, hwrite⟩
      · exact hold h

omit [One V] in
/-- The reference map has a value for what has been written, and for nothing else. -/
theorem reference_isSome_iff {calls : List (Call V)} {name : Text} {ls : LabelSet} :
    (reference calls name ls).isSome ↔
      ∃ labels, Targets calls name labels ∧ labels.toList = ls := by
  induction calls using List.reverseRecOn with
  | nil => simp [reference, Targets]
  | append_singleton calls c ih =>
    have htargets : ∀ labels, Targets (calls ++ [c]) name labels ↔
        Targets calls name labels ∨ ∃ f, c.write = some (name, labels, f) := by
      intro labels
      simp [Targets, or_and_right, exists_or]
    rw [reference_append, Reference.call]
    cases hwrite : c.write with
    | none => simp [htargets, hwrite, ih]
    | some write =>
      obtain ⟨n, labels, f⟩ := write
      dsimp only
      split
      · next heq =>
        obtain ⟨rfl, rfl⟩ := heq
        simp only [Option.isSome_some, true_iff]
        exact ⟨labels, (htargets labels).mpr (.inr ⟨f, hwrite⟩), rfl⟩
      · next hne =>
        rw [ih]
        constructor
        · rintro ⟨labels', htarget, hls⟩
          exact ⟨labels', (htargets labels').mpr (.inl htarget), hls⟩
        · rintro ⟨labels', htarget, rfl⟩
          rcases (htargets labels').mp htarget with htarget | ⟨f', hf'⟩
          · exact ⟨labels', htarget, rfl⟩
          · rw [hwrite, Option.some.injEq, Prod.mk.injEq, Prod.mk.injEq] at hf'
            exact absurd ⟨hf'.1.symm, hf'.2.1 ▸ rfl⟩ hne

/-- As long as the texts tell the label sets apart, every label set in use has the series
that the reference map gives it. -/
theorem filed_eq_reference {all calls : List (Call V)} (hapart : TextsApart all)
    (hcalls : ∀ c ∈ calls, c ∈ all) {name : Text} {labels : Labels}
    (htarget : Targets all name labels) :
    ((registryAfter calls).filed name (key labels)).map (fun s => (s.labels.toList, s.value)) =
      (reference calls name labels.toList).map fun v => (labels.toList, v) := by
  induction calls using List.reverseRecOn generalizing name labels with
  | nil =>
    rw [registryAfter, List.foldl_nil, filed_empty]
    rfl
  | append_singleton calls c ih =>
    have hbefore : ∀ c ∈ calls, c ∈ all := fun c' hc' => hcalls c' (List.mem_append_left _ hc')
    rw [registryAfter_append, filed_call, reference_append, Reference.call]
    cases hwrite : c.write with
    | none => exact ih hbefore htarget
    | some write =>
      obtain ⟨n, written, f⟩ := write
      have hwritten : Targets all n written := ⟨c, hcalls c (by simp), f, hwrite⟩
      dsimp only
      by_cases hn : n = name
      · subst hn
        have hiff : key written = key labels ↔ labels.toList = written.toList := by
          refine ⟨fun h => ?_, fun h => (key_congr h).symm⟩
          rw [key_eq_flattened, key_eq_flattened] at h
          by_contra hne
          exact hapart n written labels hwritten htarget (Ne.symm hne) h
        by_cases hkey : key written = key labels
        · have hvalue : ((registryAfter calls).filed n (key written)).map Series.value =
              reference calls n written.toList := by
            have hpair := congrArg (Option.map Prod.snd) (ih hbefore hwritten)
            simpa [Option.map_map, Function.comp_def] using hpair
          simp [hkey, hiff.mp hkey, ← hvalue]
        · have hls : ¬ labels.toList = written.toList := fun h => hkey (hiff.mpr h)
          simpa [hkey, hls] using ih hbefore htarget
      · simpa [hn, Ne.symm hn] using ih hbefore htarget

/-- Label names without `=` and values without `;` can be read back from the text. -/
def Separable (ls : LabelSet) : Prop := ∀ label ∈ ls, '=' ∉ label.1 ∧ ';' ∉ label.2

theorem append_cons_inj {c : Char} {s t s' t' : Text} (hs : c ∉ s) (hs' : c ∉ s')
    (h : s ++ c :: t = s' ++ c :: t') : s = s' ∧ t = t' := by
  induction s generalizing s' with
  | nil =>
    cases s' with
    | nil => exact ⟨rfl, (List.cons.inj h).2⟩
    | cons d s' =>
      have hd : c = d := (List.cons.inj h).1
      exact absurd (hd ▸ List.mem_cons_self) hs'
  | cons d s ih =>
    cases s' with
    | nil =>
      have hd : d = c := (List.cons.inj h).1
      exact absurd (hd ▸ List.mem_cons_self) hs
    | cons d' s' =>
      obtain ⟨rfl, hrest⟩ := List.cons.inj h
      obtain ⟨rfl, rfl⟩ := ih (fun hc => hs (List.mem_cons_of_mem _ hc))
        (fun hc => hs' (List.mem_cons_of_mem _ hc)) hrest
      exact ⟨rfl, rfl⟩

theorem flattened_inj {ls ls' : LabelSet} (h : Separable ls) (h' : Separable ls')
    (heq : flattened ls = flattened ls') : ls = ls' := by
  induction ls generalizing ls' with
  | nil =>
    cases ls' with
    | nil => rfl
    | cons label ls' => simp [flattened] at heq
  | cons label ls ih =>
    cases ls' with
    | nil => simp [flattened] at heq
    | cons label' ls' =>
      obtain ⟨hlabel, hls⟩ := List.forall_mem_cons.mp h
      obtain ⟨hlabel', hls'⟩ := List.forall_mem_cons.mp h'
      obtain ⟨hname, heq⟩ := append_cons_inj hlabel.1 hlabel'.1 heq
      obtain ⟨hvalue, heq⟩ := append_cons_inj hlabel.2 hlabel'.2 heq
      have hrest := ih hls hls' heq
      rw [hrest, Prod.ext hname hvalue]

/-- What is rendered for every name and label set is what the reference map holds, exactly
if no two label sets of one name read the same; and that they do not without a separator in a
label. -/
theorem registry_refines_iff (calls : List (Call V)) :
    ((∀ name ls value, (registryAfter calls).Renders name ls value ↔
      reference calls name ls = some value) ↔ TextsApart calls) ∧
      ((∀ name labels, Targets calls name labels → Separable labels.toList) →
        TextsApart calls) := by
  refine ⟨⟨?_, ?_⟩, fun hseparable => ?_⟩
  · intro h name labels labels' htarget htarget' hne hkey
    rw [← key_eq_flattened, ← key_eq_flattened] at hkey
    have hfiled : ∀ labels, Targets calls name labels → ∃ s, s.labels.toList = labels.toList ∧
        (registryAfter calls).filed name (key labels) = some s := by
      intro labels htarget
      obtain ⟨value, hvalue⟩ := Option.isSome_iff_exists.mp
        (reference_isSome_iff.mpr ⟨labels, htarget, rfl⟩)
      obtain ⟨s, hs, hls, _⟩ := (h name labels.toList value).mpr hvalue
      obtain ⟨k, hk⟩ := mem_series_iff.mp hs
      refine ⟨s, hls, ?_⟩
      rwa [← key_congr hls, (filed_target hk).1]
    obtain ⟨s, hls, hs⟩ := hfiled labels htarget
    obtain ⟨s', hls', hs'⟩ := hfiled labels' htarget'
    rw [← hkey, hs] at hs'
    exact hne (by rw [← hls, ← hls', Option.some.inj hs'])
  · intro hapart name ls value
    have hfiled : ∀ {labels}, Targets calls name labels →
        ((registryAfter calls).filed name (key labels)).map (fun s => (s.labels.toList, s.value)) =
          (reference calls name labels.toList).map fun v => (labels.toList, v) :=
      fun htarget => filed_eq_reference hapart (fun _ hc => hc) htarget
    constructor
    · rintro ⟨s, hs, rfl, rfl⟩
      obtain ⟨k, hk⟩ := mem_series_iff.mp hs
      obtain ⟨rfl, htarget⟩ := filed_target hk
      have heq := hfiled htarget
      rw [hk] at heq
      simpa using heq.symm
    · intro hvalue
      obtain ⟨labels, htarget, rfl⟩ := reference_isSome_iff.mp (Option.isSome_of_eq_some hvalue)
      have heq := hfiled htarget
      rw [hvalue, Option.map_some] at heq
      obtain ⟨s, hs, hpair⟩ := Option.map_eq_some_iff.mp heq
      obtain ⟨hls, hv⟩ := Prod.mk.inj hpair
      exact ⟨s, mem_series_iff.mpr ⟨_, hs⟩, hls, hv⟩
  · intro name labels labels' htarget htarget' hne htext
    exact hne (flattened_inj (hseparable name labels htarget) (hseparable name labels' htarget')
      htext)

/-- `{a="1;b=2"}` and `{a="1",b="2"}` have the same text. -/
def collidingCalls : List Call :=
  [.setGauge ['g'] 1 (Std.TreeMap.ofList [(['a'], ['1', ';', 'b', '=', '2'])]),
    .setGauge ['g'] 2 (Std.TreeMap.ofList [(['a'], ['1']), (['b'], ['2'])])]

theorem registry_overwrites :
    ¬ ∀ (calls : List Call) (name : Text) (ls : LabelSet) (value : Int),
      (registryAfter calls).Renders name ls value ↔ reference calls name ls = some value := by
  intro h
  obtain ⟨s, hs, hls, _⟩ :=
    (h collidingCalls ['g'] [(['a'], ['1', ';', 'b', '=', '2'])] 1).mpr (by decide)
  have hall : ∀ e ∈ (registryAfter collidingCalls).series,
      e.2.labels.toList ≠ [(['a'], ['1', ';', 'b', '=', '2'])] := by decide
  exact hall _ hs hls

end SensorForge.Metrics
