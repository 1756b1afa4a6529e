import Mathlib

/-! Regular expressions with captures as a backtracking engine runs them: what a pattern
can match at the start of a text, in the order in which the engine tries it. -/

namespace Backtracking

variable {τ α β : Type*}

/-- The captures and remainders of all matches at the start of the text, the preferred
one first. -/
abbrev Pattern (τ α : Type*) := List τ → List (α × List τ)

def one (p : τ → Bool) : Pattern τ τ
  | c :: rest => if p c then [(c, rest)] else []
  | [] => []

def Pattern.bind (m : Pattern τ α) (f : α → Pattern τ β) : Pattern τ β :=
  fun s => (m s).flatMap fun a => f a.1 a.2

def Pattern.map (m : Pattern τ α) (f : α → β) : Pattern τ β :=
  fun s => (m s).map fun a => (f a.1, a.2)

/-- The first alternative is tried before the second. -/
def Pattern.alt (m m' : Pattern τ α) : Pattern τ α := fun s => m s ++ m' s

def Pattern.optional (m : Pattern τ α) : Pattern τ (Option α) :=
  fun s => (m s).map (fun a => (some a.1, a.2)) ++ [(none, s)]

def starFrom (m : Pattern τ α) (s : List τ) : List (List α × List τ) :=
  (m s).flatMap (fun a =>
    if _h : a.2.length < s.length then (starFrom m a.2).map fun as => (a.1 :: as.1, as.2)
    else []) ++ [([], s)]
termination_by s.length

/-- Greedy repetition: as often as possible first. -/
def Pattern.star (m : Pattern τ α) : Pattern τ (List α) := starFrom m

def Pattern.plus (m : Pattern τ α) : Pattern τ (List α) :=
  m.bind fun a => m.star.map fun as => a :: as

/-- The match that the engine reports. -/
def Pattern.first (m : Pattern τ α) (s : List τ) : Option (α × List τ) := (m s).head?

/-- All matches from left to right, each search starting where the last match has ended. -/
def Pattern.findAll (m : Pattern τ α) : List τ → List α
  | [] => []
  | c :: rest =>
    match m.first (c :: rest) with
    | some a => if _h : a.2.length ≤ rest.length then a.1 :: m.findAll a.2 else m.findAll rest
    | none => m.findAll rest
termination_by s => s.length

theorem head?_flatMap {l : List α} {f : α → List β} {a : α} {b : β} (ha : l.head? = some a)
    (hb : (f a).head? = some b) : (l.flatMap f).head? = some b := by
  obtain ⟨l, rfl⟩ := List.head?_eq_some_iff.mp ha
  rw [List.flatMap_cons, List.head?_append, hb]
  rfl

theorem first_bind {m : Pattern τ α} {f : α → Pattern τ β} {s r : List τ} {a : α}
    {b : β × List τ} (ha : m.first s = some (a, r)) (hb : (f a).first r = some b) :
    (m.bind f).first s = some b :=
  head?_flatMap ha hb

theorem first_map {m : Pattern τ α} {f : α → β} {s r : List τ} {a : α}
    (ha : m.first s = some (a, r)) : (m.map f).first s = some (f a, r) := by
  rw [Pattern.first, Pattern.map, List.head?_map]
  exact congrArg (Option.map _) ha

theorem first_alt {m m' : Pattern τ α} {s : List τ} {a : α × List τ} (ha : m.first s = some a) :
    (m.alt m').first s = some a := by
  have ha : (m s).head? = some a := ha
  rw [Pattern.first, Pattern.alt, List.head?_append, ha]
  rfl

theorem first_alt_right {m m' : Pattern τ α} {s : List τ} (ha : m s = []) :
    (m.alt m').first s = m'.first s := by
  rw [Pattern.first, Pattern.alt, ha]
  rfl

theorem first_optional {m : Pattern τ α} {s r : List τ} {a : α} (ha : m.first s = some (a, r)) :
    m.optional.first s = some (some a, r) := by
  have ha : (m s).head? = some (a, r) := ha
  rw [Pattern.first, Pattern.optional, List.head?_append, List.head?_map, ha]
  rfl

theorem first_optional_none {m : Pattern τ α} {s : List τ} (ha : m s = []) :
    m.optional.first s = some (none, s) := by
  rw [Pattern.first, Pattern.optional, ha]
  rfl

theorem first_one {p : τ → Bool} {c : τ} (hc : p c = true) (rest : List τ) :
    (one p).first (c :: rest) = some (c, rest) := by
  rw [Pattern.first, one, if_pos hc]
  rfl

theorem one_eq_nil {p : τ → Bool} {s : List τ} (h : ∀ c, s.head? = some c → p c = false) :
    one p s = [] := by
  cases s with
  | nil => rfl
  | cons c rest => exact if_neg (by simp [h c rfl])

theorem star_stop {m : Pattern τ α} {s : List τ} (h : m s = []) : m.star s = [([], s)] := by
  rw [Pattern.star, starFrom, h]
  rfl

theorem first_star_cons {m : Pattern τ α} {s r : List τ} {a : α} {as : List α × List τ}
    (ha : m.first s = some (a, r)) (hr : r.length < s.length) (has : m.star.first r = some as) :
    m.star.first s = some (a :: as.1, as.2) := by
  have hflat := head?_flatMap (f := fun a : α × List τ =>
    if _h : a.2.length < s.length then (starFrom m a.2).map fun as => (a.1 :: as.1, as.2)
    else []) (b := (a :: as.1, as.2)) ha (by
      rw [dif_pos hr, List.head?_map]
      exact congrArg (Option.map _) has)
  rw [Pattern.first, Pattern.star, starFrom, List.head?_append, hflat]
  rfl

theorem first_star_one {p : τ → Bool} {xs rest : List τ} (hxs : ∀ x ∈ xs, p x = true)
    (hrest : ∀ c, rest.head? = some c → p c = false) :
    (one p).star.first (xs ++ rest) = some (xs, rest) := by
  induction xs with
  | nil =>
    rw [List.nil_append, Pattern.first, star_stop (one_eq_nil hrest)]
    rfl
  | cons x xs ih =>
    have hh := ih fun y hy => hxs y (List.mem_cons_of_mem x hy)
    exact first_star_cons (first_one (hxs x List.mem_cons_self) (xs ++ rest))
      (Nat.lt_succ_self _) hh

theorem first_plus {m : Pattern τ α} {s r : List τ} {a : α} {as : List α × List τ}
    (ha : m.first s = some (a, r)) (has : m.star.first r = some as) :
    m.plus.first s = some (a :: as.1, as.2) :=
  first_bind ha (first_map has)

theorem first_plus_one {p : τ → Bool} {x : τ} {xs rest : List τ} (hx : p x = true)
    (hxs : ∀ x ∈ xs, p x = true) (hrest : ∀ c, rest.head? = some c → p c = false) :
    (one p).plus.first (x :: xs ++ rest) = some (x :: xs, rest) :=
  first_plus (first_one hx (xs ++ rest)) (first_star_one hxs hrest)

theorem findAll_cons {m : Pattern τ α} {s r : List τ} {a : α} (ha : m.first s = some (a, r))
    (hr : r.length < s.length) : m.findAll s = a :: m.findAll r := by
  cases s with
  | nil => exact absurd hr (Nat.not_lt_zero _)
  | cons c rest =>
    rw [Pattern.findAll, ha]
    exact dif_pos (Nat.le_of_lt_succ hr)

theorem findAll_skip {m : Pattern τ α} {c : τ} {rest : List τ} (h : m (c :: rest) = []) :
    m.findAll (c :: rest) = m.findAll rest := by
  have hnone : m.first (c :: rest) = none := by
    rw [Pattern.first, h]
    rfl
  rw [Pattern.findAll, hnone]

section Sound

variable {L : α → List τ → Prop} {M : β → List τ → Prop}

/-- Every match is one of the language: `L a t` says that the text `t` has the captures `a`. -/
def Pattern.Sound (m : Pattern τ α) (L : α → List τ → Prop) : Prop :=
  ∀ s, ∀ a ∈ m s, ∃ t, s = t ++ a.2 ∧ L a.1 t

theorem sound_one (p : τ → Bool) : (one p).Sound fun c t => t = [c] ∧ p c = true := by
  intro s a ha
  cases s with
  | nil => cases ha
  | cons c rest =>
    rw [one] at ha
    split at ha
    · next hp =>
      rw [List.mem_singleton.mp ha]
      exact ⟨[c], rfl, rfl, hp⟩
    · cases ha

theorem Pattern.Sound.bind {m : Pattern τ α} {f : α → Pattern τ β} {N : α → β → List τ → Prop}
    (hm : m.Sound L) (hf : ∀ a, (f a).Sound (N a))
    (h : ∀ a b t u, L a t → N a b u → M b (t ++ u)) : (m.bind f).Sound M := by
  intro s b hb
  obtain ⟨a, ha, hb⟩ := List.mem_flatMap.mp hb
  obtain ⟨t, hs, ht⟩ := hm s a ha
  obtain ⟨u, hrest, hu⟩ := hf a.1 a.2 b hb
  exact ⟨t ++ u, by rw [hs, hrest, List.append_assoc], h a.1 b.1 t u ht hu⟩

theorem Pattern.Sound.map {m : Pattern τ α} {f : α → β} (hm : m.Sound L)
    (h : ∀ a t, L a t → M (f a) t) : (m.map f).Sound M := by
  intro s b hb
  obtain ⟨a, ha, rfl⟩ := List.mem_map.mp hb
  obtain ⟨t, hs, ht⟩ := hm s a ha
  exact ⟨t, hs, h a.1 t ht⟩

theorem Pattern.Sound.alt {m m' : Pattern τ α} (hm : m.Sound L) (hm' : m'.Sound L) :
    (m.alt m').Sound L := by
  intro s a ha
  rcases List.mem_append.mp ha with ha | ha
  · exact hm s a ha
  · exact hm' s a ha

theorem Pattern.Sound.optional {m : Pattern τ α} (hm : m.Sound L) :
    m.optional.Sound fun a t => (a = none ∧ t = []) ∨ ∃ b, a = some b ∧ L b t := by
  intro s a ha
  rcases List.mem_append.mp ha with ha | ha
  · obtain ⟨b, hb, rfl⟩ := List.mem_map.mp ha
    obtain ⟨t, hs, ht⟩ := hm s b hb
    exact ⟨t, hs, .inr ⟨b.1, rfl, ht⟩⟩
  · rw [List.mem_singleton.mp ha]
    exact ⟨[], rfl, .inl ⟨rfl, rfl⟩⟩

theorem Pattern.Sound.star {m : Pattern τ α} {N : List α → List τ → Prop} (hm : m.Sound L)
    (hnil : N [] []) (hcons : ∀ a as t u, L a t → N as u → N (a :: as) (t ++ u)) :
    m.star.Sound N := by
  intro s
  induction h : s.length using Nat.strong_induction_on generalizing s with
  | _ n ih =>
    subst h
    intro as has
    rw [Pattern.star, starFrom] at has
    rcases List.mem_append.mp has with has | has
    · obtain ⟨a, ha, has⟩ := List.mem_flatMap.mp has
      obtain ⟨t, hs, ht⟩ := hm s a ha
      split at has
      · next hlt =>
        obtain ⟨bs, hbs, rfl⟩ := List.mem_map.mp has
        obtain ⟨u, hrest, hu⟩ := ih _ hlt a.2 rfl bs hbs
        exact ⟨t ++ u, by rw [hs, hrest, List.append_assoc], hcons a.1 bs.1 t u ht hu⟩
      · cases has
    · rw [List.mem_singleton.mp has]
      exact ⟨[], rfl, hnil⟩

theorem sound_star_one (p : τ → Bool) :
    (one p).star.Sound fun as t => t = as ∧ ∀ c ∈ as, p c = true := by
  refine (sound_one p).star ⟨rfl, fun c hc => absurd hc List.not_mem_nil⟩ ?_
  rintro a as t u ⟨rfl, ha⟩ ⟨rfl, has⟩
  exact ⟨rfl, List.forall_mem_cons.mpr ⟨ha, has⟩⟩

theorem sound_plus_one (p : τ → Bool) :
    (one p).plus.Sound fun as t => t = as ∧ as ≠ [] ∧ ∀ c ∈ as, p c = true := by
  refine (sound_one p).bind (N := fun a as u => ∃ bs, as = a :: bs ∧ u = bs ∧ ∀ c ∈ bs, p c = true)
    (fun a => (sound_star_one p).map ?_) ?_
  · rintro bs t ⟨rfl, hbs⟩
    exact ⟨t, rfl, rfl, hbs⟩
  · rintro a as t u ⟨rfl, ha⟩ ⟨bs, rfl, rfl, hbs⟩
    exact ⟨rfl, List.cons_ne_nil a u, List.forall_mem_cons.mpr ⟨ha, hbs⟩⟩

theorem Pattern.Sound.first {m : Pattern τ α} (hm : m.Sound L) {s : List τ} {a : α × List τ}
    (ha : m.first s = some a) : ∃ t, s = t ++ a.2 ∧ L a.1 t :=
  hm s a (List.mem_of_mem_head? ha)

theorem Pattern.Sound.findAll {m : Pattern τ α} (hm : m.Sound L) (s : List τ) :
    ∀ a ∈ m.findAll s, ∃ t, t ⊆ s ∧ L a t := by
  fun_induction Pattern.findAll m s with
  | case1 => exact fun a ha => absurd ha List.not_mem_nil
  | case2 c rest a ha hlen ih =>
    obtain ⟨t, hs, ht⟩ := hm.first ha
    refine List.forall_mem_cons.mpr ⟨⟨t, ?_, ht⟩, fun b hb => ?_⟩
    · rw [hs]
      exact List.subset_append_left t a.2
    · obtain ⟨u, hu, hb⟩ := ih b hb
      refine ⟨u, List.Subset.trans hu ?_, hb⟩
      rw [hs]
      exact List.subset_append_right t a.2
  | case3 c rest a ha hlen ih =>
    intro b hb
    obtain ⟨u, hu, hb⟩ := ih b hb
    exact ⟨u, List.subset_cons_of_subset c hu, hb⟩
  | case4 c rest hnone ih =>
    intro b hb
    obtain ⟨u, hu, hb⟩ := ih b hb
    exact ⟨u, List.subset_cons_of_subset c hu, hb⟩

end Sound

end Backtracking
