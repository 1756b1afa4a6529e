import SensorForge.TransitionSystem

/-! The sequence lock with one writer and any number of readers, interleaved at the
accesses to the counter and to every single byte. -/

namespace SensorForge.Core

open Transition

abbrev Value (n : Nat) := Fin n → UInt8

structure Seqlock (n : Nat) where
  seq : UInt64 := 0
  data : Value n

/-- Where a call of `store` stands. In the byte loop, `i` is the loop counter. -/
inductive StorePc (n : Nat) where
  | loadSeq (desired : Value n)
  | storeOdd (desired : Value n) (seq : UInt64)
  | writeRelaxed (desired : Value n) (seq : UInt64) (i : Nat)

def StorePc.step {n : Nat} (lock : Seqlock n) : StorePc n → Seqlock n × Option (StorePc n)
  | .loadSeq desired => (lock, some (.storeOdd desired lock.seq))
  | .storeOdd desired seq => ({ lock with seq := seq + 1 }, some (.writeRelaxed desired seq 0))
  | .writeRelaxed desired seq i =>
    if h : i < n then
      ({ lock with data := Function.update lock.data ⟨i, h⟩ (desired ⟨i, h⟩) },
        some (.writeRelaxed desired seq (i + 1)))
    else ({ lock with seq := seq + 2 }, none)

inductive LoadPc (n : Nat) where
  | loadSeq
  | readRelaxed (seq0 : UInt64) (i : Nat) (tmp : Value n)

/-- One step of `load`. An odd counter leads to the loop condition, which is then true. -/
def LoadPc.step {n : Nat} (lock : Seqlock n) : LoadPc n → LoadPc n ⊕ Value n
  | .loadSeq =>
    if lock.seq &&& 1 ≠ 0 then .inl .loadSeq else .inl (.readRelaxed lock.seq 0 fun _ => 0)
  | .readRelaxed seq0 i tmp =>
    if h : i < n then .inl (.readRelaxed seq0 (i + 1) (Function.update tmp ⟨i, h⟩ (lock.data ⟨i, h⟩)))
    else if seq0 &&& 1 ≠ 0 ∨ seq0 ≠ lock.seq then .inl .loadSeq
    else .inr tmp

structure Loading (n : Nat) where
  begun : Nat
  pc : LoadPc n

/-- The lock, its threads, and what they have done: the initial value followed by the
arguments of all stores, the number of completed stores, and for every reader the
values its loads returned. -/
structure Shared (n : Nat) (ρ : Type*) where
  lock : Seqlock n
  writer : Option (StorePc n) := none
  readers : ρ → Option (Loading n) := fun _ => none
  values : List (Value n)
  completed : Nat := 0
  returned : ρ → List (Nat × Value n) := fun _ => []

inductive SeqlockAction (n : Nat) (ρ : Type*) where
  | callStore (desired : Value n)
  | stepStore
  | callLoad (r : ρ)
  | stepLoad (r : ρ)

variable {n : Nat} {ρ : Type*}

def Shared.create (initial : Value n) : Shared n ρ :=
  { lock := { data := initial }, values := [initial] }

def Shared.next [DecidableEq ρ] (s : Shared n ρ) : SeqlockAction n ρ → Option (Shared n ρ)
  | .callStore desired =>
    if s.writer.isNone then
      some { s with writer := some (.loadSeq desired), values := s.values ++ [desired] }
    else none
  | .stepStore => s.writer.map fun pc =>
    match pc.step s.lock with
    | (lock, some pc') => { s with lock, writer := some pc' }
    | (lock, none) => { s with lock, writer := none, completed := s.completed + 1 }
  | .callLoad r =>
    if (s.readers r).isNone then
      some { s with readers := Function.update s.readers r (some ⟨s.completed, .loadSeq⟩) }
    else none
  | .stepLoad r => (s.readers r).map fun loading =>
    match loading.pc.step s.lock with
    | .inl pc => { s with readers := Function.update s.readers r (some ⟨loading.begun, pc⟩) }
    | .inr out =>
      { s with
        readers := Function.update s.readers r none
        returned := Function.update s.returned r (s.returned r ++ [(loading.begun, out)]) }

def Shared.system (n : Nat) (ρ : Type*) [DecidableEq ρ] :
    System (Shared n ρ) (SeqlockAction n ρ) where
  start s := ∃ initial, s = Shared.create initial
  next := Shared.next

structure Seqlock.Stable (lock : Seqlock n) (values : List (Value n)) (completed : Nat) : Prop where
  seq : lock.seq.toNat = 2 * completed
  data : values[completed]? = some lock.data

def Seqlock.WriterInv (lock : Seqlock n) (values : List (Value n)) (completed : Nat) :
    Option (StorePc n) → Prop
  | none => values.length = completed + 1 ∧ lock.Stable values completed
  | some (.loadSeq desired) =>
    values.length = completed + 2 ∧ values[completed + 1]? = some desired ∧
      lock.Stable values completed
  | some (.storeOdd desired seq) =>
    values.length = completed + 2 ∧ values[completed + 1]? = some desired ∧
      lock.Stable values completed ∧ seq = lock.seq
  | some (.writeRelaxed desired seq i) =>
    values.length = completed + 2 ∧ values[completed + 1]? = some desired ∧
      seq.toNat = 2 * completed ∧ lock.seq.toNat = 2 * completed + 1 ∧ i ≤ n ∧
      ∀ j : Fin n, j < i → lock.data j = desired j

/-- What holds at each point of a load: unless the counter has moved on, the bytes read
so far are those of one value. -/
def Seqlock.LoadInv (lock : Seqlock n) (values : List (Value n)) (begun : Nat) : LoadPc n → Prop
  | .loadSeq => True
  | .readRelaxed seq0 i tmp =>
    i ≤ n ∧ ∃ k, seq0.toNat = 2 * k ∧ begun ≤ k ∧ seq0.toNat ≤ lock.seq.toNat ∧
      (lock.seq = seq0 → ∃ v, values[k]? = some v ∧ ∀ j : Fin n, j < i → tmp j = v j)

def Explains (values : List (Value n)) (k : Nat) (loaded : Nat × Value n) : Prop :=
  loaded.1 ≤ k ∧ values[k]? = some loaded.2

theorem update_agrees {f v : Value n} {i : Nat} (hlt : i < n) (h : ∀ j : Fin n, j < i → f j = v j) :
    ∀ j : Fin n, j < i + 1 → Function.update f ⟨i, hlt⟩ (v ⟨i, hlt⟩) j = v j := by
  intro j hj
  by_cases hji : j = ⟨i, hlt⟩
  · rw [hji, Function.update_self]
  · rw [Function.update_of_ne hji]
    refine h j (lt_of_le_of_ne (Nat.lt_succ_iff.mp hj) ?_)
    exact fun hval => hji (Fin.ext hval)

theorem getElem?_of_prefix {values values' : List (Value n)} (h : values <+: values') {k : Nat}
    {v : Value n} (hv : values[k]? = some v) : values'[k]? = some v := by
  obtain ⟨more, rfl⟩ := h
  rw [List.getElem?_append_left (List.getElem?_eq_some_iff.mp hv).1, hv]

section Steps

variable {lock lock' : Seqlock n} {values values' : List (Value n)} {completed begun : Nat}

theorem Seqlock.WriterInv.data_of_even {writer : Option (StorePc n)}
    (h : lock.WriterInv values completed writer) {k : Nat} (hk : lock.seq.toNat = 2 * k) :
    k = completed ∧ values[k]? = some lock.data := by
  have hstable : lock.Stable values completed := by
    unfold Seqlock.WriterInv at h
    split at h
    · exact h.2
    · exact h.2.2
    · exact h.2.2.1
    · omega
  have hkc : k = completed := by
    have := hstable.seq
    omega
  exact ⟨hkc, hkc ▸ hstable.data⟩

theorem Seqlock.WriterInv.step {pc : StorePc n} (h : lock.WriterInv values completed (some pc))
    (hbound : values.length ≤ 2 ^ 63) :
    lock.seq.toNat ≤ (pc.step lock).1.seq.toNat ∧
      (pc.step lock).1.WriterInv values (completed + if (pc.step lock).2.isNone then 1 else 0)
        (pc.step lock).2 := by
  cases pc with
  | loadSeq desired =>
    obtain ⟨hlen, hvalue, hstable⟩ := h
    exact ⟨le_refl _, hlen, hvalue, hstable, rfl⟩
  | storeOdd desired seq =>
    obtain ⟨hlen, hvalue, hstable, rfl⟩ := h
    have hseq := hstable.seq
    have hodd : (lock.seq + 1).toNat = 2 * completed + 1 := by
      rw [UInt64.toNat_add, UInt64.toNat_one, hseq]
      omega
    refine ⟨?_, hlen, hvalue, hseq, hodd, Nat.zero_le _, ?_⟩
    · simp only [StorePc.step, hodd, hseq]
      omega
    · intro j hj
      cases hj
  | writeRelaxed desired seq i =>
    obtain ⟨hlen, hvalue, hseq, hodd, hi, hbytes⟩ := h
    by_cases hlt : i < n
    · simp only [StorePc.step, dif_pos hlt]
      exact ⟨le_refl _, hlen, hvalue, hseq, hodd, hlt, update_agrees hlt hbytes⟩
    · have heven : (seq + 2).toNat = 2 * (completed + 1) := by
        rw [UInt64.toNat_add, hseq]
        have htwo : (2 : UInt64).toNat = 2 := rfl
        omega
      have hdata : lock.data = desired := by
        funext j
        exact hbytes j (by omega)
      simp only [StorePc.step, dif_neg hlt]
      refine ⟨?_, hlen, heven, ?_⟩
      · rw [heven, hodd]
        omega
      · rw [hdata]
        exact hvalue

theorem Seqlock.LoadInv.of_writer {pc : LoadPc n} (h : lock.LoadInv values begun pc)
    (hseq : lock.seq.toNat ≤ lock'.seq.toNat) (hvalues : values <+: values') :
    lock'.LoadInv values' begun pc := by
  cases pc with
  | loadSeq => trivial
  | readRelaxed seq0 i tmp =>
    obtain ⟨hi, k, hk, hle, hseq0, hbytes⟩ := h
    refine ⟨hi, k, hk, hle, hseq0.trans hseq, ?_⟩
    intro heq
    have hsame : lock.seq = seq0 := by
      rw [heq] at hseq
      exact UInt64.toNat_inj.mp (le_antisymm hseq hseq0)
    obtain ⟨v, hv, hbytes⟩ := hbytes hsame
    exact ⟨v, getElem?_of_prefix hvalues hv, hbytes⟩

theorem Seqlock.LoadInv.step {pc : LoadPc n} (h : lock.LoadInv values begun pc)
    {writer : Option (StorePc n)} (hwriter : lock.WriterInv values completed writer)
    (hbegun : begun ≤ completed) :
    match pc.step lock with
    | .inl pc' => lock.LoadInv values begun pc'
    | .inr out => Explains values completed (begun, out) := by
  cases pc with
  | loadSeq =>
    by_cases hodd : lock.seq &&& 1 ≠ 0
    · simp only [LoadPc.step, if_pos hodd]
      trivial
    · simp only [LoadPc.step, if_neg hodd]
      have heven : lock.seq.toNat % 2 = 0 := by
        have hand := congrArg UInt64.toNat (not_not.mp hodd)
        rwa [UInt64.toNat_and, UInt64.toNat_one, Nat.and_one_is_mod, UInt64.toNat_zero] at hand
      have hk : lock.seq.toNat = 2 * (lock.seq.toNat / 2) := by omega
      obtain ⟨hkc, hdata⟩ := hwriter.data_of_even hk
      refine ⟨Nat.zero_le _, _, hk, hkc ▸ hbegun, le_refl _, fun _ => ⟨_, hdata, ?_⟩⟩
      intro j hj
      cases hj
  | readRelaxed seq0 i tmp =>
    obtain ⟨hi, k, hk, hle, hseq0, hbytes⟩ := h
    by_cases hlt : i < n
    · simp only [LoadPc.step, dif_pos hlt]
      refine ⟨hlt, k, hk, hle, hseq0, ?_⟩
      intro heq
      obtain ⟨v, hv, hbytes⟩ := hbytes heq
      have hdata := (hwriter.data_of_even (heq ▸ hk)).2
      obtain rfl : v = lock.data := Option.some.inj (hv.symm.trans hdata)
      exact ⟨_, hv, update_agrees hlt hbytes⟩
    · simp only [LoadPc.step, dif_neg hlt]
      by_cases hretry : seq0 &&& 1 ≠ 0 ∨ seq0 ≠ lock.seq
      · simp only [if_pos hretry]
        trivial
      · simp only [if_neg hretry]
        have heq : lock.seq = seq0 := (not_not.mp (not_or.mp hretry).2).symm
        obtain ⟨v, hv, hbytes⟩ := hbytes heq
        obtain ⟨rfl, _⟩ := hwriter.data_of_even (heq ▸ hk)
        have htmp : tmp = v := by
          funext j
          exact hbytes j (by omega)
        exact ⟨hle, htmp ▸ hv⟩

end Steps

def Logged (values : List (Value n)) (bound : Nat) (log : List (Nat × Value n)) : Prop :=
  ∃ ks, List.Forall₂ (Explains values) ks log ∧ ks.Pairwise (· ≤ ·) ∧ ∀ k ∈ ks, k ≤ bound

theorem Logged.mono {values values' : List (Value n)} {bound bound' : Nat}
    {log : List (Nat × Value n)} (h : Logged values bound log) (hvalues : values <+: values')
    (hbound : bound ≤ bound') : Logged values' bound' log := by
  obtain ⟨ks, hks, hsorted, hle⟩ := h
  exact ⟨ks, hks.imp fun k l hkl => ⟨hkl.1, getElem?_of_prefix hvalues hkl.2⟩, hsorted,
    fun k hk => (hle k hk).trans hbound⟩

theorem Logged.concat {values : List (Value n)} {bound k : Nat} {log : List (Nat × Value n)}
    {loaded : Nat × Value n} (h : Logged values bound log) (hbound : bound ≤ k)
    (hk : Explains values k loaded) : Logged values k (log ++ [loaded]) := by
  obtain ⟨ks, hks, hsorted, hle⟩ := h
  refine ⟨ks ++ [k], List.rel_append hks (List.Forall₂.cons hk List.Forall₂.nil), ?_, ?_⟩
  · refine List.pairwise_append.mpr ⟨hsorted, List.pairwise_singleton _ _, ?_⟩
    intro i hi j hj
    rw [List.mem_singleton.mp hj]
    exact (hle i hi).trans hbound
  · intro i hi
    rcases List.mem_append.mp hi with hi | hi
    · exact (hle i hi).trans hbound
    · exact le_of_eq (List.mem_singleton.mp hi)

def Seqlock.ReaderInv (lock : Seqlock n) (values : List (Value n)) (completed : Nat)
    (log : List (Nat × Value n)) : Option (Loading n) → Prop
  | none => Logged values completed log
  | some l => l.begun ≤ completed ∧ lock.LoadInv values l.begun l.pc ∧ Logged values l.begun log

theorem Seqlock.ReaderInv.of_writer {lock lock' : Seqlock n} {values values' : List (Value n)}
    {completed completed' : Nat} {log : List (Nat × Value n)} {reader : Option (Loading n)}
    (h : lock.ReaderInv values completed log reader) (hseq : lock.seq.toNat ≤ lock'.seq.toNat)
    (hvalues : values <+: values') (hcompleted : completed ≤ completed') :
    lock'.ReaderInv values' completed' log reader := by
  cases reader with
  | none => exact Logged.mono h hvalues hcompleted
  | some l =>
    obtain ⟨hbegun, hload, hlog⟩ := h
    exact ⟨hbegun.trans hcompleted, hload.of_writer hseq hvalues, hlog.mono hvalues (le_refl _)⟩

structure Shared.Inv (s : Shared n ρ) : Prop where
  writer : s.lock.WriterInv s.values s.completed s.writer
  readers : ∀ r, s.lock.ReaderInv s.values s.completed (s.returned r) (s.readers r)

theorem Shared.Inv.create (initial : Value n) : (Shared.create initial : Shared n ρ).Inv :=
  ⟨⟨rfl, rfl, rfl⟩, fun _ => ⟨[], List.Forall₂.nil, List.Pairwise.nil, by simp⟩⟩

theorem Shared.Inv.update_reader [DecidableEq ρ] {s : Shared n ρ} (h : s.Inv) (r : ρ)
    (reader : Option (Loading n)) (log : List (Nat × Value n))
    (hr : s.lock.ReaderInv s.values s.completed log reader) :
    Shared.Inv { s with
      readers := Function.update s.readers r reader
      returned := Function.update s.returned r log } := by
  refine ⟨h.writer, fun q => ?_⟩
  by_cases hq : q = r
  · subst hq
    simpa using hr
  · simpa [Function.update_of_ne hq] using h.readers q

theorem Shared.Inv.callStore [DecidableEq ρ] {s t : Shared n ρ} {desired : Value n} (h : s.Inv)
    (hn : s.next (.callStore desired) = some t) : t.Inv := by
  obtain ⟨hidle, ht⟩ := Option.ite_none_right_eq_some.mp hn
  cases ht
  have hwriter := h.writer
  rw [Option.isNone_iff_eq_none.mp hidle] at hwriter
  obtain ⟨hlen, hstable⟩ := hwriter
  have hpre : s.values <+: s.values ++ [desired] := List.prefix_append _ _
  refine ⟨⟨?_, ?_, hstable.seq, getElem?_of_prefix hpre hstable.data⟩,
    fun r => (h.readers r).of_writer (le_refl _) hpre (le_refl _)⟩
  · rw [List.length_append, hlen, List.length_singleton]
  · simp [← hlen]

theorem Shared.Inv.stepStore [DecidableEq ρ] {s t : Shared n ρ} (h : s.Inv)
    (hbound : s.values.length ≤ 2 ^ 63) (hn : s.next .stepStore = some t) : t.Inv := by
  obtain ⟨pc, hpc, ht⟩ := Option.map_eq_some_iff.mp hn
  have hwriter := h.writer
  rw [hpc] at hwriter
  obtain ⟨hseq, hstep⟩ := hwriter.step hbound
  rcases hres : pc.step s.lock with ⟨lock, pc' | _⟩
  · rw [hres] at hseq hstep ht
    subst ht
    exact ⟨hstep, fun r => (h.readers r).of_writer hseq (List.prefix_refl _) (Nat.le_succ _)⟩
  · rw [hres] at hseq hstep ht
    subst ht
    exact ⟨hstep, fun r => (h.readers r).of_writer hseq (List.prefix_refl _) (le_refl _)⟩

theorem Shared.Inv.callLoad [DecidableEq ρ] {s t : Shared n ρ} {r : ρ} (h : s.Inv)
    (hn : s.next (.callLoad r) = some t) : t.Inv := by
  obtain ⟨hidle, ht⟩ := Option.ite_none_right_eq_some.mp hn
  cases ht
  have hreader := h.readers r
  rw [Option.isNone_iff_eq_none.mp hidle] at hreader
  have hupdate := h.update_reader r (some ⟨s.completed, .loadSeq⟩) (s.returned r)
    ⟨le_refl _, trivial, hreader⟩
  rwa [Function.update_eq_self] at hupdate

theorem Shared.Inv.stepLoad [DecidableEq ρ] {s t : Shared n ρ} {r : ρ} (h : s.Inv)
    (hn : s.next (.stepLoad r) = some t) : t.Inv := by
  obtain ⟨⟨begun, pc⟩, hl, ht⟩ := Option.map_eq_some_iff.mp hn
  have hreader := h.readers r
  rw [hl] at hreader
  obtain ⟨hbegun, hload, hlog⟩ := hreader
  have hstep := hload.step h.writer hbegun
  cases hres : pc.step s.lock with
  | inl pc' =>
    rw [hres] at hstep
    have hupdate := h.update_reader r (some ⟨begun, pc'⟩) (s.returned r) ⟨hbegun, hstep, hlog⟩
    rw [Function.update_eq_self] at hupdate
    rw [hres] at ht
    exact ht ▸ hupdate
  | inr out =>
    rw [hres] at hstep ht
    exact ht ▸ h.update_reader r none _ (hlog.concat hbegun hstep)

theorem Shared.Inv.next [DecidableEq ρ] {s t : Shared n ρ} {a : SeqlockAction n ρ} (h : s.Inv)
    (hbound : s.values.length ≤ 2 ^ 63) (hn : s.next a = some t) : t.Inv := by
  cases a with
  | callStore desired => exact h.callStore hn
  | stepStore => exact h.stepStore hbound hn
  | callLoad r => exact h.callLoad hn
  | stepLoad r => exact h.stepLoad hn

theorem Shared.next_values_length [DecidableEq ρ] {s t : Shared n ρ} {a : SeqlockAction n ρ}
    (hn : s.next a = some t) : s.values.length ≤ t.values.length := by
  cases a with
  | callStore desired =>
    obtain ⟨_, ht⟩ := Option.ite_none_right_eq_some.mp hn
    cases ht
    simp
  | stepStore =>
    obtain ⟨pc, _, ht⟩ := Option.map_eq_some_iff.mp hn
    rw [← ht]
    split <;> exact le_refl _
  | callLoad r =>
    obtain ⟨_, ht⟩ := Option.ite_none_right_eq_some.mp hn
    cases ht
    exact le_refl _
  | stepLoad r =>
    obtain ⟨l, _, ht⟩ := Option.map_eq_some_iff.mp hn
    rw [← ht]
    split <;> exact le_refl _

/-- With fewer than 2^63 stores, what the loads of each reader have returned are values
number `ks` of the run, the initial one being number 0: in the order of the stores, and
none older than the last store completed before its load began. -/
theorem seqlock_snapshots [DecidableEq ρ] (s : Shared n ρ)
    (h : (Shared.system n ρ).Reachable anyStep s) (hstores : s.values.length - 1 < 2 ^ 63) (r : ρ) :
    ∃ ks : List Nat, ks.Pairwise (· ≤ ·) ∧
      List.Forall₂ (fun k loaded => loaded.1 ≤ k ∧ s.values[k]? = some loaded.2) ks
        (s.returned r) := by
  have hinv : s.values.length ≤ 2 ^ 63 → s.Inv := by
    refine h.invariant (P := fun s => s.values.length ≤ 2 ^ 63 → s.Inv) ?_ ?_
    · rintro s ⟨initial, rfl⟩ _
      exact Shared.Inv.create initial
    · intro s a t hs _ hn hbound
      have hle := (Shared.next_values_length hn).trans hbound
      exact (hs hle).next hle hn
  have hreader := (hinv (by omega)).readers r
  cases hr : s.readers r with
  | none =>
    rw [hr] at hreader
    obtain ⟨ks, hks, hsorted, _⟩ := hreader
    exact ⟨ks, hsorted, hks⟩
  | some l =>
    rw [hr] at hreader
    obtain ⟨_, _, ks, hks, hsorted, _⟩ := hreader
    exact ⟨ks, hsorted, hks⟩

theorem seqlock_snapshots_overtaken :
    ∃ s : Shared 2 Unit, s.returned () = [(0, ![3, 4])] ∧ s.values.length - 1 < 2 ^ 63 ∧
      ∃ ks : List Nat, ks.Pairwise (· ≤ ·) ∧
        List.Forall₂ (fun k loaded => loaded.1 ≤ k ∧ s.values[k]? = some loaded.2) ks
          (s.returned ()) := by
  have hrun : ((Shared.system 2 Unit).run anyStep (Shared.create ![1, 2])
      [.callLoad (), .stepLoad (), .stepLoad (), .callStore ![3, 4], .stepStore, .stepStore,
        .stepStore, .stepStore, .stepStore, .stepLoad (), .stepLoad (), .stepLoad (), .stepLoad (),
        .stepLoad (), .stepLoad ()]).map (fun s => (s.returned (), s.values.length)) =
        some ([(0, ![3, 4])], 2) := by
    decide +kernel
  obtain ⟨s, hs, hvals⟩ := Option.map_eq_some_iff.mp hrun
  obtain ⟨hreturned, hlen⟩ := Prod.mk.inj hvals
  have hstores : s.values.length - 1 < 2 ^ 63 := by
    rw [hlen]
    decide
  exact ⟨s, hreturned, hstores,
    seqlock_snapshots s (System.Reachable.run (.start ⟨_, rfl⟩) hs) hstores ()⟩

end SensorForge.Core
