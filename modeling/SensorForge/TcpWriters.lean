import SensorForge.TcpReceiver

/-! Calls of `write` by several threads on one socket. A message is three socket writes,
each of them one step, and nothing keeps two calls apart. -/

namespace SensorForge.Transport

open Transition

/-- Which of its socket writes a thread has made for the message at hand. -/
inductive WritePc where
  | idle
  | marked (data : Bytes)
  | sized (data : Bytes)
  deriving DecidableEq

/-- `calls` are the messages in the order in which their calls began. -/
structure TcpWriters (ι : Type*) where
  host : HostOrder := .little
  pc : ι → WritePc := fun _ => .idle
  wire : Bytes := []
  calls : List Bytes := []

inductive WriteAction (ι : Type*) where
  | writeStart (i : ι) (data : Bytes)
  | writeSize (i : ι)
  | writePayload (i : ι)

variable {ι : Type*}

def TcpWriters.Idle (s : TcpWriters ι) : Prop := ∀ i, s.pc i = .idle

/-- The wire carries the messages of the calls, in some order and each in one piece. The
last of them may be incomplete while a call is under way. -/
def TcpWriters.Whole (s : TcpWriters ι) : Prop :=
  ∃ order : List Bytes, order.Perm s.calls ∧ s.wire <+: written order s.host ∧
    (s.Idle → s.wire = written order s.host)

/-- A call begins when no other is under way. -/
def TcpWriters.exclusive (s : TcpWriters ι) : WriteAction ι → Prop
  | .writeStart _ _ => s.Idle
  | _ => True

theorem written_append_singleton (payloads : List Bytes) (data : Bytes) (host : HostOrder) :
    written (payloads ++ [data]) host = written payloads host ++ write data host := by
  simp [written]

inductive TcpWriters.Inv (s : TcpWriters ι) : Prop where
  | idle (hidle : s.Idle) (hwire : s.wire = written s.calls s.host)
  | marked (i : ι) (data : Bytes) (done : List Bytes) (hpc : s.pc i = .marked data)
      (hothers : ∀ j, j ≠ i → s.pc j = .idle) (hcalls : s.calls = done ++ [data])
      (hwire : s.wire = written done s.host ++ [0xAB, 0xCD])
  | sized (i : ι) (data : Bytes) (done : List Bytes) (hpc : s.pc i = .sized data)
      (hothers : ∀ j, j ≠ i → s.pc j = .idle) (hcalls : s.calls = done ++ [data])
      (hwire : s.wire =
        written done s.host ++ ([0xAB, 0xCD] ++ hostBytes data.length.toUInt32 s.host))

theorem TcpWriters.Inv.whole {s : TcpWriters ι} (h : s.Inv) : s.Whole := by
  refine ⟨s.calls, List.Perm.refl _, ?_⟩
  cases h with
  | idle hidle hwire => exact ⟨hwire ▸ List.prefix_rfl, fun _ => hwire⟩
  | marked i data done hpc hothers hcalls hwire =>
    refine ⟨?_, fun hidle => absurd ((hidle i).symm.trans hpc) nofun⟩
    rw [hwire, hcalls, written_append_singleton, List.prefix_append_right_inj, write,
      List.append_assoc]
    exact List.prefix_append _ _
  | sized i data done hpc hothers hcalls hwire =>
    refine ⟨?_, fun hidle => absurd ((hidle i).symm.trans hpc) nofun⟩
    rw [hwire, hcalls, written_append_singleton, List.prefix_append_right_inj, write]
    exact List.prefix_append _ _

/-- The thread that is not idle is the one whose call is under way. -/
theorem eq_of_not_idle {pc : ι → WritePc} {i j : ι} (hothers : ∀ k, k ≠ i → pc k = .idle)
    (hj : pc j ≠ .idle) : j = i := by
  by_contra hne
  exact hj (hothers j hne)

variable [DecidableEq ι]

def TcpWriters.next (s : TcpWriters ι) : WriteAction ι → Option (TcpWriters ι)
  | .writeStart i data =>
    match s.pc i with
    | .idle => some { s with
        pc := Function.update s.pc i (.marked data), wire := s.wire ++ [0xAB, 0xCD]
        calls := s.calls ++ [data] }
    | _ => none
  | .writeSize i =>
    match s.pc i with
    | .marked data => some { s with
        pc := Function.update s.pc i (.sized data)
        wire := s.wire ++ hostBytes data.length.toUInt32 s.host }
    | _ => none
  | .writePayload i =>
    match s.pc i with
    | .sized data => some { s with
        pc := Function.update s.pc i .idle
        wire := s.wire ++ data.take data.length.toUInt32.toNat }
    | _ => none

def TcpWriters.system (ι : Type*) [DecidableEq ι] (host : HostOrder) :
    System (TcpWriters ι) (WriteAction ι) where
  start s := s = { host }
  next := TcpWriters.next

theorem TcpWriters.Inv.writeStart {s t : TcpWriters ι} {i : ι} {data : Bytes} (h : s.Inv)
    (hidle : s.Idle) (hn : s.next (.writeStart i data) = some t) : t.Inv := by
  simp only [TcpWriters.next, hidle i, Option.some.injEq] at hn
  subst hn
  cases h with
  | idle _ hwire =>
    refine .marked i data s.calls (Function.update_self i _ _) (fun j hj => ?_) rfl ?_
    · exact (Function.update_of_ne hj _ _).trans (hidle j)
    · simp only [hwire]
  | marked k _ _ hpc => exact absurd ((hidle k).symm.trans hpc) nofun
  | sized k _ _ hpc => exact absurd ((hidle k).symm.trans hpc) nofun

theorem TcpWriters.Inv.writeSize {s t : TcpWriters ι} {i : ι} (h : s.Inv)
    (hn : s.next (.writeSize i) = some t) : t.Inv := by
  cases hpc : s.pc i with
  | marked data =>
    simp only [TcpWriters.next, hpc, Option.some.injEq] at hn
    subst hn
    cases h with
    | idle hidle _ => exact absurd ((hidle i).symm.trans hpc) nofun
    | marked k data' done hk hothers hcalls hwire =>
      obtain rfl := eq_of_not_idle hothers (j := i) (by rw [hpc]; nofun)
      obtain rfl : data = data' := WritePc.marked.inj (hpc.symm.trans hk)
      refine .sized i data done (Function.update_self i _ _) (fun j hj => ?_) hcalls ?_
      · exact (Function.update_of_ne hj _ _).trans (hothers j hj)
      · simp only [hwire, List.append_assoc]
    | sized k _ _ hk hothers =>
      obtain rfl := eq_of_not_idle hothers (j := i) (by rw [hpc]; nofun)
      exact absurd (hpc.symm.trans hk) nofun
  | _ => simp [TcpWriters.next, hpc] at hn

theorem TcpWriters.Inv.writePayload {s t : TcpWriters ι} {i : ι} (h : s.Inv)
    (hn : s.next (.writePayload i) = some t) : t.Inv := by
  cases hpc : s.pc i with
  | sized data =>
    simp only [TcpWriters.next, hpc, Option.some.injEq] at hn
    subst hn
    cases h with
    | idle hidle _ => exact absurd ((hidle i).symm.trans hpc) nofun
    | marked k _ _ hk hothers =>
      obtain rfl := eq_of_not_idle hothers (j := i) (by rw [hpc]; nofun)
      exact absurd (hpc.symm.trans hk) nofun
    | sized k data' done hk hothers hcalls hwire =>
      obtain rfl := eq_of_not_idle hothers (j := i) (by rw [hpc]; nofun)
      obtain rfl : data = data' := WritePc.sized.inj (hpc.symm.trans hk)
      refine .idle (fun j => ?_) ?_
      · by_cases hj : j = i
        · subst hj
          exact Function.update_self _ _ _
        · exact (Function.update_of_ne hj _ _).trans (hothers j hj)
      · simp only [hwire, hcalls, written_append_singleton, write, List.append_assoc]
  | _ => simp [TcpWriters.next, hpc] at hn

theorem TcpWriters.Inv.next {s t : TcpWriters ι} {a : WriteAction ι} (h : s.Inv)
    (hg : s.exclusive a) (hn : s.next a = some t) : t.Inv := by
  cases a with
  | writeStart i data => exact h.writeStart hg hn
  | writeSize i => exact h.writeSize hn
  | writePayload i => exact h.writePayload hn

/-- When calls do not overlap, every message is in one piece on the wire. -/
theorem writes_whole {host : HostOrder} {s : TcpWriters ι}
    (h : (TcpWriters.system ι host).Reachable TcpWriters.exclusive s) : s.Whole := by
  have hinv : s.Inv := by
    refine h.invariant ?_ fun s a t hs hg hn => hs.next hg hn
    rintro s rfl
    exact .idle (fun _ => rfl) rfl
  exact hinv.whole

/-- The threads that write to the socket of a bridge. -/
inductive WritingThread where
  | sendTimer
  | delayWorker
  deriving DecidableEq

instance : Fintype WritingThread :=
  ⟨{.sendTimer, .delayWorker}, fun i => by cases i <;> decide⟩

instance [Fintype ι] (s : TcpWriters ι) : ∀ a, Decidable (s.exclusive a)
  | .writeStart _ _ => inferInstanceAs (Decidable (∀ i, s.pc i = .idle))
  | .writeSize _ => inferInstanceAs (Decidable True)
  | .writePayload _ => inferInstanceAs (Decidable True)

def TcpWriters.view (s : TcpWriters WritingThread) : HostOrder × Bytes × List Bytes × List WritePc :=
  (s.host, s.wire, s.calls, [s.pc .sendTimer, s.pc .delayWorker])

theorem writes_whole_alternating : ∃ s : TcpWriters WritingThread,
    (TcpWriters.system WritingThread .little).Reachable TcpWriters.exclusive s ∧
      s.wire = [0xAB, 0xCD, 1, 0, 0, 0, 7, 0xAB, 0xCD] ∧ s.Whole := by
  have hrun : ((TcpWriters.system WritingThread .little).run TcpWriters.exclusive {}
      [.writeStart .delayWorker [7], .writeSize .delayWorker, .writePayload .delayWorker,
        .writeStart .sendTimer [8, 9]]).map TcpWriters.view =
      some (.little, [0xAB, 0xCD, 1, 0, 0, 0, 7, 0xAB, 0xCD], [[7], [8, 9]],
        [.marked [8, 9], .idle]) := by
    decide +kernel
  obtain ⟨s, hs, hview⟩ := Option.map_eq_some_iff.mp hrun
  have hreach := (System.Reachable.start rfl).run hs
  exact ⟨s, hreach, congrArg (fun v => v.2.1) hview, writes_whole hreach⟩

/-- Both threads begin before either sends its size. -/
theorem writes_interleave :
    ¬ ∀ s : TcpWriters WritingThread,
      (TcpWriters.system WritingThread .little).Reachable anyStep s → s.Whole := by
  intro h
  have hrun : ((TcpWriters.system WritingThread .little).run anyStep {}
      [.writeStart .sendTimer [7], .writeStart .delayWorker [7], .writeSize .sendTimer,
        .writePayload .sendTimer, .writeSize .delayWorker, .writePayload .delayWorker]).map
          TcpWriters.view =
      some (.little, [0xAB, 0xCD, 0xAB, 0xCD, 1, 0, 0, 0, 7, 1, 0, 0, 0, 7], [[7], [7]],
        [.idle, .idle]) := by
    decide +kernel
  obtain ⟨s, hs, hview⟩ := Option.map_eq_some_iff.mp hrun
  have hhost := congrArg (fun v => v.1) hview
  have hwire := congrArg (fun v => v.2.1) hview
  have hcalls := congrArg (fun v => v.2.2.1) hview
  have hpcs := congrArg (fun v => v.2.2.2) hview
  simp only [TcpWriters.view, List.cons.injEq, and_true] at hhost hwire hcalls hpcs
  obtain ⟨order, horder, _, hdone⟩ := h s ((System.Reachable.start rfl).run hs)
  have hidle : s.Idle := fun i => by
    cases i with
    | sendTimer => exact hpcs.1
    | delayWorker => exact hpcs.2
  have hsame : order = [[7], [7]] := by
    rw [hcalls] at horder
    exact (List.perm_replicate (n := 2)).mp horder
  have hmessages := hdone hidle
  rw [hwire, hsame, hhost] at hmessages
  exact absurd hmessages (by decide)

end SensorForge.Transport
