import SensorForge.LittleEndian
import SensorForge.TransitionSystem

/-! The byte queue between the socket and the receive thread, as a monitor: one reader,
any number of threads that push or shut down, and a wait without a predicate. -/

namespace SensorForge.Transport

open Transition

/-- Where the thread stands: before the `is_shutdown` check, before the lock of
`readBytes`, inside the wait, or woken and about to take the lock back. -/
inductive Reader where
  | check
  | calling
  | waiting (len : Nat) (bytes : Bytes)
  | woken (len : Nat) (bytes : Bytes)
  | stopped
  | undefined
  deriving DecidableEq

def Reader.notifyAll : Reader → Reader
  | .waiting len bytes => .woken len bytes
  | reader => reader

/-- `signalled` records whether a byte has been pushed or the stream shut down since the
reader last began to wait. -/
structure QueueStream where
  queue : Bytes := []
  finish : Bool := false
  notified : Bool := false
  signalled : Bool := false
  reader : Reader := .check
  pushed : Bytes := []
  returned : List Bytes := []
  deriving DecidableEq

/-- The loop of `readBytes`, which holds the lock until it returns or waits. -/
def QueueStream.readLoop (s : QueueStream) (len : Nat) : Bytes → Bytes → QueueStream
  | [], bytes =>
    if bytes.length < len then
      { s with queue := [], reader := .waiting len bytes, signalled := false }
    else { s with queue := [], reader := .check, returned := s.returned ++ [bytes] }
  | b :: queue, bytes =>
    if bytes.length < len then s.readLoop len queue (bytes ++ [b])
    else { s with queue := b :: queue, reader := .check, returned := s.returned ++ [bytes] }

inductive StreamAction where
  | isShutdown
  | readBytes (len : Nat)
  | spurious
  | reacquire
  | pushBytes (chunk : Bytes)
  | shutdown

/-- Every region under the lock is one step. -/
def QueueStream.next (s : QueueStream) : StreamAction → Option QueueStream
  | .isShutdown =>
    match s.reader with
    | .check => some { s with reader := if s.finish then .stopped else .calling }
    | _ => none
  | .readBytes len =>
    match s.reader with
    | .calling => some (s.readLoop len s.queue [])
    | _ => none
  | .spurious =>
    match s.reader with
    | .waiting len bytes => some { s with reader := .woken len bytes }
    | _ => none
  | .reacquire =>
    match s.reader with
    | .woken len bytes =>
      if s.finish then some { s with reader := .check } else
      match s.queue with
      | [] => some { s with reader := .undefined }
      | b :: queue => some (s.readLoop len queue (bytes ++ [b]))
    | _ => none
  | .pushBytes chunk =>
    some { s with
      queue := s.queue ++ chunk, pushed := s.pushed ++ chunk, reader := s.reader.notifyAll
      signalled := s.signalled || !chunk.isEmpty }
  | .shutdown =>
    some { s with
      finish := true, notified := true, queue := [], reader := s.reader.notifyAll
      signalled := true }

def QueueStream.system : System QueueStream StreamAction where
  start s := s = {}
  next := QueueStream.next

def QueueStream.Blocked (s : QueueStream) : Prop := ∃ len bytes, s.reader = .waiting len bytes

structure QueueStream.Safe (s : QueueStream) : Prop where
  defined : s.reader ≠ .undefined
  released : ¬ (s.finish = true ∧ s.notified = true ∧ s.Blocked)

/-- A read that comes after a shutdown finds all its bytes, and a reader that goes on has
been signalled. -/
def QueueStream.timely (s : QueueStream) : StreamAction → Prop
  | .readBytes len => s.finish = true → len ≤ s.queue.length
  | .reacquire => s.signalled = true
  | _ => True

instance : ∀ (s : QueueStream) (a : StreamAction), Decidable (s.timely a)
  | s, .readBytes len => inferInstanceAs (Decidable (s.finish = true → len ≤ s.queue.length))
  | s, .reacquire => inferInstanceAs (Decidable (s.signalled = true))
  | _, .isShutdown | _, .spurious | _, .pushBytes _ | _, .shutdown => instDecidableTrue

theorem QueueStream.readLoop_eq (s : QueueStream) (len : Nat) (queue : Bytes) {bytes : Bytes}
    (h : bytes.length ≤ len) :
    s.readLoop len queue bytes =
      if bytes.length + queue.length < len then
        { s with queue := [], reader := .waiting len (bytes ++ queue), signalled := false }
      else
        { s with
          queue := queue.drop (len - bytes.length), reader := .check
          returned := s.returned ++ [bytes ++ queue.take (len - bytes.length)] } := by
  induction queue generalizing bytes with
  | nil => simp [QueueStream.readLoop]
  | cons b queue ih =>
    by_cases hlt : bytes.length < len
    · have hlen : (bytes ++ [b]).length ≤ len := by simpa using hlt
      have hcount : (bytes ++ [b]).length + queue.length = bytes.length + (b :: queue).length := by
        simp only [List.length_append, List.length_cons, List.length_nil]
        omega
      have hrest : len - bytes.length = len - (bytes ++ [b]).length + 1 := by
        simp only [List.length_append, List.length_singleton]
        omega
      rw [QueueStream.readLoop, if_pos hlt, ih hlen, hcount, hrest]
      simp
    · have hlen : len - bytes.length = 0 := by omega
      rw [QueueStream.readLoop, if_neg hlt, if_neg (by omega), hlen]
      simp

/-- While it waits the reader has not been signalled, and when it is woken the signal
tells whether there is anything for it. -/
structure QueueStream.Inv (s : QueueStream) : Prop where
  notified : s.notified = s.finish
  defined : s.reader ≠ .undefined
  waiting : ∀ len bytes, s.reader = .waiting len bytes →
    bytes.length < len ∧ s.signalled = false ∧ s.finish = false ∧ s.queue = []
  woken : ∀ len bytes, s.reader = .woken len bytes → bytes.length < len ∧
    (s.signalled = true → s.finish = true ∨ s.queue ≠ []) ∧
    (s.signalled = false → s.finish = false ∧ s.queue = [])

theorem QueueStream.Inv.safe {s : QueueStream} (h : s.Inv) : s.Safe := by
  refine ⟨h.defined, ?_⟩
  rintro ⟨hfinish, _, len, bytes, hreader⟩
  have hopen := (h.waiting len bytes hreader).2.2.1
  rw [hfinish] at hopen
  cases hopen

theorem QueueStream.Inv.readLoop {s : QueueStream} (h : s.Inv) {len : Nat} {queue bytes : Bytes}
    (hbytes : bytes.length ≤ len)
    (hopen : s.finish = true → len ≤ bytes.length + queue.length) :
    (s.readLoop len queue bytes).Inv := by
  rw [QueueStream.readLoop_eq s len queue hbytes]
  split
  · next hshort =>
    have hfinish : s.finish = false := by
      by_contra hne
      have := hopen (Bool.not_eq_false _ ▸ hne)
      omega
    refine ⟨h.notified, nofun, ?_, nofun⟩
    rintro len' bytes' ⟨⟩
    exact ⟨by rw [List.length_append]; exact hshort, rfl, hfinish, rfl⟩
  · exact ⟨h.notified, nofun, nofun, nofun⟩

theorem QueueStream.Inv.notifyAll {s : QueueStream} (h : s.Inv) {len : Nat} {bytes : Bytes}
    (hreader : s.reader.notifyAll = .woken len bytes) :
    bytes.length < len ∧ (s.signalled = true → s.finish = true ∨ s.queue ≠ []) ∧
      (s.signalled = false → s.finish = false ∧ s.queue = []) := by
  cases hr : s.reader with
  | waiting len' bytes' =>
    rw [hr] at hreader
    cases hreader
    obtain ⟨hlen, hsignal, hfinish, hqueue⟩ := h.waiting len bytes hr
    refine ⟨hlen, fun hs => ?_, fun _ => ⟨hfinish, hqueue⟩⟩
    rw [hsignal] at hs
    cases hs
  | woken len' bytes' =>
    rw [hr] at hreader
    cases hreader
    exact h.woken len bytes hr
  | _ =>
    rw [hr] at hreader
    cases hreader

theorem Reader.notifyAll_ne_waiting (r : Reader) (len : Nat) (bytes : Bytes) :
    r.notifyAll ≠ .waiting len bytes := by
  cases r <;> nofun

theorem Reader.notifyAll_undefined {r : Reader} (h : r.notifyAll = .undefined) : r = .undefined := by
  cases r with
  | undefined => rfl
  | _ => cases h

/-- The regions under the lock, each with what it finds and what it leaves. -/
inductive QueueStream.Region (s : QueueStream) : StreamAction → QueueStream → Prop
  | isShutdown : s.reader = .check →
      Region s .isShutdown { s with reader := if s.finish then .stopped else .calling }
  | readBytes (len : Nat) : s.reader = .calling →
      Region s (.readBytes len) (s.readLoop len s.queue [])
  | spurious (len : Nat) (bytes : Bytes) : s.reader = .waiting len bytes →
      Region s .spurious { s with reader := .woken len bytes }
  | stopped (len : Nat) (bytes : Bytes) : s.reader = .woken len bytes → s.finish = true →
      Region s .reacquire { s with reader := .check }
  | emptyQueue (len : Nat) (bytes : Bytes) : s.reader = .woken len bytes → s.finish = false →
      s.queue = [] → Region s .reacquire { s with reader := .undefined }
  | reacquire (len : Nat) (bytes : Bytes) (b : UInt8) (queue : Bytes) :
      s.reader = .woken len bytes → s.finish = false → s.queue = b :: queue →
      Region s .reacquire (s.readLoop len queue (bytes ++ [b]))
  | pushBytes (chunk : Bytes) : Region s (.pushBytes chunk) { s with
      queue := s.queue ++ chunk, pushed := s.pushed ++ chunk, reader := s.reader.notifyAll
      signalled := s.signalled || !chunk.isEmpty }
  | shutdown : Region s .shutdown { s with
      finish := true, notified := true, queue := [], reader := s.reader.notifyAll
      signalled := true }

theorem QueueStream.next_region {s t : QueueStream} {a : StreamAction} (h : s.next a = some t) :
    s.Region a t := by
  cases a with
  | isShutdown =>
    simp only [QueueStream.next] at h
    split at h <;> cases h
    exact .isShutdown ‹_›
  | readBytes len =>
    simp only [QueueStream.next] at h
    split at h <;> cases h
    exact .readBytes len ‹_›
  | spurious =>
    simp only [QueueStream.next] at h
    split at h <;> cases h
    exact .spurious _ _ ‹_›
  | reacquire =>
    simp only [QueueStream.next] at h
    split at h
    · next len bytes hr =>
      by_cases hfinish : s.finish = true
      · rw [if_pos hfinish] at h
        cases h
        exact .stopped len bytes hr hfinish
      · rw [if_neg hfinish] at h
        have hopen : s.finish = false := Bool.eq_false_iff.mpr hfinish
        split at h <;> cases h
        · exact .emptyQueue len bytes hr hopen ‹_›
        · exact .reacquire len bytes _ _ hr hopen ‹_›
    · cases h
  | pushBytes chunk =>
    cases h
    exact .pushBytes chunk
  | shutdown =>
    cases h
    exact .shutdown

theorem QueueStream.Inv.woken_queue {s : QueueStream} (h : s.Inv) {len : Nat} {bytes : Bytes}
    (hr : s.reader = .woken len bytes) (hsignalled : s.signalled = true)
    (hopen : s.finish = false) : s.queue ≠ [] := by
  have hsome := (h.woken len bytes hr).2.1 hsignalled
  rw [hopen] at hsome
  exact hsome.resolve_left nofun

theorem QueueStream.Inv.woken_length {s : QueueStream} (h : s.Inv) {len : Nat} {bytes : Bytes}
    (hr : s.reader = .woken len bytes) (b : UInt8) : (bytes ++ [b]).length ≤ len := by
  rw [List.length_append, List.length_singleton]
  exact (h.woken len bytes hr).1

theorem QueueStream.Inv.next {s t : QueueStream} {a : StreamAction} (h : s.Inv)
    (hg : s.timely a) (hn : s.next a = some t) : t.Inv := by
  cases QueueStream.next_region hn with
  | isShutdown hr => refine ⟨h.notified, ?_, ?_, ?_⟩ <;> cases s.finish <;> nofun
  | readBytes len hr =>
    exact h.readLoop (Nat.zero_le _) fun hfinish => by simpa using hg hfinish
  | spurious len bytes hr =>
    obtain ⟨hlen, hsignal, hfinish, hqueue⟩ := h.waiting len bytes hr
    refine ⟨h.notified, nofun, nofun, ?_⟩
    rintro len' bytes' ⟨⟩
    exact ⟨hlen, fun hs => absurd (hsignal.symm.trans hs) nofun, fun _ => ⟨hfinish, hqueue⟩⟩
  | stopped len bytes hr hfinish => exact ⟨h.notified, nofun, nofun, nofun⟩
  | emptyQueue len bytes hr hopen hqueue => exact absurd hqueue (h.woken_queue hr hg hopen)
  | reacquire len bytes b queue hr hopen hqueue =>
    exact h.readLoop (h.woken_length hr b) fun hfinish => absurd (hopen.symm.trans hfinish) nofun
  | pushBytes chunk =>
    refine ⟨h.notified, fun hu => h.defined (Reader.notifyAll_undefined hu), ?_, ?_⟩
    · exact fun len bytes hw => absurd hw (Reader.notifyAll_ne_waiting _ _ _)
    · intro len bytes hw
      obtain ⟨hlen, hsome, hnone⟩ := h.notifyAll hw
      refine ⟨hlen, fun hs => ?_, fun hs => ?_⟩
      · rcases Bool.or_eq_true_iff.mp hs with hs | hs
        · refine (hsome hs).imp_right fun hq => ?_
          exact fun hnil => hq (List.append_eq_nil_iff.mp hnil).1
        · refine .inr fun hnil => ?_
          rw [(List.append_eq_nil_iff.mp hnil).2] at hs
          cases hs
      · obtain ⟨hs, hchunk⟩ := Bool.or_eq_false_iff.mp hs
        obtain ⟨hfinish, hqueue⟩ := hnone hs
        have hempty : chunk = [] := by simpa using hchunk
        exact ⟨hfinish, by simp only [hqueue, hempty, List.append_nil]⟩
  | shutdown =>
    refine ⟨rfl, fun hu => h.defined (Reader.notifyAll_undefined hu), ?_, ?_⟩
    · exact fun len bytes hw => absurd hw (Reader.notifyAll_ne_waiting _ _ _)
    · exact fun len bytes hw => ⟨(h.notifyAll hw).1, fun _ => .inl rfl, nofun⟩

theorem QueueStream.Inv.next_untimely {s t : QueueStream} {a : StreamAction} (h : s.Inv)
    (hg : ¬ s.timely a) (hn : s.next a = some t) : ¬ t.Safe := by
  cases QueueStream.next_region hn with
  | readBytes len hr =>
    simp only [QueueStream.timely, Classical.not_imp] at hg
    obtain ⟨hfinish, hshort⟩ := hg
    have hwait : ([] : Bytes).length + s.queue.length < len := by
      rw [List.length_nil]
      omega
    rw [QueueStream.readLoop_eq s len s.queue (Nat.zero_le _), if_pos hwait]
    exact fun hsafe => hsafe.released ⟨hfinish, h.notified.trans hfinish, _, _, rfl⟩
  | emptyQueue len bytes hr hopen hqueue => exact fun hsafe => hsafe.defined rfl
  | stopped len bytes hr hfinish =>
    have hopen := ((h.woken len bytes hr).2.2 (Bool.eq_false_iff.mpr hg)).1
    exact absurd (hopen.symm.trans hfinish) nofun
  | reacquire len bytes b queue hr hopen hqueue =>
    have hempty := ((h.woken len bytes hr).2.2 (Bool.eq_false_iff.mpr hg)).2
    exact absurd (hempty.symm.trans hqueue) nofun
  | _ => exact absurd trivial hg

theorem QueueStream.Inv.reachable {s : QueueStream}
    (h : QueueStream.system.Reachable QueueStream.timely s) : s.Inv := by
  refine h.invariant ?_ fun s a t hs hg hn => hs.next hg hn
  rintro s rfl
  exact ⟨rfl, nofun, nofun, nofun⟩

/-- Runs whose steps are timely are safe, and the first step that is not breaks the
monitor at once. -/
theorem monitor_safe {s : QueueStream}
    (hs : QueueStream.system.Reachable QueueStream.timely s) :
    s.Safe ∧ ∀ a t, ¬ s.timely a → s.next a = some t → ¬ t.Safe := by
  have hinv := QueueStream.Inv.reachable hs
  exact ⟨hinv.safe, fun a t hg hn => hinv.next_untimely hg hn⟩

theorem monitor_safe_pushed :
    ∃ s, QueueStream.system.Reachable QueueStream.timely s ∧ s.returned = [[7]] ∧ s.Safe := by
  have hrun : (QueueStream.system.run QueueStream.timely {}
      [.isShutdown, .readBytes 1, .pushBytes [7], .reacquire]).map QueueStream.returned =
        some [[7]] := by decide +kernel
  obtain ⟨s, hs, hreturned⟩ := Option.map_eq_some_iff.mp hrun
  have hstart : QueueStream.system.Reachable QueueStream.timely {} := .start rfl
  exact ⟨s, hstart.run hs, hreturned, (monitor_safe (hstart.run hs)).1⟩

/-- The shutdown falls between the check and the wait; an empty push wakes a reader. -/
theorem monitor_unsafe :
    (¬ ∀ s, QueueStream.system.Reachable anyStep s →
      ¬ (s.finish = true ∧ s.notified = true ∧ s.Blocked)) ∧
    (¬ ∀ s, QueueStream.system.Reachable anyStep s → s.reader ≠ .undefined) := by
  refine ⟨fun h => ?_, fun h => ?_⟩
  · have hrun : QueueStream.system.run anyStep {} [.isShutdown, .shutdown, .readBytes 1] =
        some { finish := true, notified := true, reader := .waiting 1 [] } := by decide +kernel
    exact h _ ((System.Reachable.start rfl).run hrun) ⟨rfl, rfl, 1, [], rfl⟩
  · have hrun : QueueStream.system.run anyStep {}
        [.isShutdown, .readBytes 1, .pushBytes [], .reacquire] = some { reader := .undefined } := by
      decide +kernel
    exact h _ ((System.Reachable.start rfl).run hrun) rfl

def Reader.bytes : Reader → Bytes
  | .waiting _ bytes => bytes
  | .woken _ bytes => bytes
  | _ => []

def QueueStream.contents (s : QueueStream) : Bytes :=
  s.returned.flatten ++ (s.reader.bytes ++ s.queue)

theorem QueueStream.readLoop_contents (s : QueueStream) (len : Nat) (queue : Bytes) {bytes : Bytes}
    (h : bytes.length ≤ len) :
    (s.readLoop len queue bytes).contents = s.returned.flatten ++ (bytes ++ queue) ∧
      (s.readLoop len queue bytes).pushed = s.pushed ∧
      (s.readLoop len queue bytes).finish = s.finish := by
  rw [QueueStream.readLoop_eq s len queue h]
  split
  · exact ⟨by simp [QueueStream.contents, Reader.bytes], rfl, rfl⟩
  · exact ⟨by simp [QueueStream.contents, Reader.bytes], rfl, rfl⟩

theorem Reader.notifyAll_bytes (r : Reader) : r.notifyAll.bytes = r.bytes := by
  cases r <;> rfl

theorem QueueStream.Inv.contents {s t : QueueStream} {a : StreamAction} (h : s.Inv)
    (hg : s.timely a) (hn : s.next a = some t) (hs : s.finish = false → s.contents = s.pushed)
    (hopen : t.finish = false) : t.contents = t.pushed := by
  cases QueueStream.next_region hn with
  | isShutdown hr =>
    have hreader : (if s.finish = true then Reader.stopped else Reader.calling).bytes = [] := by
      cases s.finish <;> rfl
    have hcontents := hs hopen
    rw [QueueStream.contents, hr] at hcontents
    simp only [QueueStream.contents, hreader]
    exact hcontents
  | readBytes len hr =>
    have hzero : ([] : Bytes).length ≤ len := Nat.zero_le len
    obtain ⟨hcontents, hpushed, hfinish⟩ := s.readLoop_contents len s.queue hzero
    rw [hcontents, hpushed, ← hs (hfinish.symm.trans hopen), QueueStream.contents, hr]
    rfl
  | spurious len bytes hr => simpa [QueueStream.contents, hr, Reader.bytes] using hs hopen
  | stopped len bytes hr hfinish => exact absurd (hfinish.symm.trans hopen) nofun
  | emptyQueue len bytes hr hfinish hqueue => exact absurd hqueue (h.woken_queue hr hg hfinish)
  | reacquire len bytes b queue hr hfinish hqueue =>
    obtain ⟨hcontents, hpushed, _⟩ := s.readLoop_contents len queue (h.woken_length hr b)
    rw [hcontents, hpushed, ← hs hfinish, QueueStream.contents, hr, hqueue]
    simp [Reader.bytes]
  | pushBytes chunk =>
    rw [← hs hopen]
    simp only [QueueStream.contents, Reader.notifyAll_bytes, List.append_assoc]
  | shutdown => cases hopen

/-- Until the stream is shut down no byte is lost, doubled or moved. -/
theorem QueueStream.bytes_in_order {s : QueueStream}
    (h : QueueStream.system.Reachable QueueStream.timely s) :
    s.finish = false → s.contents = s.pushed := by
  have hboth : s.Inv ∧ (s.finish = false → s.contents = s.pushed) := by
    refine h.invariant (P := fun s => s.Inv ∧ (s.finish = false → s.contents = s.pushed)) ?_ ?_
    · rintro s rfl
      exact ⟨⟨rfl, nofun, nofun, nofun⟩, fun _ => rfl⟩
    · rintro s a t ⟨hs, hcontents⟩ hg hn
      exact ⟨hs.next hg hn, hs.contents hg hn hcontents⟩
  exact hboth.2

end SensorForge.Transport
