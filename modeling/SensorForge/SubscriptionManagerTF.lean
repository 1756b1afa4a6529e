import SensorForge.LatestByKey
import SensorForge.SubscriptionManager

/-! The manager of a TF topic: every message is filtered and merged into the accumulated
tree, and the whole tree goes on to the ring. -/

namespace SensorForge

open SensorForge.Core LatestByKey Protocol Transition

structure Stamp where
  sec : Int32 := 0
  nanosec : UInt32 := 0
  deriving DecidableEq

structure TransformStamped (X : Type) where
  stamp : Stamp
  frameId : String
  childFrameId : String
  transform : X
  deriving DecidableEq

abbrev TFMessage (X : Type) := List (TransformStamped X)

variable {X : Type}

namespace TransformStamped

def id (t : TransformStamped X) : String × String := (t.frameId, t.childFrameId)

def idRev (t : TransformStamped X) : String × String := (t.childFrameId, t.frameId)

def zeroStamp (t : TransformStamped X) : TransformStamped X := { t with stamp := {} }

@[simp] theorem id_zeroStamp (t : TransformStamped X) : t.zeroStamp.id = t.id := rfl

theorem idRev_eq_swap (t : TransformStamped X) : t.idRev = t.id.swap := rfl

@[simp] theorem zeroStamp_zeroStamp (t : TransformStamped X) : t.zeroStamp.zeroStamp = t.zeroStamp :=
  rfl

/-- One of the two frames has a name that some pattern matches. -/
def matched (patterns : List (String → Bool)) (t : TransformStamped X) : Bool :=
  patterns.any fun v => v t.frameId || v t.childFrameId

end TransformStamped

structure SubscriptionManagerTF (X : Type) where
  base : SubscriptionManager
  staticTf : Bool
  includePattern : List (String → Bool) := []
  excludePattern : List (String → Bool) := []
  tf2Subscriber : Bool := false
  tfId : String × String → Option Nat := fun _ => none
  tfs : TFMessage X := []

namespace SubscriptionManagerTF

def isStale (m : SubscriptionManagerTF X) : Bool := if m.staticTf then false else m.base.isStale

def accepts (m : SubscriptionManagerTF X) (t : TransformStamped X) : Bool :=
  if !m.excludePattern.isEmpty && t.matched m.excludePattern then false
  else if !m.includePattern.isEmpty && !t.matched m.includePattern then false
  else true

/-- The loop over a message. The flag says that the tree was reset, and the rest of the
message given up. -/
def accumulate (m : SubscriptionManagerTF X) : TFMessage X → SubscriptionManagerTF X × Bool
  | [] => (m, false)
  | t :: ts =>
    if !m.accepts t then m.accumulate ts
    else
      match m.tfId t.id with
      | none =>
        match m.tfId t.idRev with
        | some _ => ({ m with tfId := fun _ => none, tfs := [], tf2Subscriber := false }, true)
        | none =>
          SubscriptionManagerTF.accumulate
            { m with
              tfId := Function.update m.tfId t.id (some m.tfs.length), tfs := m.tfs ++ [t] } ts
      | some i => SubscriptionManagerTF.accumulate { m with tfs := m.tfs.set i t } ts

/-- `serialize` is the serialization of ROS; `none` as in `callback`. -/
def tf2Callback (serialize : TFMessage X → Bytes) (m : SubscriptionManagerTF X)
    (tfmsg : TFMessage X) (nowNs : UInt64) : Option (SubscriptionManagerTF X) :=
  match m.accumulate tfmsg with
  | (m, true) => some m
  | (m, false) =>
    let m := if m.staticTf then { m with tfs := m.tfs.map TransformStamped.zeroStamp } else m
    (m.base.callback (serialize m.tfs) nowNs).map fun base => { m with base }

end SubscriptionManagerTF

/-- The transforms that count after another message: those that pass the filters, all of
them since the last that reverses a pair, which it does not count itself. -/
def receive (accepts : TransformStamped X → Bool) (acc : TFMessage X) : TFMessage X → TFMessage X
  | [] => acc
  | t :: ts =>
    if !accepts t then receive accepts acc ts
    else if t.id ∉ keys TransformStamped.id acc ∧ t.idRev ∈ keys TransformStamped.id acc then []
    else receive accepts (acc ++ [t]) ts

namespace SubscriptionManagerTF

/-- What a static manager does to a transform before it sends it. -/
def restamp (m : SubscriptionManagerTF X) (t : TransformStamped X) : TransformStamped X :=
  if m.staticTf then t.zeroStamp else t

@[simp] theorem id_restamp (m : SubscriptionManagerTF X) (t : TransformStamped X) :
    (m.restamp t).id = t.id := by
  unfold restamp
  split <;> rfl

@[simp] theorem restamp_restamp (m : SubscriptionManagerTF X) (t : TransformStamped X) :
    m.restamp (m.restamp t) = m.restamp t := by
  unfold restamp
  split <;> rfl

/-- The buffer holds the tree of `acc`, up to the stamps that are to be zeroed. -/
structure Holds (m : SubscriptionManagerTF X) (acc : TFMessage X) : Prop where
  index : Indexes m.tfId (keys TransformStamped.id acc)
  tfs : m.tfs.map m.restamp = (latest TransformStamped.id acc).map m.restamp
  consistent : ∀ k ∈ keys TransformStamped.id acc, k ≠ k.swap →
    k.swap ∉ keys TransformStamped.id acc

theorem Holds.length {m : SubscriptionManagerTF X} {acc : TFMessage X} (h : m.Holds acc) :
    m.tfs.length = (keys TransformStamped.id acc).length := by
  have hlen := congrArg List.length h.tfs
  rwa [List.length_map, List.length_map, length_latest] at hlen

theorem Holds.nil {m : SubscriptionManagerTF X} (hid : m.tfId = fun _ => none) (htfs : m.tfs = []) :
    m.Holds [] where
  index := by
    rw [hid]
    exact Indexes.empty
  tfs := by
    rw [htfs]
    rfl
  consistent k hk := by cases hk

theorem Holds.insert {m : SubscriptionManagerTF X} {acc : TFMessage X} (h : m.Holds acc)
    {t : TransformStamped X} (hid : m.tfId t.id = none) (hrev : m.tfId t.idRev = none) :
    SubscriptionManagerTF.Holds
      { m with tfId := Function.update m.tfId t.id (some m.tfs.length), tfs := m.tfs ++ [t] }
      (acc ++ [t]) := by
  have hnew := h.index.eq_none_iff.mp hid
  have hrev' := h.index.eq_none_iff.mp hrev
  refine ⟨?_, ?_, ?_⟩
  · rw [keys_concat_new hnew, h.length]
    exact h.index.concat hid
  · rw [latest_concat_new hnew, List.map_append, List.map_append]
    exact congrArg (· ++ _) h.tfs
  · rw [keys_concat_new hnew]
    intro k hk hne
    rw [List.mem_append, List.mem_singleton, not_or]
    rcases List.mem_append.mp hk with hk | hk
    · refine ⟨h.consistent k hk hne, ?_⟩
      intro heq
      rw [t.idRev_eq_swap, ← heq, Prod.swap_swap] at hrev'
      exact hrev' hk
    · rw [List.mem_singleton.mp hk] at hne ⊢
      exact ⟨hrev', hne.symm⟩

theorem Holds.replace {m : SubscriptionManagerTF X} {acc : TFMessage X} (h : m.Holds acc)
    {t : TransformStamped X} {i : Nat} (hid : m.tfId t.id = some i) :
    SubscriptionManagerTF.Holds { m with tfs := m.tfs.set i t } (acc ++ [t]) := by
  have hi := (h.index t.id i).mp hid
  have hknown := List.mem_of_getElem? hi
  refine ⟨?_, ?_, ?_⟩
  · rw [keys_concat_known hknown]
    exact h.index
  · rw [latest_concat_known hi, List.map_set, List.map_set]
    exact congrArg (fun ts => ts.set i (m.restamp t)) h.tfs
  · rw [keys_concat_known hknown]
    exact h.consistent

/-- The loop merges the message as `receive` counts it, and touches nothing else. -/
theorem accumulate_holds {m : SubscriptionManagerTF X} {acc : TFMessage X} (h : m.Holds acc)
    (ts : TFMessage X) :
    (∃ tfId tfs tf2Subscriber,
      (m.accumulate ts).1 = { m with tfId := tfId, tfs := tfs, tf2Subscriber := tf2Subscriber }) ∧
      (m.accumulate ts).1.Holds (receive m.accepts acc ts) ∧
      ((m.accumulate ts).2 = true → (m.accumulate ts).1.tfs = []) := by
  induction ts generalizing m acc with
  | nil => exact ⟨⟨_, _, _, rfl⟩, h, fun hreset => (by cases hreset)⟩
  | cons t ts ih =>
    rw [accumulate, receive]
    split
    · exact ih h
    · split
      · next hid =>
        have hnew := h.index.eq_none_iff.mp hid
        split
        · next i hrev =>
          have hmem := List.mem_of_getElem? ((h.index t.idRev i).mp hrev)
          rw [if_pos ⟨hnew, hmem⟩]
          exact ⟨⟨_, _, _, rfl⟩, Holds.nil rfl rfl, fun _ => rfl⟩
        · next hrev =>
          rw [if_neg fun hbad => h.index.eq_none_iff.mp hrev hbad.2]
          obtain ⟨⟨tfId, tfs, sub, heq⟩, hrest⟩ := ih (h.insert hid hrev)
          exact ⟨⟨tfId, tfs, sub, heq⟩, hrest⟩
      · next i hid =>
        have hmem := List.mem_of_getElem? ((h.index t.id i).mp hid)
        rw [if_neg fun hbad => hbad.1 hmem]
        obtain ⟨⟨tfId, tfs, sub, heq⟩, hrest⟩ := ih (h.replace hid)
        exact ⟨⟨tfId, tfs, sub, heq⟩, hrest⟩

/-- What holds between two calls. -/
structure Settled (m : SubscriptionManagerTF X) (acc : TFMessage X) : Prop extends m.Holds acc where
  latest : m.tfs = (latest TransformStamped.id acc).map m.restamp

theorem restamp_all (m : SubscriptionManagerTF X) :
    (if m.staticTf then { m with tfs := m.tfs.map TransformStamped.zeroStamp } else m) =
      { m with tfs := m.tfs.map m.restamp } := by
  have hrestamp : m.restamp = if m.staticTf then TransformStamped.zeroStamp else fun t => t := by
    funext t
    unfold restamp
    split <;> rfl
  rw [hrestamp]
  split
  · rfl
  · rw [List.map_id']

/-- What a message does: it resets the tree, or what it leaves of it is captured. -/
theorem tf2Callback_cases {serialize : TFMessage X → Bytes} {m m' : SubscriptionManagerTF X}
    {acc : TFMessage X} (h : m.Settled acc) {tfmsg : TFMessage X} {nowNs : UInt64}
    (hm : m.tf2Callback serialize tfmsg nowNs = some m') :
    m'.Settled (receive m.accepts acc tfmsg) ∧
      ((m.accumulate tfmsg).2 = true ∧ m'.base = m.base ∨
        (m.accumulate tfmsg).2 = false ∧
          m.base.callback (serialize m'.tfs) nowNs = some m'.base) := by
  obtain ⟨⟨tfId, tfs, sub, heq⟩, hholds, hreset⟩ := accumulate_holds h.toHolds tfmsg
  rw [tf2Callback] at hm
  cases hacc : m.accumulate tfmsg with
  | mk m₁ reset =>
    rw [hacc] at hm heq hholds hreset
    dsimp only at heq hholds hreset
    cases reset with
    | true =>
      obtain rfl : m₁ = m' := Option.some.inj hm
      have hempty := hreset rfl
      have hlatest : latest TransformStamped.id (receive m.accepts acc tfmsg) = [] := by
        have hlen := hholds.length
        rw [hempty, ← length_latest] at hlen
        exact List.eq_nil_of_length_eq_zero hlen.symm
      refine ⟨⟨hholds, ?_⟩, .inl ⟨rfl, ?_⟩⟩
      · rw [hempty, hlatest]
        rfl
      · rw [heq]
    | false =>
      dsimp only at hm
      rw [restamp_all] at hm
      obtain ⟨base, hbase, rfl⟩ := Option.map_eq_some_iff.mp hm
      have hlatest : m₁.tfs.map m₁.restamp =
          (latest TransformStamped.id (receive m.accepts acc tfmsg)).map m₁.restamp := hholds.tfs
      refine ⟨⟨⟨hholds.index, ?_, hholds.consistent⟩, hlatest⟩, .inr ⟨rfl, ?_⟩⟩
      · change (m₁.tfs.map m₁.restamp).map m₁.restamp =
          (latest TransformStamped.id (receive m.accepts acc tfmsg)).map m₁.restamp
        rw [List.map_map, ← hlatest]
        apply List.map_congr_left
        intro t _
        exact m₁.restamp_restamp t
      · rw [heq] at hbase ⊢
        exact hbase

theorem tf2Callback_filters {serialize : TFMessage X → Bytes} {m m' : SubscriptionManagerTF X}
    {acc : TFMessage X} (h : m.Holds acc) {tfmsg : TFMessage X} {nowNs : UInt64}
    (hm : m.tf2Callback serialize tfmsg nowNs = some m') :
    m'.accepts = m.accepts ∧ m'.restamp = m.restamp := by
  obtain ⟨⟨tfId, tfs, sub, heq⟩, _, _⟩ := accumulate_holds h tfmsg
  rw [tf2Callback] at hm
  cases hacc : m.accumulate tfmsg with
  | mk m₁ reset =>
    rw [hacc] at hm heq
    dsimp only at heq
    cases reset with
    | true =>
      obtain rfl : m₁ = m' := Option.some.inj hm
      rw [heq]
      exact ⟨rfl, rfl⟩
    | false =>
      dsimp only at hm
      rw [restamp_all] at hm
      obtain ⟨base, _, rfl⟩ := Option.map_eq_some_iff.mp hm
      rw [heq]
      exact ⟨rfl, rfl⟩

end SubscriptionManagerTF

/-- A manager with its history: that of its base, the transforms that count, the numbers of the
captures in the ring, and of the one that was sent last. -/
structure TfRun (X : Type) where
  manager : SubscriptionManagerTF X
  captured : List SensorFrame := []
  popped : List SensorFrame := []
  accepted : TFMessage X := []
  queued : RingQueue Nat kRingCapacity := .empty
  current : Option Nat := none

inductive TfAction (X : Type) where
  | tf2Callback (tfmsg : TFMessage X) (nowNs : UInt64)
  | getData
  | setSensorType (t : SensorType)
  | checkSubscription

def TfRun.toCaptureRun (r : TfRun X) : CaptureRun where
  manager := r.manager.base
  captured := r.captured
  popped := r.popped

/-- What becomes of the queue of numbers with the next capture. -/
def TfRun.capture (r : TfRun X) : RingQueue Nat kRingCapacity :=
  ((RingQueue.apply r.queued r.captured.length r.manager.base.policy).map Prod.fst).getD r.queued

/-- The subscriber is made again when the next message can arrive. -/
def TfRun.next (serialize : TFMessage X → Bytes) (r : TfRun X) : TfAction X → Option (TfRun X)
  | .tf2Callback tfmsg nowNs => (r.manager.tf2Callback serialize tfmsg nowNs).map fun manager =>
    if (r.manager.accumulate tfmsg).2 then
      { r with manager, accepted := receive r.manager.accepts r.accepted tfmsg }
    else
      { r with
        manager
        captured := r.captured ++ [r.manager.base.capture (serialize manager.tfs) nowNs]
        accepted := receive r.manager.accepts r.accepted tfmsg
        queued := r.capture }
  | .getData =>
    let manager := { r.manager with base := r.manager.base.getData.1 }
    match r.manager.base.fresh, r.queued.pop with
    | some f, some (n, queued) =>
      some { r with manager, popped := r.popped ++ [f], queued, current := some n }
    | _, _ => some { r with manager }
  | .setSensorType t =>
    some { r with manager := { r.manager with base := r.manager.base.setSensorType t } }
  | .checkSubscription => some { r with manager := { r.manager with tf2Subscriber := true } }

def TfRun.system (serialize : TFMessage X → Bytes) : System (TfRun X) (TfAction X) where
  start r := ∃ publishStaleData staticTf includePattern excludePattern tf2Subscriber,
    r = { manager :=
      { base := .create publishStaleData, staticTf, includePattern, excludePattern
        tf2Subscriber } }
  next := TfRun.next serialize

theorem TfRun.reachable_settled {serialize : TFMessage X → Bytes} {r : TfRun X}
    (hr : (TfRun.system serialize).Reachable anyStep r) : r.manager.Settled r.accepted := by
  apply hr.invariant
  · rintro r ⟨publishStaleData, staticTf, includePattern, excludePattern, sub, rfl⟩
    exact ⟨SubscriptionManagerTF.Holds.nil rfl rfl, rfl⟩
  · intro r a r' h _ hn
    cases a with
    | tf2Callback tfmsg nowNs =>
      obtain ⟨m, hm, rfl⟩ := Option.map_eq_some_iff.mp hn
      have hsettled := (SubscriptionManagerTF.tf2Callback_cases h hm).1
      split <;> exact hsettled
    | getData =>
      simp only [TfRun.system, TfRun.next] at hn
      split at hn <;> cases hn <;> exact ⟨⟨h.index, h.tfs, h.consistent⟩, h.latest⟩
    | setSensorType t =>
      cases hn
      exact ⟨⟨h.index, h.tfs, h.consistent⟩, h.latest⟩
    | checkSubscription =>
      cases hn
      exact ⟨⟨h.index, h.tfs, h.consistent⟩, h.latest⟩

/-- After any messages: the index gives every known pair a position of its own, and every
position a pair; the transform there carries the names of the pair; no pair is there in
both directions; and the transforms are the last ones received for each pair. -/
theorem tf_accumulated {serialize : TFMessage X → Bytes} {r : TfRun X}
    (hr : (TfRun.system serialize).Reachable anyStep r) :
    (∀ id i, r.manager.tfId id = some i → i < r.manager.tfs.length) ∧
      (∀ i < r.manager.tfs.length, ∃! id, r.manager.tfId id = some i) ∧
      (∀ id i, r.manager.tfId id = some i →
        r.manager.tfs[i]?.map TransformStamped.id = some id) ∧
      (∀ a b, a ≠ b → (r.manager.tfId (a, b)).isSome → r.manager.tfId (b, a) = none) ∧
      r.manager.tfs = (latest TransformStamped.id r.accepted).map r.manager.restamp := by
  have h := TfRun.reachable_settled hr
  have hids : r.manager.tfs.map TransformStamped.id = keys TransformStamped.id r.accepted := by
    rw [h.latest, List.map_map, ← map_latest]
    apply List.map_congr_left
    intro t _
    exact r.manager.id_restamp t
  refine ⟨?_, ?_, ?_, ?_, h.latest⟩
  · intro id i hi
    rw [h.length]
    exact (List.getElem?_eq_some_iff.mp ((h.index id i).mp hi)).1
  · intro i hi
    rw [h.length] at hi
    refine ⟨(keys TransformStamped.id r.accepted)[i], ?_, ?_⟩
    · exact (h.index _ i).mpr (List.getElem?_eq_getElem hi)
    · intro id hid
      have hget := (h.index id i).mp hid
      rw [List.getElem?_eq_getElem hi, Option.some.injEq] at hget
      exact hget.symm
  · intro id i hi
    rw [← List.getElem?_map, hids]
    exact (h.index id i).mp hi
  · intro a b hab hknown
    obtain ⟨i, hi⟩ := Option.isSome_iff_exists.mp hknown
    have hmem := List.mem_of_getElem? ((h.index (a, b) i).mp hi)
    exact h.index.eq_none_iff.mpr
      (h.consistent (a, b) hmem fun heq => hab (congrArg Prod.fst heq))

def edge (sec : Int32) (frameId childFrameId : String) : TransformStamped Unit :=
  { stamp := { sec := sec }, frameId, childFrameId, transform := () }

/-- A dynamic manager after two messages with a pair in common. -/
def twoMessages : Option (TfRun Unit) :=
  (TfRun.system fun _ => [1]).run anyStep
    { manager := { base := .create false, staticTf := false } }
    [.tf2Callback [edge 1 "map" "odom", edge 1 "odom" "base"] 0,
      .tf2Callback [edge 2 "map" "odom"] 1]

theorem tf_accumulated_two :
    ∃ r, twoMessages = some r ∧ r.manager.tfs = [edge 2 "map" "odom", edge 1 "odom" "base"] := by
  obtain ⟨r, hr, hstatic, haccepted⟩ : ∃ r, twoMessages = some r ∧ r.manager.staticTf = false ∧
      r.accepted = [edge 1 "map" "odom", edge 1 "odom" "base", edge 2 "map" "odom"] :=
    ⟨_, rfl, rfl, rfl⟩
  have hreach : (TfRun.system fun _ : TFMessage Unit => [1]).Reachable anyStep r :=
    System.Reachable.run (.start ⟨false, false, [], [], false, rfl⟩) hr
  refine ⟨r, hr, (tf_accumulated hreach).2.2.2.2.trans ?_⟩
  have hrestamp : r.manager.restamp = fun t => t := by
    funext t
    simp [SubscriptionManagerTF.restamp, hstatic]
  rw [hrestamp, haccepted]
  decide

end SensorForge
