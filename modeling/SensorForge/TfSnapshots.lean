import SensorForge.SubscriptionManagerTF

/-! Which tree a TF manager sends: every message puts a snapshot of the whole tree into
the ring, and the send timer takes the oldest of them. -/

namespace SensorForge

open SensorForge.Core LatestByKey Protocol Transition

variable {X : Type} {serialize : TFMessage X → Bytes}

/-- The number of the capture that `getData` returns: that of the oldest frame in the ring, or
else the one that was sent last. -/
def TfRun.offered (r : TfRun X) : Option Nat :=
  match r.queued.pop with
  | some (n, _) => some n
  | none => r.current

/-- The base is a run of its own, and the numbers stand for the frames in its ring. -/
structure TfRun.Inv (r : TfRun X) (q : FrameQueue) : Prop where
  settled : r.manager.Settled r.accepted
  base : r.toCaptureRun.Inv q
  queued : q.map some = r.queued.map (r.captured[·]?)
  current : r.popped.getLast?.map some = r.current.map (r.captured[·]?)

theorem TfRun.Inv.start (publishStaleData staticTf : Bool)
    (includePattern excludePattern : List (String → Bool)) (tf2Subscriber : Bool) :
    TfRun.Inv
      { manager := (
          { base := .create publishStaleData, staticTf, includePattern, excludePattern
            tf2Subscriber } : SubscriptionManagerTF X) } BoundedFifo.empty where
  settled := ⟨SubscriptionManagerTF.Holds.nil rfl rfl, rfl⟩
  base := CaptureRun.Inv.create publishStaleData
  queued := rfl
  current := rfl

/-- A capture does not change what the numbers before it stand for. -/
theorem numbered_concat {captured fs : List SensorFrame} {ns : List Nat}
    (h : fs.map some = ns.map (captured[·]?)) (f : SensorFrame) :
    fs.map some = ns.map ((captured ++ [f])[·]?) := by
  rw [h]
  apply List.map_congr_left
  intro n hn
  have hmem : captured[n]? ∈ fs.map some := by
    rw [h]
    exact List.mem_map_of_mem hn
  obtain ⟨g, _, hg⟩ := List.mem_map.mp hmem
  rw [List.getElem?_append_left (List.getElem?_eq_some_iff.mp hg.symm).1]

theorem TfRun.Inv.capture {r : TfRun X} {q q' : FrameQueue} (h : r.Inv q) {f : SensorFrame}
    {result : PushResult}
    (hcall : RingQueue.apply q f r.manager.base.policy = some (q', result)) :
    q'.map some = r.capture.map ((r.captured ++ [f])[·]?) := by
  have hnumbers : q.map some = r.queued.map ((r.captured ++ [f])[·]?) :=
    BoundedFifo.ext_items (numbered_concat (congrArg BoundedFifo.items h.queued) f)
  have hmap := RingQueue.apply_map some q f r.manager.base.policy
  have hmap' := RingQueue.apply_map ((r.captured ++ [f])[·]?) r.queued r.captured.length
    r.manager.base.policy
  rw [List.getElem?_concat_length, ← hnumbers, hmap, hcall, Option.map_some] at hmap'
  obtain ⟨⟨queued, result'⟩, hqueued, himage⟩ := Option.map_eq_some_iff.mp hmap'.symm
  rw [TfRun.capture, hqueued]
  exact (congrArg Prod.fst himage).symm

theorem TfRun.Inv.tf2Callback {r r' : TfRun X} {q : FrameQueue} (h : r.Inv q)
    {tfmsg : TFMessage X} {nowNs : UInt64}
    (hn : r.next serialize (.tf2Callback tfmsg nowNs) = some r') : ∃ q', r'.Inv q' := by
  obtain ⟨m, hm, rfl⟩ := Option.map_eq_some_iff.mp hn
  obtain ⟨hsettled, ⟨hreset, hbase⟩ | ⟨hreset, hcallback⟩⟩ :=
    SubscriptionManagerTF.tf2Callback_cases h.settled hm
  · rw [if_pos hreset]
    refine ⟨q, hsettled, ?_, h.queued, h.current⟩
    have hcapture := h.base
    simp only [TfRun.toCaptureRun] at hcapture ⊢
    rwa [hbase]
  · rw [if_neg (by simp [hreset])]
    obtain ⟨ring', q', result, hcall, hrep, hbase⟩ :=
      SubscriptionManager.callback_cases h.base.ring hcallback
    obtain ⟨q'', hinv⟩ := h.base.callback hcallback
    have hq : q'' = q' := by
      apply BoundedFifo.ext_items
      have hring : m.base.ring = ring' := by rw [hbase, SubscriptionManager.count_ring]
      rw [← hinv.ring.items, ← hrep.items, ← hring]
    subst hq
    refine ⟨q'', hsettled, hinv, h.capture hcall, ?_⟩
    have hcurrent := h.current
    dsimp only
    cases hn : r.current with
    | none =>
      rw [hn] at hcurrent
      exact hcurrent
    | some n =>
      rw [hn, Option.map_some] at hcurrent
      obtain ⟨g, _, hg⟩ := Option.map_eq_some_iff.mp hcurrent
      rw [hcurrent, Option.map_some,
        List.getElem?_append_left (List.getElem?_eq_some_iff.mp hg.symm).1]

theorem TfRun.Inv.pop {r : TfRun X} {q : FrameQueue} (h : r.Inv q) :
    q.pop = none ∧ r.queued.pop = none ∨
      ∃ f q' n queued, q.pop = some (f, q') ∧ r.queued.pop = some (n, queued) ∧
        r.captured[n]? = some f ∧ q'.map some = queued.map (r.captured[·]?) := by
  have hpop := congrArg BoundedFifo.pop h.queued
  rw [BoundedFifo.pop_map, BoundedFifo.pop_map] at hpop
  cases hq : q.pop with
  | none =>
    rw [hq] at hpop
    exact .inl ⟨rfl, Option.map_eq_none_iff.mp hpop.symm⟩
  | some x =>
    rw [hq, Option.map_some] at hpop
    obtain ⟨⟨n, queued⟩, hqueued, himage⟩ := Option.map_eq_some_iff.mp hpop.symm
    rw [Prod.map, Prod.map, Prod.mk.injEq] at himage
    exact .inr ⟨x.1, x.2, n, queued, rfl, hqueued, himage.1, himage.2.symm⟩

theorem TfRun.Inv.getData {r r' : TfRun X} {q : FrameQueue} (h : r.Inv q)
    (hn : r.next serialize .getData = some r') : ∃ q', r'.Inv q' := by
  have hsettled : ({ r.manager with base := r.manager.base.getData.1 } :
      SubscriptionManagerTF X).Settled r.accepted :=
    ⟨⟨h.settled.index, h.settled.tfs, h.settled.consistent⟩, h.settled.latest⟩
  obtain ⟨q', hinv⟩ := h.base.getData
  simp only [TfRun.toCaptureRun] at hinv
  rw [TfRun.next] at hn
  cases hreceived : r.manager.base.receivedMsg with
  | false =>
    have hfresh : r.manager.base.fresh = none := by simp [SubscriptionManager.fresh, hreceived]
    simp only [hfresh, Option.some.injEq] at hn
    rw [hfresh, Option.toList_none, List.append_nil] at hinv
    rw [← hn]
    refine ⟨q, hsettled, ?_, h.queued, h.current⟩
    rw [SubscriptionManager.getData_unreceived hreceived]
    exact h.base
  | true =>
    have hfresh := fresh_eq_head h.base.ring hreceived
    have hitems : q'.items = q.items.tail := by
      rw [← hinv.ring.items, ← SubscriptionManager.getData_items h.base.ring hreceived]
      rfl
    have hhead : r.manager.base.fresh = q.items.head? := hfresh
    rcases h.pop with ⟨hq, hqueued⟩ | ⟨f, q₁, n, queued, hq, hqueued, hnumber, hrest⟩
    · have hempty := BoundedFifo.pop_eq_none_iff.mp hq
      rw [hempty, List.head?_nil] at hhead
      rw [hempty, List.tail_nil, ← hempty] at hitems
      simp only [hhead, Option.some.injEq] at hn
      rw [hhead, Option.toList_none, List.append_nil, BoundedFifo.ext_items hitems] at hinv
      rw [← hn]
      exact ⟨q, hsettled, hinv, h.queued, h.current⟩
    · have hcons := BoundedFifo.pop_eq_some_iff.mp hq
      rw [hcons, List.head?_cons] at hhead
      rw [hcons, List.tail_cons] at hitems
      simp only [hhead, hqueued, Option.some.injEq] at hn
      rw [hhead, Option.toList_some, BoundedFifo.ext_items hitems] at hinv
      rw [← hn]
      refine ⟨q₁, hsettled, hinv, hrest, ?_⟩
      rw [List.getLast?_concat, Option.map_some, Option.map_some, hnumber]

theorem TfRun.reachable_inv {r : TfRun X} (hr : (TfRun.system serialize).Reachable anyStep r) :
    ∃ q, r.Inv q := by
  apply hr.invariant
  · rintro r ⟨publishStaleData, staticTf, includePattern, excludePattern, sub, rfl⟩
    exact ⟨_, TfRun.Inv.start publishStaleData staticTf includePattern excludePattern sub⟩
  · rintro r a r' ⟨q, h⟩ _ hn
    cases a with
    | tf2Callback tfmsg nowNs => exact h.tf2Callback hn
    | getData =>
      change r.next serialize .getData = some r' at hn
      exact h.getData hn
    | setSensorType t =>
      cases hn
      exact ⟨q, ⟨⟨h.settled.index, h.settled.tfs, h.settled.consistent⟩, h.settled.latest⟩,
        h.base.setSensorType t, h.queued, h.current⟩
    | checkSubscription =>
      cases hn
      exact ⟨q, ⟨⟨h.settled.index, h.settled.tfs, h.settled.consistent⟩, h.settled.latest⟩,
        h.base, h.queued, h.current⟩

/-- What is sent is what the capture of that number has put into its frame. -/
theorem TfRun.Inv.data {r : TfRun X} {q : FrameQueue} (h : r.Inv q)
    (hvalid : r.manager.base.getData.2.2 = true) :
    ∃ n f, r.offered = some n ∧ r.captured[n]? = some f ∧
      r.manager.base.getData.2.1 = f.data := by
  cases hreceived : r.manager.base.receivedMsg with
  | false =>
    rw [SubscriptionManager.getData_unreceived hreceived] at hvalid
    cases hvalid
  | true =>
    rcases SubscriptionManager.getData_cases h.base.ring hreceived with
      ⟨f, q', ring', hpop, _, hget⟩ | ⟨hempty, _, hne, hget⟩ | ⟨_, _, hget⟩
    · rcases h.pop with ⟨hq, _⟩ | ⟨g, q₁, n, queued, hq, hqueued, hnumber, _⟩
      · rw [hpop] at hq
        cases hq
      · rw [hpop, Option.some.injEq, Prod.mk.injEq] at hq
        refine ⟨n, g, by rw [TfRun.offered, hqueued], hnumber, ?_⟩
        change r.toCaptureRun.manager.getData.2.1 = g.data
        rw [hget, ← hq.1]
    · have hnone : r.queued.pop = none := by
        rcases h.pop with ⟨_, hqueued⟩ | ⟨g, q₁, n, queued, hq, _⟩
        · exact hqueued
        · rw [BoundedFifo.pop_eq_some_iff, hempty] at hq
          cases hq
      have hcurrent := h.current
      have hlast : r.popped.getLast? = some _ := h.base.last_popped hne
      rw [hlast, Option.map_some] at hcurrent
      obtain ⟨n, hn, hnumber⟩ := Option.map_eq_some_iff.mp hcurrent.symm
      refine ⟨n, _, by rw [TfRun.offered, hnone, hn], hnumber, ?_⟩
      change r.toCaptureRun.manager.getData.2.1 = _
      rw [hget]
    · change r.toCaptureRun.manager.getData.2.2 = true at hvalid
      rw [hget] at hvalid
      cases hvalid

/-- The transforms that count after a call. -/
def TfAction.receive (accepts : TransformStamped X → Bool) (acc : TFMessage X) :
    TfAction X → TFMessage X
  | .tf2Callback tfmsg _ => SensorForge.receive accepts acc tfmsg
  | _ => acc

/-- The tree that the messages of some calls amount to under the filters of `m`: of each pair the
last transform since a message reversed one. -/
def accumulated (m : SubscriptionManagerTF X) (calls : List (TfAction X)) : TFMessage X :=
  (latest TransformStamped.id (calls.foldl (TfAction.receive m.accepts) [])).map m.restamp

/-- The last of the calls makes capture `n`. -/
def CapturedBy (serialize : TFMessage X → Bytes) (start : TfRun X) (n : Nat)
    (calls : List (TfAction X)) : Prop :=
  ∃ u v, (TfRun.system serialize).run anyStep start calls.dropLast = some u ∧
    (TfRun.system serialize).run anyStep start calls = some v ∧
    u.captured.length = n ∧ v.captured.length = n + 1

/-- What a call does to the transforms that count and to the captures; the filters stay. -/
theorem TfRun.next_received {r r' : TfRun X} {a : TfAction X}
    (hsettled : r.manager.Settled r.accepted) (hn : r.next serialize a = some r') :
    r'.accepted = a.receive r.manager.accepts r.accepted ∧
      r'.manager.accepts = r.manager.accepts ∧ r'.manager.restamp = r.manager.restamp ∧
      (r'.captured = r.captured ∨
        ∃ f, r'.captured = r.captured ++ [f] ∧ f.data = serialize r'.manager.tfs) := by
  cases a with
  | tf2Callback tfmsg nowNs =>
    obtain ⟨m, hm, rfl⟩ := Option.map_eq_some_iff.mp hn
    obtain ⟨haccepts, hrestamp⟩ := SubscriptionManagerTF.tf2Callback_filters hsettled.toHolds hm
    split
    · exact ⟨rfl, haccepts, hrestamp, .inl rfl⟩
    · exact ⟨rfl, haccepts, hrestamp, .inr ⟨_, rfl, rfl⟩⟩
  | getData =>
    rw [TfRun.next] at hn
    split at hn <;> cases hn <;> exact ⟨rfl, rfl, rfl, .inl rfl⟩
  | setSensorType t =>
    cases hn
    exact ⟨rfl, rfl, rfl, .inl rfl⟩
  | checkSubscription =>
    cases hn
    exact ⟨rfl, rfl, rfl, .inl rfl⟩

/-- In a run the tree is what its messages amount to, and every capture has put that tree into its
frame. -/
theorem TfRun.run_received {start r : TfRun X} {as : List (TfAction X)}
    (hstart : (TfRun.system serialize).start start)
    (hrun : (TfRun.system serialize).run anyStep start as = some r) :
    r.accepted = as.foldl (TfAction.receive start.manager.accepts) [] ∧
      r.manager.accepts = start.manager.accepts ∧ r.manager.restamp = start.manager.restamp ∧
      ∀ n f, r.captured[n]? = some f → ∃ upTo since, as = upTo ++ since ∧
        CapturedBy serialize start n upTo ∧
        f.data = serialize (accumulated start.manager upTo) := by
  induction as using List.reverseRecOn generalizing r with
  | nil =>
    cases hrun
    obtain ⟨_, _, _, _, _, rfl⟩ := hstart
    exact ⟨rfl, rfl, rfl, fun n f hf => by cases hf⟩
  | append_singleton as a ih =>
    obtain ⟨u, hu, hlast⟩ := System.run_append.mp hrun
    obtain ⟨v, _, hv, hlast⟩ := System.run_cons.mp hlast
    cases hlast
    obtain ⟨haccepted, haccepts, hrestamp, hcaptures⟩ := ih hu
    have hreach := System.Reachable.run (.start hstart) hu
    obtain ⟨haccepted', haccepts', hrestamp', hcaptured⟩ :=
      TfRun.next_received (TfRun.reachable_settled hreach) hv
    have hall : r.accepted = (as ++ [a]).foldl (TfAction.receive start.manager.accepts) [] := by
      rw [List.foldl_concat, ← haccepted, ← haccepts, haccepted']
    refine ⟨hall, haccepts'.trans haccepts, hrestamp'.trans hrestamp, ?_⟩
    intro n f hf
    have hbefore : u.captured[n]? = some f → ∃ upTo since, as ++ [a] = upTo ++ since ∧
        CapturedBy serialize start n upTo ∧
          f.data = serialize (accumulated start.manager upTo) := by
      intro hf
      obtain ⟨upTo, since, rfl, hcapture⟩ := hcaptures n f hf
      exact ⟨upTo, since ++ [a], List.append_assoc _ _ _, hcapture⟩
    rcases hcaptured with hcaptured | ⟨g, hcaptured, hdata⟩
    · rw [hcaptured] at hf
      exact hbefore hf
    · rw [hcaptured] at hf
      rcases Nat.lt_or_ge n u.captured.length with hn | hn
      · rw [List.getElem?_append_left hn] at hf
        exact hbefore hf
      · -- the call itself makes capture `n`
        have hlen := (List.getElem?_eq_some_iff.mp hf).1
        rw [List.length_append, List.length_singleton] at hlen
        obtain rfl : n = u.captured.length := by omega
        rw [List.getElem?_concat_length, Option.some.injEq] at hf
        refine ⟨as ++ [a], [], (List.append_nil _).symm, ⟨u, r, ?_, hrun, rfl, ?_⟩, ?_⟩
        · rwa [List.dropLast_concat]
        · rw [hcaptured, List.length_append, List.length_singleton]
        · have htree := (TfRun.reachable_settled (hreach.step trivial hv)).latest
          rw [← hf, hdata, htree, accumulated, hall, hrestamp'.trans hrestamp]

/-- What a valid `getData` returns is the accumulated tree if and only if the messages since the
capture that it returns have left the tree as it was. -/
theorem tf_sends_tree_iff (hserialize : Function.Injective serialize) {start r : TfRun X}
    {as : List (TfAction X)} (hstart : (TfRun.system serialize).start start)
    (hrun : (TfRun.system serialize).run anyStep start as = some r)
    (hvalid : r.manager.base.getData.2.2 = true) :
    ∃ n upTo since, r.offered = some n ∧ as = upTo ++ since ∧ CapturedBy serialize start n upTo ∧
      (r.manager.base.getData.2.1 = serialize r.manager.tfs ↔
        accumulated start.manager (upTo ++ since) = accumulated start.manager upTo) := by
  have hreach := System.Reachable.run (.start hstart) hrun
  obtain ⟨q, h⟩ := TfRun.reachable_inv hreach
  obtain ⟨n, f, hoffered, hcaptured, hdata⟩ := h.data hvalid
  obtain ⟨haccepted, _, hrestamp, hcaptures⟩ := TfRun.run_received hstart hrun
  obtain ⟨upTo, since, rfl, hcapture, htree⟩ := hcaptures n f hcaptured
  refine ⟨n, upTo, since, hoffered, rfl, hcapture, ?_⟩
  have hnow : r.manager.tfs = accumulated start.manager (upTo ++ since) := by
    rw [(TfRun.reachable_settled hreach).latest, haccepted, hrestamp]
    rfl
  rw [hdata, htree, hnow, hserialize.eq_iff]
  exact eq_comm

/-- What is put into a byte string can be told from what follows. -/
def PrefixCode {α : Type} (put : α → Bytes) : Prop :=
  ∀ a b r s, put a ++ r = put b ++ s → a = b ∧ r = s

/-- Every item is announced, and so is the end. -/
def putList {α : Type} (put : α → Bytes) : List α → Bytes
  | [] => [0]
  | a :: as => 1 :: (put a ++ putList put as)

theorem PrefixCode.list {α : Type} {put : α → Bytes} (h : PrefixCode put) :
    PrefixCode (putList put) := by
  intro as
  induction as with
  | nil =>
    intro bs r s heq
    cases bs with
    | nil => exact ⟨rfl, List.append_cancel_left heq⟩
    | cons b bs =>
      injection heq with hmark
      exact absurd hmark (by decide)
  | cons a as ih =>
    intro bs r s heq
    cases bs with
    | nil =>
      injection heq with hmark
      exact absurd hmark (by decide)
    | cons b bs =>
      injection heq with _ hrest
      rw [List.append_eq, List.append_eq, List.append_assoc, List.append_assoc] at hrest
      obtain ⟨rfl, htail⟩ := h a b _ _ hrest
      obtain ⟨rfl, hend⟩ := ih bs r s htail
      exact ⟨rfl, hend⟩

theorem putU32_prefixCode : PrefixCode putU32 := by
  intro a b r s heq
  obtain ⟨hput, hrest⟩ := List.append_inj heq (by simp)
  refine ⟨?_, hrest⟩
  have hget := congrArg getU32 hput
  rwa [← List.append_nil (putU32 a), ← List.append_nil (putU32 b), getU32_putU32,
    getU32_putU32] at hget

def putName (name : String) : Bytes := putList (fun c : Char => putU32 c.val) name.toList

theorem putName_prefixCode : PrefixCode putName := by
  intro a b r s heq
  have hchar : PrefixCode fun c : Char => putU32 c.val := by
    intro c d r s hcd
    obtain ⟨hval, hrest⟩ := putU32_prefixCode _ _ _ _ hcd
    exact ⟨Char.ext hval, hrest⟩
  obtain ⟨hlist, hrest⟩ := hchar.list _ _ _ _ heq
  exact ⟨String.toList_injective hlist, hrest⟩

def putTransform (t : TransformStamped Unit) : Bytes :=
  putU32 t.stamp.sec.toUInt32 ++ (putU32 t.stamp.nanosec ++ (putName t.frameId ++
    putName t.childFrameId))

theorem putTransform_prefixCode : PrefixCode putTransform := by
  rintro ⟨⟨sec, nanosec⟩, frameId, childFrameId, _⟩ ⟨⟨sec', nanosec'⟩, frameId', childFrameId', _⟩
    r s heq
  simp only [putTransform, List.append_assoc] at heq
  obtain ⟨hsec, hrest⟩ := putU32_prefixCode _ _ _ _ heq
  obtain ⟨rfl, hnames⟩ := putU32_prefixCode _ _ _ _ hrest
  obtain ⟨rfl, hchild⟩ := putName_prefixCode _ _ _ _ hnames
  obtain ⟨rfl, hend⟩ := putName_prefixCode _ _ _ _ hchild
  have hback := congrArg UInt32.toInt32 hsec
  rw [Int32.toInt32_toUInt32, Int32.toInt32_toUInt32] at hback
  subst hback
  exact ⟨rfl, hend⟩

def putTree : TFMessage Unit → Bytes := putList putTransform

theorem putTree_injective : Function.Injective putTree := by
  intro a b heq
  exact (putTransform_prefixCode.list a b [] [] (congrArg (· ++ []) heq)).1

def messages (msgs : List (TFMessage Unit)) : List (TfAction Unit) :=
  msgs.map fun tfmsg => .tf2Callback tfmsg 0

def newManager : TfRun Unit := { manager := { base := .create false, staticTf := false } }

theorem newManager_start (serialize : TFMessage Unit → Bytes) :
    (TfRun.system serialize).start newManager := ⟨false, false, [], [], false, rfl⟩

/-- The second message brings nothing new. -/
theorem tf_sends_tree_repeated :
    ∃ r, (TfRun.system putTree).run anyStep newManager
        (messages [[edge 1 "map" "odom"], [edge 1 "map" "odom"]]) = some r ∧
      r.offered = some 0 ∧ r.manager.base.getData.2.2 = true ∧
      r.manager.base.getData.2.1 = putTree [edge 1 "map" "odom"] := by
  obtain ⟨r, hr, hvalid, htfs, hoffered⟩ : ∃ r,
      (TfRun.system putTree).run anyStep newManager
          (messages [[edge 1 "map" "odom"], [edge 1 "map" "odom"]]) = some r ∧
        r.manager.base.getData.2.2 = true ∧ r.manager.tfs = [edge 1 "map" "odom"] ∧
        r.offered = some 0 := ⟨_, rfl, rfl, rfl, rfl⟩
  obtain ⟨n, upTo, since, _, hsplit, ⟨u, v, _, hv, _, hlen⟩, hsent⟩ :=
    tf_sends_tree_iff putTree_injective (newManager_start putTree) hr hvalid
  refine ⟨r, hr, hoffered, hvalid, ?_⟩
  rw [← htfs]
  apply hsent.mpr
  rw [← hsplit]
  match upTo, hsplit with
  | [], _ =>
    cases hv
    cases hlen
  | [a], hsplit =>
    obtain rfl := (List.cons.inj hsplit).1
    decide
  | [a, b], hsplit =>
    obtain ⟨rfl, htail⟩ := List.cons.inj hsplit
    obtain rfl := (List.cons.inj htail).1
    rfl

theorem tf_sends_old_tree :
    ¬ ∀ (serialize : TFMessage Unit → Bytes) (r : TfRun Unit), Function.Injective serialize →
      (TfRun.system serialize).Reachable anyStep r → r.manager.base.getData.2.2 = true →
      r.manager.base.getData.2.1 = serialize r.manager.tfs := by
  intro h
  obtain ⟨r, hr, hvalid, htfs, hoffered, hframe⟩ : ∃ r,
      (TfRun.system putTree).run anyStep newManager
          (messages [[edge 1 "map" "odom"], [edge 1 "odom" "base"]]) = some r ∧
        r.manager.base.getData.2.2 = true ∧
        r.manager.tfs = [edge 1 "map" "odom", edge 1 "odom" "base"] ∧ r.offered = some 0 ∧
        r.captured[0]?.map SensorFrame.data = some (putTree [edge 1 "map" "odom"]) :=
    ⟨_, rfl, rfl, rfl, rfl, rfl⟩
  have hreach := System.Reachable.run (.start (newManager_start putTree)) hr
  have hsent := h putTree r putTree_injective hreach hvalid
  obtain ⟨q, hinv⟩ := TfRun.reachable_inv hreach
  obtain ⟨n, f, hn, hf, hdata⟩ := hinv.data hvalid
  obtain rfl := Option.some.inj (hn.symm.trans hoffered)
  rw [hf, Option.map_some, Option.some.injEq] at hframe
  rw [hdata, hframe, htfs] at hsent
  exact absurd (putTree_injective hsent) (by decide)

end SensorForge
