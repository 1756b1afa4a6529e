import SensorForge.TfSnapshots

/-! When a manager offers data to the send timer: what `hasData` reads from the ring
against what the virtual `isStale` says. -/

namespace SensorForge

open SensorForge.Core Protocol Transition

variable {X : Type} {serialize : TFMessage X → Bytes}

/-- `isStale` is the answer of the manager's own kind. -/
def SubscriptionManager.FollowsStaleness (m : SubscriptionManager) (isStale : Bool) : Prop :=
  m.hasData = true ↔ m.publishStaleData = true ∨ isStale = false

theorem CaptureRun.Inv.hasData_iff {s : CaptureRun} {q : FrameQueue} (h : s.Inv q)
    (hreceived : s.manager.receivedMsg = true) :
    s.manager.hasData = true ↔ s.manager.publishStaleData = true ∨ q.items ≠ [] := by
  rw [SubscriptionManager.hasData, hreceived, represents_emptyApprox h.ring]
  cases hitems : q.items with
  | nil => simp
  | cons f fs => simp

theorem CaptureRun.Inv.getData_valid {s : CaptureRun} {q : FrameQueue} (h : s.Inv q)
    (hdata : s.manager.hasData = true) (hcaptured : ∀ f ∈ s.captured, f.data ≠ []) :
    s.manager.getData.2.2 = true := by
  have hreceived : s.manager.receivedMsg = true := by
    by_contra hnot
    simp [SubscriptionManager.hasData, hnot] at hdata
  rcases SubscriptionManager.getData_cases h.ring hreceived with
    ⟨f, q', ring', _, _, hget⟩ | ⟨_, _, _, hget⟩ | ⟨hempty, hresend, hget⟩
  · rw [hget]
  · rw [hget]
  · -- nothing is left in the ring, so the frame sent last is one of the captured ones
    exfalso
    have hoffered := h.offered (by
      have hne := h.received
      rw [hreceived] at hne
      intro hnil
      rw [hnil] at hne
      cases hne)
    rw [hempty, List.append_nil] at hoffered
    have hcurrent := h.current
    rw [List.getLast?_eq_some_getLast hoffered, Option.getD_some] at hcurrent
    have hmem : s.popped.getLast hoffered ∈ s.captured :=
      h.order.subset (List.mem_append_left _ (List.getLast_mem hoffered))
    rcases hresend with hpublish | hnodata
    · rcases (h.hasData_iff hreceived).mp hdata with hstale | hne
      · rw [hpublish] at hstale
        cases hstale
      · exact hne hempty
    · rw [hcurrent] at hnodata
      exact hcaptured _ hmem hnodata

/-- The availability of a base manager follows its staleness, and that of a TF manager
does unless it is static, does not send stale data, and has an empty ring. What is
available is valid. -/
theorem availability_iff {publishStaleData : Bool} {s : CaptureRun}
    (hs : (CaptureRun.system publishStaleData).Reachable anyStep s) {r : TfRun X}
    (hr : (TfRun.system serialize).Reachable anyStep r) :
    (s.manager.receivedMsg = true → s.manager.FollowsStaleness s.manager.isStale) ∧
      (s.manager.hasData = true → (∀ f ∈ s.captured, f.data ≠ []) →
        s.manager.getData.2.2 = true) ∧
      (r.manager.base.receivedMsg = true →
        (r.manager.base.FollowsStaleness r.manager.isStale ↔
          (r.manager.staticTf = true → r.manager.base.publishStaleData = true ∨
            r.manager.base.ring.items ≠ []))) ∧
      (r.manager.base.hasData = true → (∀ f ∈ r.captured, f.data ≠ []) →
        r.manager.base.getData.2.2 = true) := by
  obtain ⟨q, hq⟩ := CaptureRun.reachable_inv hs
  obtain ⟨p, hp⟩ := TfRun.reachable_inv hr
  have hstale : ∀ {s : CaptureRun} {q : FrameQueue}, s.Inv q →
      (s.manager.isStale = false ↔ q.items ≠ []) := by
    intro s q h
    rw [SubscriptionManager.isStale, h.stale, List.isEmpty_eq_false_iff]
  refine ⟨?_, hq.getData_valid, ?_, hp.base.getData_valid⟩
  · intro hreceived
    rw [SubscriptionManager.FollowsStaleness, hq.hasData_iff hreceived, hstale hq]
  · intro hreceived
    have hdata : r.manager.base.hasData = true ↔
      r.manager.base.publishStaleData = true ∨ p.items ≠ [] := hp.base.hasData_iff hreceived
    have hring : r.manager.base.ring.items = p.items := hp.base.ring.items
    rw [SubscriptionManager.FollowsStaleness, hdata, hring, SubscriptionManagerTF.isStale]
    cases hstatic : r.manager.staticTf with
    | true => simp
    | false =>
      have hbase : r.manager.base.isStale = false ↔ p.items ≠ [] := hstale hp.base
      simp [hbase]

/-- A static manager after a message and `sends` send ticks. -/
def staticSent (sends : Nat) : Option (TfRun Unit) :=
  (TfRun.system fun _ => [1]).run anyStep
    { manager := { base := .create false, staticTf := true } }
    (.tf2Callback [edge 1 "map" "odom"] 0 :: List.replicate sends .getData)

theorem staticSent_reachable {sends : Nat} {r : TfRun Unit} (h : staticSent sends = some r) :
    (TfRun.system fun _ : TFMessage Unit => [1]).Reachable anyStep r :=
  System.Reachable.run (.start ⟨false, true, [], [], false, rfl⟩) h

theorem availability_before_send :
    ∃ r, staticSent 0 = some r ∧ r.manager.base.FollowsStaleness r.manager.isStale := by
  obtain ⟨r, hr, hreceived, hitems⟩ : ∃ r, staticSent 0 = some r ∧
      r.manager.base.receivedMsg = true ∧ r.manager.base.ring.items.isEmpty = false :=
    ⟨_, rfl, rfl, by decide +kernel⟩
  have hstart : (CaptureRun.system false).Reachable anyStep { manager := .create false } :=
    .start rfl
  refine ⟨r, hr, ((availability_iff hstart (staticSent_reachable hr)).2.2.1 hreceived).mpr ?_⟩
  intro _
  exact .inr (List.isEmpty_eq_false_iff.mp hitems)

theorem static_tf_withheld :
    ¬ ∀ (r : TfRun Unit), (TfRun.system fun _ : TFMessage Unit => [1]).Reachable anyStep r →
      r.manager.base.receivedMsg = true →
      r.manager.base.FollowsStaleness r.manager.isStale := by
  intro h
  obtain ⟨r, hr, hreceived, hstale, hdata⟩ : ∃ r, staticSent 1 = some r ∧
      r.manager.base.receivedMsg = true ∧ r.manager.isStale = false ∧
        r.manager.base.hasData = false := ⟨_, rfl, rfl, rfl, by decide +kernel⟩
  have hfollows := h r (staticSent_reachable hr) hreceived
  rw [SubscriptionManager.FollowsStaleness, hdata, hstale] at hfollows
  simp at hfollows

end SensorForge
