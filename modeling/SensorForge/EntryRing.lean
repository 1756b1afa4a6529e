import Mathlib

/-! A ring of entries that are first reserved and then written. An entry keeps what it holds
until it is written again, so that what is taken before it is written is stale. -/

/-- The entries between `head` and `tail` are in use; each has its cell. -/
structure EntryRing (α : Type*) where
  entries : Nat
  cells : Nat → α
  head : Nat := 0
  tail : Nat := 0

namespace EntryRing

variable {α θ : Type*} {q q' : EntryRing α} {owner : θ → Option Nat} {k k' n : Nat} {a : α} {th : θ}

def get (q : EntryRing α) (k : Nat) : α := q.cells (k % q.entries)

def set (q : EntryRing α) (k : Nat) (a : α) : EntryRing α :=
  { q with cells := Function.update q.cells (k % q.entries) a }

/-- The next entry, whatever its cell holds. -/
def reserve (q : EntryRing α) : Option (Nat × EntryRing α) :=
  if q.tail - q.head < q.entries then some (q.tail, { q with tail := q.tail + 1 }) else none

/-- What the first `n` entries hold. -/
def taken (q : EntryRing α) (n : Nat) : List α :=
  (List.range' q.head (min n (q.tail - q.head))).map q.get

def take (q : EntryRing α) (n : Nat) : EntryRing α :=
  { q with head := q.head + min n (q.tail - q.head) }

/-- Every entry that somebody has reserved and not released is in use, and has one owner. -/
structure Owned (q : EntryRing α) (owner : θ → Option Nat) : Prop where
  le : q.head ≤ q.tail
  room : q.tail ≤ q.head + q.entries
  inside : ∀ th k, owner th = some k → q.head ≤ k ∧ k < q.tail
  apart : ∀ th th' k, owner th = some k → owner th' = some k → th = th'

theorem reserve_eq_some_iff : q.reserve = some (k, q') ↔
    q.tail - q.head < q.entries ∧ k = q.tail ∧ q' = { q with tail := q.tail + 1 } := by
  unfold reserve
  split
  · next h => simp [h, eq_comm]
  · next h => simp [h]

theorem reserve_eq_none_iff : q.reserve = none ↔ q.entries ≤ q.tail - q.head := by
  unfold reserve
  split
  · next h => simpa using h
  · next h => simpa using h

@[simp] theorem get_set_self : (q.set k a).get k = a := Function.update_self _ _ _

/-- Entries in use have cells of their own. -/
theorem Owned.get_set_of_ne (h : q.Owned owner) (hk : q.head ≤ k ∧ k < q.tail)
    (hk' : q.head ≤ k' ∧ k' < q.tail) (hne : k' ≠ k) : (q.set k a).get k' = q.get k' := by
  refine Function.update_of_ne (fun heq : k' % q.entries = k % q.entries => hne ?_) _ _
  have hroom := h.room
  rcases Nat.le_total k k' with hle | hle
  · have hdvd := (Nat.modEq_iff_dvd' hle).mp heq.symm
    have hzero := Nat.eq_zero_of_dvd_of_lt hdvd (by omega)
    omega
  · have hdvd := (Nat.modEq_iff_dvd' hle).mp heq
    have hzero := Nat.eq_zero_of_dvd_of_lt hdvd (by omega)
    omega

theorem Owned.set (h : q.Owned owner) : (q.set k a).Owned owner := ⟨h.le, h.room, h.inside, h.apart⟩

theorem Owned.take (h : q.Owned owner) (hnone : ∀ th, owner th = none) :
    (q.take n).Owned owner where
  le := by
    have hle := h.le
    simp only [EntryRing.take]
    omega
  room := h.room.trans (by simp [EntryRing.take])
  inside th k hk := by
    rw [hnone] at hk
    cases hk
  apart := h.apart

section Update

variable [DecidableEq θ]

theorem Owned.reserve (h : q.Owned owner) (hq : q.reserve = some (k, q')) (hth : owner th = none) :
    q'.Owned (Function.update owner th (some k)) := by
  obtain ⟨hlt, rfl, rfl⟩ := reserve_eq_some_iff.mp hq
  have hold : ∀ th', th' ≠ th → ∀ k, Function.update owner th (some q.tail) th' = some k →
      owner th' = some k := by
    intro th' hne k hk
    rwa [Function.update_of_ne hne] at hk
  have hle := h.le
  constructor
  case le => exact Nat.le_succ_of_le hle
  case room =>
    dsimp only
    omega
  case inside =>
    intro th' k hk
    by_cases hne : th' = th
    · subst hne
      rw [Function.update_self, Option.some.injEq] at hk
      subst hk
      exact ⟨hle, Nat.lt_succ_self _⟩
    · have hin := h.inside th' k (hold th' hne k hk)
      exact ⟨hin.1, Nat.lt_succ_of_lt hin.2⟩
  case apart =>
    -- the new owner against the others: its entry was not in use
    have hnew : ∀ th', th' ≠ th → Function.update owner th (some q.tail) th' ≠ some q.tail := by
      intro th' hne hk
      exact Nat.lt_irrefl _ (h.inside th' _ (hold th' hne _ hk)).2
    intro th₁ th₂ k h₁ h₂
    by_cases hne₁ : th₁ = th <;> by_cases hne₂ : th₂ = th
    · rw [hne₁, hne₂]
    · subst hne₁
      rw [Function.update_self] at h₁
      exact absurd (h₂.trans h₁.symm) (hnew th₂ hne₂)
    · subst hne₂
      rw [Function.update_self] at h₂
      exact absurd (h₁.trans h₂.symm) (hnew th₁ hne₁)
    · exact h.apart th₁ th₂ k (hold th₁ hne₁ k h₁) (hold th₂ hne₂ k h₂)

theorem Owned.release (h : q.Owned owner) (th : θ) : q.Owned (Function.update owner th none) := by
  have hold : ∀ th' k, Function.update owner th none th' = some k → owner th' = some k := by
    intro th' k hk
    by_cases hne : th' = th
    · subst hne
      rw [Function.update_self] at hk
      cases hk
    · rwa [Function.update_of_ne hne] at hk
  exact ⟨h.le, h.room, fun th' k hk => h.inside th' k (hold th' k hk),
    fun th₁ th₂ k h₁ h₂ => h.apart th₁ th₂ k (hold th₁ k h₁) (hold th₂ k h₂)⟩

end Update

section Contents

variable [Fintype θ]

/-- The entries in use that nobody has reserved. -/
def written (q : EntryRing α) (owner : θ → Option Nat) : Finset Nat :=
  (Finset.Ico q.head q.tail).filter fun k => ∀ th, owner th ≠ some k

def contents (q : EntryRing α) (owner : θ → Option Nat) : Multiset α :=
  (q.written owner).val.map q.get

theorem mem_written : k ∈ q.written owner ↔
    (q.head ≤ k ∧ k < q.tail) ∧ ∀ th, owner th ≠ some k := by
  rw [written, Finset.mem_filter, Finset.mem_Ico]

theorem contents_congr {owner' : θ → Option Nat} (hwritten : q'.written owner' = q.written owner)
    (hget : ∀ k ∈ q.written owner, q'.get k = q.get k) : q'.contents owner' = q.contents owner := by
  rw [contents, contents, hwritten]
  exact Multiset.map_congr rfl hget

/-- Writing to a reserved entry does not change the others. -/
theorem Owned.contents_set (h : q.Owned owner) (hth : owner th = some k) :
    (q.set k a).contents owner = q.contents owner := by
  refine contents_congr rfl fun k' hk' => ?_
  obtain ⟨hin, hfree⟩ := mem_written.mp hk'
  exact h.get_set_of_ne (h.inside th k hth) hin fun heq => hfree th (heq ▸ hth)

theorem contents_empty (h : q.head = q.tail) : q.contents owner = 0 := by
  rw [contents, written, h, Finset.Ico_self]
  rfl

/-- All entries are written when nobody has one reserved, and the first of them are taken. -/
theorem Owned.contents_take (h : q.Owned owner) (hnone : ∀ th, owner th = none) (n : Nat) :
    q.contents owner = ↑(q.taken n) + (q.take n).contents owner := by
  have hall : ∀ q : EntryRing α, q.written owner = Finset.Ico q.head q.tail := fun q =>
    Finset.filter_true_of_mem fun k _ th => by simp [hnone]
  have hle := h.le
  have hsplit : (Finset.Ico q.head q.tail).val =
      ↑(List.range' q.head (min n (q.tail - q.head))) +
        (Finset.Ico (q.take n).head (q.take n).tail).val := by
    have hlen : min n (q.tail - q.head) + (q.tail - (q.head + min n (q.tail - q.head))) =
        q.tail - q.head := by omega
    change (↑(List.range' q.head (q.tail - q.head)) : Multiset Nat) =
      ↑(List.range' q.head (min n (q.tail - q.head))) +
        ↑(List.range' (q.head + min n (q.tail - q.head))
          (q.tail - (q.head + min n (q.tail - q.head))))
    rw [Multiset.coe_add, List.range'_append_1, hlen]
  rw [contents, contents, hall, hall, hsplit, Multiset.map_add, taken, Multiset.map_coe]
  rfl

variable [DecidableEq θ]

/-- A reserved entry is not written, and the others stay as they are. -/
theorem contents_reserve (hq : q.reserve = some (k, q')) (hth : owner th = none) :
    q'.contents (Function.update owner th (some k)) = q.contents owner := by
  obtain ⟨hlt, rfl, rfl⟩ := reserve_eq_some_iff.mp hq
  refine contents_congr ?_ fun _ _ => rfl
  ext k
  rw [mem_written, mem_written]
  constructor
  · rintro ⟨⟨hhead, htail⟩, hfree⟩
    have hne : k ≠ q.tail := by
      rintro rfl
      exact hfree th (Function.update_self _ _ _)
    refine ⟨⟨hhead, Nat.lt_of_le_of_ne (Nat.le_of_lt_succ htail) hne⟩, fun th' hk => ?_⟩
    by_cases heq : th' = th
    · rw [heq, hth] at hk
      cases hk
    · exact hfree th' ((Function.update_of_ne heq _ _).trans hk)
  · rintro ⟨⟨hhead, htail⟩, hfree⟩
    refine ⟨⟨hhead, Nat.lt_succ_of_lt htail⟩, fun th' hk => ?_⟩
    by_cases heq : th' = th
    · rw [heq, Function.update_self, Option.some.injEq] at hk
      exact Nat.lt_irrefl _ (hk ▸ htail)
    · rw [Function.update_of_ne heq] at hk
      exact hfree th' hk

/-- An entry that its owner releases is one of those written. -/
theorem Owned.contents_release (h : q.Owned owner) (hth : owner th = some k) :
    q.contents (Function.update owner th none) = q.get k ::ₘ q.contents owner := by
  have hfresh : k ∉ q.written owner := fun hk => (mem_written.mp hk).2 th hth
  have hinsert : q.written (Function.update owner th none) = insert k (q.written owner) := by
    ext j
    rw [Finset.mem_insert, mem_written, mem_written]
    constructor
    · rintro ⟨hin, hfree⟩
      by_cases hj : j = k
      · exact .inl hj
      · refine .inr ⟨hin, fun th' hk => ?_⟩
        by_cases heq : th' = th
        · rw [heq, hth, Option.some.injEq] at hk
          exact hj hk.symm
        · exact hfree th' ((Function.update_of_ne heq _ _).trans hk)
    · rintro (rfl | ⟨hin, hfree⟩)
      · refine ⟨h.inside th j hth, fun th' hk => ?_⟩
        by_cases heq : th' = th
        · rw [heq, Function.update_self] at hk
          cases hk
        · rw [Function.update_of_ne heq] at hk
          exact heq (h.apart th' th j hk hth)
      · refine ⟨hin, fun th' hk => ?_⟩
        by_cases heq : th' = th
        · rw [heq, Function.update_self] at hk
          cases hk
        · rw [Function.update_of_ne heq] at hk
          exact hfree th' hk
  rw [contents, hinsert, Finset.insert_val_of_notMem hfresh, Multiset.map_cons]
  rfl

end Contents

end EntryRing
