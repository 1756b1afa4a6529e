import Mathlib

/-! A token bucket over an ordered field. Refills that are no faster than `cap` leave
what is spent within the burst and the rate of `cap`. -/

namespace TokenBucket

variable {K : Type*} [Field K] [LinearOrder K] [IsStrictOrderedRing K]

structure Bucket (K : Type*) where
  tokens : K
  last : K

/-- In every `unit` of the clock `cap` tokens come in, and no more than `cap` are kept. -/
def Bucket.refill (unit cap now : K) (b : Bucket K) : Bucket K where
  tokens := min cap (b.tokens + (now - b.last) / unit * cap)
  last := now

def Bucket.take (size : K) (b : Bucket K) : Bucket K where
  tokens := b.tokens - size
  last := b.last

/-- What has been spent since `t₀`, alone and with the tokens that are left. -/
structure Bucket.Within (unit cap t₀ spent : K) (b : Bucket K) : Prop where
  spent_le : spent ≤ cap * (1 + (b.last - t₀) / unit)
  budget : spent + b.tokens ≤ cap * (1 + (b.last - t₀) / unit)

variable {unit cap cap' t₀ spent now size : K} {b : Bucket K}

omit [IsStrictOrderedRing K] in
theorem Bucket.refill_le (b : Bucket K) (unit cap now : K) : (b.refill unit cap now).tokens ≤ cap :=
  min_le_left _ _

theorem le_burst (hunit : 0 < unit) (hcap : 0 ≤ cap) {t : K} (ht : t₀ ≤ t) :
    cap ≤ cap * (1 + (t - t₀) / unit) := by
  have helapsed : 0 ≤ (t - t₀) / unit := div_nonneg (sub_nonneg.mpr ht) hunit.le
  exact le_mul_of_one_le_right hcap (by linarith)

theorem Bucket.Within.start (hunit : 0 < unit) (hcap : 0 ≤ cap) (htokens : b.tokens ≤ cap)
    (hlast : t₀ ≤ b.last) : b.Within unit cap t₀ 0 := by
  have hburst := le_burst hunit hcap hlast
  exact ⟨hcap.trans hburst, by linarith⟩

omit [LinearOrder K] [IsStrictOrderedRing K] in
theorem rate_add (unit cap t₀ t t' : K) : cap * (1 + (t - t₀) / unit) + (t' - t) / unit * cap =
    cap * (1 + (t' - t₀) / unit) := by
  ring

theorem rate_mono (hunit : 0 < unit) (hcap : 0 ≤ cap) {t t' : K} (ht : t ≤ t') :
    cap * (1 + (t - t₀) / unit) ≤ cap * (1 + (t' - t₀) / unit) := by
  rw [← rate_add unit cap t₀ t t']
  exact le_add_of_nonneg_right (mul_nonneg (div_nonneg (sub_nonneg.mpr ht) hunit.le) hcap)

theorem Bucket.Within.refill (h : b.Within unit cap t₀ spent) (hunit : 0 < unit) (hcap : 0 ≤ cap)
    (hslower : cap' ≤ cap) (hnow : b.last ≤ now) :
    (b.refill unit cap' now).Within unit cap t₀ spent := by
  have hcredit : (now - b.last) / unit * cap' ≤ (now - b.last) / unit * cap :=
    mul_le_mul_of_nonneg_left hslower (div_nonneg (sub_nonneg.mpr hnow) hunit.le)
  refine ⟨h.spent_le.trans (rate_mono hunit hcap hnow), ?_⟩
  calc spent + min cap' (b.tokens + (now - b.last) / unit * cap')
      ≤ spent + (b.tokens + (now - b.last) / unit * cap') := by gcongr; exact min_le_right _ _
    _ ≤ spent + b.tokens + (now - b.last) / unit * cap := by linarith
    _ ≤ cap * (1 + (b.last - t₀) / unit) + (now - b.last) / unit * cap := by
        linarith [h.budget]
    _ = cap * (1 + (now - t₀) / unit) := rate_add ..

/-- A refill at the time of the last one brings nothing in, whatever its rate. -/
theorem Bucket.Within.idle (h : b.Within unit cap t₀ spent) :
    (b.refill unit cap' b.last).Within unit cap t₀ spent := by
  refine ⟨h.spent_le, le_trans ?_ h.budget⟩
  gcongr
  calc min cap' (b.tokens + (b.last - b.last) / unit * cap')
      ≤ b.tokens + (b.last - b.last) / unit * cap' := min_le_right _ _
    _ = b.tokens := by rw [sub_self, zero_div, zero_mul, add_zero]

theorem Bucket.Within.take (h : b.Within unit cap t₀ spent) (hsize : size ≤ b.tokens) :
    (b.take size).Within unit cap t₀ (spent + size) := by
  have hbudget := h.budget
  constructor
  · exact le_trans (by linarith) hbudget
  · exact le_trans (by simp [Bucket.take]) hbudget

theorem Bucket.Within.waste (h : b.Within unit cap t₀ spent) (hsize : 0 ≤ size) :
    (b.take size).Within unit cap t₀ spent :=
  ⟨h.spent_le, le_trans (by simpa [Bucket.take] using hsize) h.budget⟩

end TokenBucket
