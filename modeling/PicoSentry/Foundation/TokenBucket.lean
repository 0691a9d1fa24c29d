import Mathlib.Algebra.Order.Ring.Defs
import Mathlib.Tactic.Linarith
import Mathlib.Tactic.Ring

namespace PicoSentry.Foundation

structure TokenBucket (K : Type) where
  tokens : K
  lastRefill : K
  rate : K
  burst : K

namespace TokenBucket

variable {K : Type} [CommRing K] [LinearOrder K]

def full (rate burst now : K) : TokenBucket K where
  tokens := burst
  lastRefill := now
  rate := rate
  burst := burst

def available (b : TokenBucket K) (now : K) : K :=
  min b.burst (b.tokens + (now - b.lastRefill) * b.rate)

def refill (b : TokenBucket K) (now : K) : TokenBucket K :=
  { b with tokens := b.available now, lastRefill := now }

def consume (b : TokenBucket K) (tokens now : K) : TokenBucket K × Bool :=
  let b := b.refill now
  if tokens ≤ b.tokens then ({ b with tokens := b.tokens - tokens }, true) else (b, false)

structure Sound (rate burst now : K) (b : TokenBucket K) : Prop where
  rate_eq : b.rate = rate
  burst_eq : b.burst = burst
  refilled : b.lastRefill ≤ now
  floor : min 0 burst ≤ b.tokens

section Consume

variable {b : TokenBucket K} {tokens now rate burst t : K}

theorem consume_of_le (h : tokens ≤ b.available now) : b.consume tokens now =
    ({ b with tokens := b.available now - tokens, lastRefill := now }, true) := if_pos h

theorem consume_of_not_le (h : ¬tokens ≤ b.available now) :
    b.consume tokens now = (b.refill now, false) := if_neg h

theorem consume_snd (b : TokenBucket K) (tokens now : K) :
    (b.consume tokens now).2 = decide (tokens ≤ b.available now) := by
  by_cases h : tokens ≤ b.available now
  · rw [consume_of_le h, decide_eq_true h]
  · rw [consume_of_not_le h, decide_eq_false h]

theorem available_consume (x : K) : (b.consume tokens now).1.available x = min b.burst
    (b.available now - (if tokens ≤ b.available now then tokens else 0) + (x - now) * b.rate) := by
  by_cases h : tokens ≤ b.available now
  · rw [consume_of_le h, if_pos h]
    rfl
  · rw [consume_of_not_le h, if_neg h, sub_zero]
    rfl

theorem available_le_burst (b : TokenBucket K) (now : K) : b.available now ≤ b.burst :=
  min_le_left _ _

theorem sound_full (rate burst now : K) : Sound rate burst now (full rate burst now) :=
  ⟨rfl, rfl, le_refl now, min_le_right 0 burst⟩

theorem Sound.later (h : Sound rate burst now b) (hnow : now ≤ t) : Sound rate burst t b :=
  ⟨h.rate_eq, h.burst_eq, h.refilled.trans hnow, h.floor⟩

end Consume

section Refill

variable [IsStrictOrderedRing K] {b : TokenBucket K} {rate burst now t x y : K}

theorem gain_nonneg (hrate : 0 ≤ rate) (h : x ≤ y) : 0 ≤ (y - x) * rate :=
  mul_nonneg (sub_nonneg.mpr h) hrate

theorem available_advance (hrate : 0 ≤ b.rate) (h : now ≤ x) :
    b.available x = min b.burst (b.available now + (x - now) * b.rate) := by
  have hsplit : b.tokens + (x - b.lastRefill) * b.rate =
      b.tokens + (now - b.lastRefill) * b.rate + (x - now) * b.rate := by ring
  rw [available, available, hsplit, ← min_add_add_right, ← min_assoc,
    min_eq_left (le_add_of_nonneg_right (gain_nonneg hrate h))]

theorem available_le (hrate : 0 ≤ b.rate) (h : x ≤ y) :
    b.available y ≤ b.available x + (y - x) * b.rate := by
  rw [available_advance hrate h]
  exact min_le_right _ _

theorem available_full (hrate : 0 ≤ rate) (h : now ≤ x) : (full rate burst now).available x = burst :=
  min_eq_left (le_add_of_nonneg_right (gain_nonneg hrate h))

theorem Sound.floor_le_available (h : Sound rate burst now b) (hrate : 0 ≤ rate) (hx : now ≤ x) :
    min 0 burst ≤ b.available x := by
  have hgain : 0 ≤ (x - b.lastRefill) * b.rate :=
    gain_nonneg (h.rate_eq.symm ▸ hrate) (h.refilled.trans hx)
  rw [available, h.burst_eq]
  exact le_min (min_le_right 0 burst) (h.floor.trans (le_add_of_nonneg_right hgain))

theorem Sound.consume (h : Sound rate burst now b) (hrate : 0 ≤ rate) (hx : now ≤ x) (tokens : K) :
    Sound rate burst x (b.consume tokens x).1 := by
  by_cases hle : tokens ≤ b.available x
  · rw [consume_of_le hle]
    exact ⟨h.rate_eq, h.burst_eq, le_refl x, (min_le_left 0 burst).trans (sub_nonneg.mpr hle)⟩
  · rw [consume_of_not_le hle]
    exact ⟨h.rate_eq, h.burst_eq, le_refl x, h.floor_le_available hrate hx⟩

theorem Sound.available_idle (h : Sound rate burst now b) (hrate : 0 ≤ rate) {idle : K}
    (hidle : burst ≤ idle * rate) (hstale : b.lastRefill < t - idle) (hnow : now ≤ t) (hx : t ≤ x) :
    b.available x = burst := by
  have hwait : idle ≤ x - b.lastRefill := by linarith
  have hgain : idle * rate ≤ (x - b.lastRefill) * rate := mul_le_mul_of_nonneg_right hwait hrate
  have hnonneg : 0 ≤ (x - b.lastRefill) * rate :=
    gain_nonneg hrate (h.refilled.trans (hnow.trans hx))
  rw [available, h.burst_eq, h.rate_eq, min_eq_left]
  rcases le_total 0 burst with hpos | hneg
  · have htokens : 0 ≤ b.tokens := min_eq_left hpos ▸ h.floor
    linarith
  · have htokens : burst ≤ b.tokens := min_eq_right hneg ▸ h.floor
    linarith

end Refill

end TokenBucket

end PicoSentry.Foundation
