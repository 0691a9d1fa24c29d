import Mathlib.Algebra.Order.Floor.Ring
import Mathlib.Data.Rat.Floor

namespace PicoSentry.Foundation

-- A float, with exact arithmetic on the finite ones.
inductive Number where
  | negInf
  | finite (q : ℚ)
  | posInf
  | nan
  deriving DecidableEq

namespace Number

def lt : Number → Number → Bool
  | nan, _ => false
  | _, nan => false
  | _, negInf => false
  | negInf, _ => true
  | posInf, _ => false
  | finite _, posInf => true
  | finite p, finite q => p < q

def le : Number → Number → Bool
  | nan, _ => false
  | _, nan => false
  | negInf, _ => true
  | _, negInf => false
  | _, posInf => true
  | posInf, finite _ => false
  | finite p, finite q => p ≤ q

-- max and min of two keep the first unless the second is beyond it.
def max (x y : Number) : Number := if x.lt y then y else x

def min (x y : Number) : Number := if y.lt x then y else x

def roundHalfEven (q : ℚ) : ℤ :=
  let down := ⌊q⌋
  if q - down < 1 / 2 then down
  else if 1 / 2 < q - down then down + 1
  else if down % 2 = 0 then down else down + 1

def roundTo (places : Nat) : Number → Number
  | finite q => finite (roundHalfEven (q * 10 ^ places) / 10 ^ places)
  | x => x

def scale (factor : ℚ) : Number → Number
  | finite q => finite (q * factor)
  | x => x

theorem lt_finite {p q : ℚ} : (finite p).lt (finite q) = false ↔ q ≤ p :=
  decide_eq_false_iff_not.trans not_lt

theorem not_lt_of_le {x : Number} {p q : ℚ} (h : x.lt (finite q) = false) (hpq : p ≤ q) :
    x.lt (finite p) = false := by
  cases x with
  | finite r => exact lt_finite.mpr (hpq.trans (lt_finite.mp h))
  | negInf => cases h
  | posInf => rfl
  | nan => rfl

theorem lt_of_le {x : Number} {p q : ℚ} (h : x.le (finite p) = true) (hpq : p < q) :
    x.lt (finite q) = true := by
  cases x with
  | finite r => exact decide_eq_true ((of_decide_eq_true h).trans_lt hpq)
  | negInf => rfl
  | posInf => cases h
  | nan => cases h

theorem min_finite_not_lt {x : Number} {p q : ℚ} :
    (x.min (finite p)).lt (finite q) = false ↔ x = nan ∨ (finite q).le x = true ∧ q ≤ p := by
  cases x with
  | negInf => simp [Number.min, lt, le]
  | posInf => simp [Number.min, lt, le]
  | nan => simp [Number.min, lt]
  | finite r =>
    by_cases hlt : p < r
    · simp only [Number.min, lt, le, hlt, decide_true, if_true, decide_eq_false_iff_not, not_lt,
        reduceCtorEq, false_or, decide_eq_true_eq, iff_and_self]
      exact fun h => h.trans hlt.le
    · simp only [Number.min, lt, le, hlt, decide_false, Bool.false_eq_true, if_false,
        decide_eq_false_iff_not, not_lt, reduceCtorEq, false_or, decide_eq_true_eq, iff_self_and]
      exact fun h => h.trans (not_lt.mp hlt)

def Nonneg (x : Number) : Prop := le (finite 0) x = true

theorem nonneg_finite {q : ℚ} : Nonneg (finite q) ↔ 0 ≤ q := decide_eq_true_iff

theorem Nonneg.max {x : Number} (h : Nonneg x) (y : Number) : Nonneg (x.max y) := by
  rw [Number.max]
  split
  · next hlt =>
    cases x with
    | nan => cases hlt
    | negInf => cases h
    | posInf => cases y <;> cases hlt
    | finite p =>
      cases y with
      | nan => cases hlt
      | negInf => cases hlt
      | posInf => rfl
      | finite q => exact nonneg_finite.mpr ((nonneg_finite.mp h).trans (of_decide_eq_true hlt).le)
  · exact h

theorem Nonneg.min {x y : Number} (hx : Nonneg x) (hy : Nonneg y) : Nonneg (x.min y) := by
  rw [Number.min]
  split
  · exact hy
  · exact hx

theorem roundHalfEven_nonneg {q : ℚ} (h : 0 ≤ q) : 0 ≤ roundHalfEven q := by
  have hfloor : 0 ≤ ⌊q⌋ := Int.floor_nonneg.mpr h
  rw [roundHalfEven]
  split_ifs <;> omega

theorem Nonneg.roundTo {x : Number} (h : Nonneg x) (places : Nat) : Nonneg (x.roundTo places) := by
  cases x with
  | nan => cases h
  | negInf => cases h
  | posInf => rfl
  | finite q =>
    rw [nonneg_finite] at h
    have hround := roundHalfEven_nonneg (q := q * 10 ^ places) (by positivity)
    exact nonneg_finite.mpr (by positivity)

theorem Nonneg.le_of_le {x y : Number} (hx : Nonneg x) (hy : y.le (finite 0) = true) : y.le x = true := by
  cases y with
  | nan => cases hy
  | posInf => cases hy
  | negInf => cases x <;> first | rfl | cases hx
  | finite q =>
    cases x with
    | nan => cases hx
    | negInf => cases hx
    | posInf => rfl
    | finite p => exact decide_eq_true ((of_decide_eq_true hy).trans (nonneg_finite.mp hx))

theorem Nonneg.not_lt {x y : Number} (hx : Nonneg x) (hy : lt (finite 0) y = false) : x.lt y = false := by
  cases y with
  | nan => cases x <;> rfl
  | negInf => cases x <;> rfl
  | posInf => cases hy
  | finite q =>
    cases x with
    | nan => rfl
    | negInf => cases hx
    | posInf => rfl
    | finite p =>
      have hq := of_decide_eq_false hy
      exact decide_eq_false fun hlt => hq ((nonneg_finite.mp hx).trans_lt hlt)

end Number

end PicoSentry.Foundation
