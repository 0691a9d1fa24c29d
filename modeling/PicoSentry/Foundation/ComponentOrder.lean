import Mathlib.Data.List.Lex
import Mathlib.Order.Lattice
import Mathlib.Order.Monotone.Basic

namespace PicoSentry.Foundation

section Lex

variable {α β : Type} [LinearOrder α] [LinearOrder β] {f : α → β}

theorem map_lt_map_iff (hf : StrictMono f) (xs ys : List α) : xs.map f < ys.map f ↔ xs < ys := by
  induction xs generalizing ys with
  | nil =>
    cases ys with
    | nil => exact iff_of_false (List.not_lt_nil _) (List.not_lt_nil _)
    | cons y ys => exact iff_of_true (List.nil_lt_cons _ _) (List.nil_lt_cons _ _)
  | cons x xs ih =>
    cases ys with
    | nil => exact iff_of_false (List.not_lt_nil _) (List.not_lt_nil _)
    | cons y ys =>
      rw [List.map_cons, List.map_cons, List.cons_lt_cons_iff, List.cons_lt_cons_iff, hf.lt_iff_lt,
        hf.injective.eq_iff, ih]

end Lex

section Components

variable {x y : Nat} {xs ys : List Nat}

def Below (xs ys : List Nat) : Prop :=
  ∃ i, (∀ j < i, xs.getD j 0 = ys.getD j 0) ∧ xs.getD i 0 < ys.getD i 0

theorem getD_tail (xs : List Nat) (i : Nat) : xs.tail.getD i 0 = xs.getD (i + 1) 0 := by
  cases xs <;> rfl

theorem below_iff_tail (xs ys : List Nat) : Below xs ys ↔
    xs.getD 0 0 < ys.getD 0 0 ∨ xs.getD 0 0 = ys.getD 0 0 ∧ Below xs.tail ys.tail := by
  constructor
  · rintro ⟨i,hsame,hlt⟩
    cases i with
    | zero => exact .inl hlt
    | succ i =>
      refine .inr ⟨hsame 0 i.succ_pos, i, fun j hj => ?_, ?_⟩
      · rw [getD_tail, getD_tail]
        exact hsame (j + 1) (Nat.succ_lt_succ hj)
      · rwa [getD_tail, getD_tail]
  · rintro (hlt | ⟨hfirst,i,hsame,hlt⟩)
    · exact ⟨0, fun j hj => absurd hj j.not_lt_zero, hlt⟩
    · refine ⟨i + 1, fun j hj => ?_, ?_⟩
      · cases j with
        | zero => exact hfirst
        | succ j =>
          rw [← getD_tail, ← getD_tail]
          exact hsame j (Nat.lt_of_succ_lt_succ hj)
      · rwa [← getD_tail, ← getD_tail]

theorem below_cons_cons : Below (x :: xs) (y :: ys) ↔ x < y ∨ x = y ∧ Below xs ys :=
  below_iff_tail _ _

theorem nil_below_cons : Below [] (y :: ys) ↔ 0 < y ∨ 0 = y ∧ Below [] ys := below_iff_tail _ _

theorem not_below_nil : ¬Below xs [] := fun ⟨_,_,hlt⟩ => absurd hlt (Nat.not_lt_zero _)

theorem below_irrefl : ¬Below xs xs := fun ⟨_,_,hlt⟩ => absurd hlt (lt_irrefl _)

theorem not_below_zeros (n : Nat) : ¬Below [] (List.replicate n 0) := by
  induction n with
  | zero => exact not_below_nil
  | succ n ih =>
    rw [List.replicate_succ, nil_below_cons]
    rintro (h | ⟨_,h⟩)
    · exact absurd h (lt_irrefl 0)
    · exact ih h

def ZeroExtends (xs ys : List Nat) : Prop := ∃ n, ys = xs ++ List.replicate (n + 1) 0

theorem zeroExtends_cons_cons : ZeroExtends (x :: xs) (y :: ys) ↔ x = y ∧ ZeroExtends xs ys := by
  constructor
  · rintro ⟨n,h⟩
    obtain ⟨rfl,rfl⟩ := List.cons.inj h
    exact ⟨rfl, n, rfl⟩
  · rintro ⟨rfl,n,rfl⟩
    exact ⟨n, rfl⟩

theorem not_zeroExtends_nil : ¬ZeroExtends xs [] := by
  rintro ⟨n,h⟩
  simp at h

theorem nil_zeroExtends_cons : ZeroExtends [] (y :: ys) ↔ 0 = y ∧ ¬Below [] ys := by
  constructor
  · rintro ⟨n,h⟩
    obtain ⟨rfl,rfl⟩ := List.cons.inj h
    exact ⟨rfl, not_below_zeros n⟩
  · rintro ⟨rfl,hzero⟩
    induction ys with
    | nil => exact ⟨0, rfl⟩
    | cons y ys ih =>
      rw [nil_below_cons, not_or, not_lt, Nat.le_zero] at hzero
      obtain ⟨rfl,hrest⟩ := hzero
      obtain ⟨n,hn⟩ := ih fun h => hrest ⟨rfl, h⟩
      exact ⟨n + 1, congrArg (0 :: ·) hn⟩

theorem lt_iff_below_iff (xs ys : List Nat) :
    ((xs < ys ↔ Below xs ys) ∧ (ys < xs ↔ Below ys xs)) ↔ ¬ZeroExtends xs ys ∧ ¬ZeroExtends ys xs := by
  induction xs generalizing ys with
  | nil =>
    cases ys with
    | nil => simp [below_irrefl, not_zeroExtends_nil]
    | cons y ys =>
      have hfirst : ([] : List Nat) < y :: ys := List.nil_lt_cons _ _
      simp only [hfirst, true_iff, List.not_lt_nil, not_below_nil, not_false_eq_true,
        and_true, not_zeroExtends_nil, nil_zeroExtends_cons, nil_below_cons]
      by_cases hy : 0 = y
      · simp [← hy]
      · simp [hy, Nat.pos_of_ne_zero (Ne.symm hy)]
  | cons x xs ih =>
    cases ys with
    | nil =>
      have hfirst : ([] : List Nat) < x :: xs := List.nil_lt_cons _ _
      simp only [hfirst, true_iff, List.not_lt_nil, not_below_nil, not_false_eq_true,
        true_and, not_zeroExtends_nil, nil_zeroExtends_cons, nil_below_cons]
      by_cases hx : 0 = x
      · simp [← hx]
      · simp [hx, Nat.pos_of_ne_zero (Ne.symm hx)]
    | cons y ys =>
      simp only [List.cons_lt_cons_iff, below_cons_cons, zeroExtends_cons_cons]
      rcases lt_trichotomy x y with hlt | rfl | hgt
      · simp [hlt, hlt.ne, hlt.ne']
      · simpa using ih ys
      · simp [hgt, hgt.ne, hgt.ne']

end Components

end PicoSentry.Foundation
