import Mathlib.Data.List.Induction
import Mathlib.Data.List.Infix
import Mathlib.Order.Lattice

namespace PicoSentry.Foundation

variable {α : Type} {P : List α → Prop}

structure LongestSuffix (P : List α → Prop) (xs kept : List α) : Prop where
  suffix : kept <:+ xs
  holds : P kept
  longest : ∀ ys, ys <:+ xs → P ys → ys <:+ kept

theorem LongestSuffix.of_holds {xs : List α} (h : P xs) : LongestSuffix P xs xs :=
  ⟨List.suffix_refl xs, h, fun _ hsuffix _ => hsuffix⟩

theorem LongestSuffix.cons {x : α} {xs kept : List α} (hnot : ¬P (x :: xs))
    (h : LongestSuffix P xs kept) : LongestSuffix P (x :: xs) kept := by
  refine ⟨h.suffix.trans (List.suffix_cons x xs), h.holds, fun ys hys hP => ?_⟩
  rcases List.suffix_cons_iff.mp hys with rfl | hys
  · exact absurd hP hnot
  · exact h.longest ys hys hP

theorem LongestSuffix.unique {xs kept kept' : List α} (h : LongestSuffix P xs kept)
    (h' : LongestSuffix P xs kept') : kept = kept' :=
  (h'.longest kept h.suffix h.holds).eq_of_length_le
    (h.longest kept' h'.suffix h'.holds).length_le

end PicoSentry.Foundation

namespace PicoSentry.Foundation.Recent

variable {τ : Type} [LinearOrder τ] {a b : τ} {xs ys : List τ}

def since (cutoff : τ) (xs : List τ) : List τ := xs.filter fun x => cutoff < x

@[simp] theorem since_nil (cutoff : τ) : since cutoff [] = [] := rfl

theorem since_append (cutoff : τ) (xs ys : List τ) :
    since cutoff (xs ++ ys) = since cutoff xs ++ since cutoff ys := by simp [since]

theorem since_since (h : a ≤ b) (xs : List τ) : since b (since a xs) = since b xs := by
  simp only [since, List.filter_filter]
  refine List.filter_congr ?_
  intro x _
  have himp : b < x → a < x := h.trans_lt
  by_cases hx : b < x <;> simp [hx, himp]

theorem since_eq_nil (h : ∀ x ∈ xs, x ≤ a) : since a xs = [] := by
  simpa [since] using h

theorem le_of_le_getLast (hsorted : xs.Pairwise (· ≤ ·)) (hlast : ∀ x ∈ xs.getLast?, x ≤ a) :
    ∀ x ∈ xs, x ≤ a := by
  induction xs using List.reverseRecOn with
  | nil => simp
  | append_singleton xs last _ =>
    have hle := (List.pairwise_append.mp hsorted).2.2
    have ha : last ≤ a := hlast last (by simp)
    intro x hx
    rcases List.mem_append.mp hx with hx | hx
    · exact (hle x hx last (by simp)).trans ha
    · rw [List.mem_singleton.mp hx]
      exact ha

def Agree (cutoff : τ) (xs ys : List τ) : Prop := since cutoff xs = since cutoff ys

theorem Agree.mono (h : Agree a xs ys) (hab : a ≤ b) : Agree b xs ys := by
  rw [Agree, ← since_since hab xs, ← since_since hab ys, h]

theorem Agree.append (h : Agree a xs ys) (zs : List τ) : Agree a (xs ++ zs) (ys ++ zs) := by
  rw [Agree, since_append, since_append, h]

theorem Agree.prune (h : Agree b xs ys) (hab : a ≤ b) : Agree b (since a xs) ys := by
  rw [Agree, since_since hab, h]

theorem Agree.clear (h : Agree a xs ys) (hold : ∀ x ∈ xs, x ≤ a) : Agree a [] ys := by
  rw [Agree, ← h, since_eq_nil hold, since_nil]

end PicoSentry.Foundation.Recent
