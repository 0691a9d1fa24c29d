import Mathlib.Data.List.Basic

namespace PicoSentry.Foundation

section First

variable {α κ : Type} (key : α → κ)

def First (x : α) (xs : List α) : Prop :=
  ∃ before after, xs = before ++ x :: after ∧ ∀ y ∈ before, key y ≠ key x

variable {key}

theorem First.mem {x : α} {xs : List α} (h : First key x xs) : x ∈ xs := by
  obtain ⟨before,after,rfl,_⟩ := h
  exact List.mem_append_right _ List.mem_cons_self

theorem first_cons {x y : α} {xs : List α} :
    First key x (y :: xs) ↔ x = y ∨ key y ≠ key x ∧ First key x xs := by
  constructor
  · rintro ⟨before,after,heq,hne⟩
    cases before with
    | nil =>
      obtain ⟨rfl,_⟩ := List.cons.inj heq
      exact .inl rfl
    | cons z before =>
      obtain ⟨rfl,rfl⟩ := List.cons.inj heq
      exact .inr ⟨hne y List.mem_cons_self,
        before, after, rfl, fun w hw => hne w (List.mem_cons_of_mem _ hw)⟩
  · rintro (rfl | ⟨hy,before,after,rfl,hne⟩)
    · exact ⟨[], xs, rfl, by simp⟩
    · exact ⟨y :: before, after, rfl, List.forall_mem_cons.mpr ⟨hy, hne⟩⟩

end First

section FirstOf

variable {α κ : Type} [DecidableEq κ] (key : α → κ)

def firstOf (seen : List κ) : List α → List α
  | [] => []
  | x :: xs => if key x ∈ seen then firstOf seen xs else x :: firstOf (seen ++ [key x]) xs

variable {key}

theorem mem_firstOf_iff {seen : List κ} {xs : List α} {x : α} :
    x ∈ firstOf key seen xs ↔ key x ∉ seen ∧ First key x xs := by
  induction xs generalizing seen with
  | nil =>
    rw [firstOf]
    refine ⟨fun h => absurd h List.not_mem_nil, fun h => absurd h.2.mem List.not_mem_nil⟩
  | cons y xs ih =>
    rw [firstOf, first_cons]
    split
    · next hy =>
      rw [ih]
      refine and_congr_right fun hx => ⟨fun h => .inr ⟨fun he => hx (he ▸ hy), h⟩, ?_⟩
      rintro (rfl | ⟨_,h⟩)
      · exact absurd hy hx
      · exact h
    · next hy =>
      rw [List.mem_cons, ih]
      simp only [List.mem_append, List.mem_singleton, not_or]
      constructor
      · rintro (rfl | ⟨⟨hx,hne⟩,h⟩)
        · exact ⟨hy, .inl rfl⟩
        · exact ⟨hx, .inr ⟨fun he => hne he.symm, h⟩⟩
      · rintro ⟨hx,rfl | ⟨hne,h⟩⟩
        · exact .inl rfl
        · exact .inr ⟨⟨hx, fun he => hne he.symm⟩, h⟩

theorem mem_firstOf_id_iff [DecidableEq α] {seen xs : List α} {x : α} : x ∈ firstOf id seen xs ↔ x ∉ seen ∧ x ∈ xs := by
  rw [mem_firstOf_iff]
  refine and_congr_right fun _ => ⟨First.mem, fun hmem => ?_⟩
  obtain ⟨before,after,heq,hnot⟩ := List.eq_append_cons_of_mem hmem
  refine ⟨before, after, heq, ?_⟩
  rintro y hy rfl
  exact hnot hy

theorem nodup_firstOf_id [DecidableEq α] (seen xs : List α) : (firstOf id seen xs).Nodup := by
  induction xs generalizing seen with
  | nil => exact List.nodup_nil
  | cons x xs ih =>
    rw [firstOf]
    split
    · exact ih seen
    · refine List.nodup_cons.mpr ⟨fun hmem => ?_, ih _⟩
      exact (mem_firstOf_id_iff.mp hmem).1 (List.mem_append_right _ (List.mem_singleton_self _))

theorem firstOf_append {seen : List κ} (xs ys : List α) :
    firstOf key seen (xs ++ ys) =
      firstOf key seen xs ++ firstOf key (seen ++ (firstOf key seen xs).map key) ys := by
  induction xs generalizing seen with
  | nil => simp [firstOf]
  | cons x xs ih =>
    rw [List.cons_append, firstOf, firstOf]
    split
    · exact ih
    · simp [ih]

end FirstOf

end PicoSentry.Foundation
