import Mathlib.Data.List.Basic
import Mathlib.Data.List.Chain
import Mathlib.Data.List.Infix

namespace PicoSentry.Foundation

variable {ρ η : Type}

section Chain

variable (prev : ρ → Option η) (hash : ρ → η)

-- Each record names the hash of the one before it, the first one the hash given.
def Linked : η → List ρ → Prop
  | _, [] => True
  | h, r :: rs => prev r = some h ∧ Linked (hash r) rs

def tip (h : η) (rs : List ρ) : η := rs.foldl (fun _ r => hash r) h

variable {prev hash}

@[simp] theorem tip_append (h : η) (rs ss : List ρ) :
    tip hash h (rs ++ ss) = tip hash (tip hash h rs) ss := List.foldl_append

@[simp] theorem tip_concat (h : η) (rs : List ρ) (r : ρ) : tip hash h (rs ++ [r]) = hash r := by
  rw [tip_append]
  rfl

theorem linked_append {h : η} {rs ss : List ρ} :
    Linked prev hash h (rs ++ ss) ↔ Linked prev hash h rs ∧ Linked prev hash (tip hash h rs) ss := by
  induction rs generalizing h with
  | nil => exact (and_iff_right trivial).symm
  | cons r rs ih => rw [List.cons_append, Linked, Linked, ih, and_assoc]; rfl

theorem linked_concat {h : η} {rs : List ρ} {r : ρ} :
    Linked prev hash h (rs ++ [r]) ↔ Linked prev hash h rs ∧ prev r = some (tip hash h rs) :=
  linked_append.trans (and_congr_right fun _ => and_iff_left trivial)

theorem linked_of_suffix {h : η} {rs ss : List ρ} (hsuffix : ss <:+ rs)
    (hlinked : Linked prev hash h rs) : ∃ h', Linked prev hash h' ss := by
  obtain ⟨front,rfl⟩ := hsuffix
  exact ⟨_, (linked_append.mp hlinked).2⟩

theorem suffix_of_isChain (hinj : Function.Injective hash) {start : η} (hstart : ∀ r, hash r ≠ start)
    {rs ss : List ρ} (hrs : rs.IsChain fun a b => prev b = some (hash a))
    (hss : Linked prev hash start ss) (hlast : rs.getLast? = ss.getLast?) : rs <:+ ss := by
  induction rs using List.reverseRecOn generalizing ss with
  | nil => exact List.nil_suffix
  | append_singleton rs r ih =>
    rcases List.eq_nil_or_concat ss with rfl | ⟨ss,s,rfl⟩
    · simp at hlast
    rw [List.concat_eq_append] at hss hlast ⊢
    simp only [List.getLast?_append, List.getLast?_singleton, Option.some_or, Option.some.injEq] at hlast
    subst hlast
    obtain ⟨hrs,_,hprev⟩ := List.isChain_append.mp hrs
    obtain ⟨hss,hprev'⟩ := linked_concat.mp hss
    rcases List.eq_nil_or_concat rs with rfl | ⟨rs',r',rfl⟩
    · exact List.suffix_append ss [r]
    rw [List.concat_eq_append] at *
    have htip := (hprev r' (by simp) r rfl).symm.trans hprev'
    rcases List.eq_nil_or_concat ss with rfl | ⟨ss',s',rfl⟩
    · exact absurd (Option.some.inj htip) (hstart r')
    rw [List.concat_eq_append] at *
    rw [tip_concat, Option.some.injEq] at htip
    obtain ⟨front,heq⟩ := ih hrs hss (by simp [hinj htip])
    exact ⟨front, by rw [← List.append_assoc, heq]⟩

end Chain

end PicoSentry.Foundation
