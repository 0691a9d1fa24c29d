import Mathlib.Order.Lattice
import PicoSentry.Foundation.Table

namespace PicoSentry.Foundation

section Newest

variable {ρ : Type} (newer : ρ → ρ → Bool)

-- A register that an incoming record overwrites when it is newer than the stored one.
def keepNewer : Option ρ → ρ → Option ρ
  | none, r => some r
  | some own, r => if newer r own then some r else some own

def newestOf (own : Option ρ) (rs : List ρ) : Option ρ := rs.foldl (keepNewer newer) own

variable {newer}

theorem newestOf_append (own : Option ρ) (rs rs' : List ρ) :
    newestOf newer own (rs ++ rs') = newestOf newer (newestOf newer own rs) rs' :=
  List.foldl_append

theorem newestOf_isSome {own : Option ρ} {rs : List ρ} (h : own.isSome ∨ rs ≠ []) :
    (newestOf newer own rs).isSome := by
  induction rs generalizing own with
  | nil => exact h.resolve_right (by simp)
  | cons r rs ih =>
    refine ih (.inl ?_)
    cases own with
    | none => rfl
    | some own =>
      rw [keepNewer]
      split <;> rfl

theorem newestOf_mem {own : Option ρ} {rs : List ρ} {r : ρ} (h : newestOf newer own rs = some r) :
    own = some r ∨ r ∈ rs := by
  induction rs generalizing own with
  | nil => exact .inl h
  | cons r' rs ih =>
    rcases ih h with hkept | hmem
    · cases own with
      | none =>
        cases hkept
        exact .inr List.mem_cons_self
      | some own =>
        rw [keepNewer] at hkept
        split at hkept
        · cases hkept
          exact .inr List.mem_cons_self
        · exact .inl hkept
    · exact .inr (List.mem_cons_of_mem _ hmem)

theorem newestOf_invariant (P : ρ → Prop) {rs : List ρ} (h : ∀ r ∈ rs, ∀ own, P own →
    newer r own = true → P r) {own : ρ} (hown : P own) :
    ∃ r, newestOf newer (some own) rs = some r ∧ P r := by
  induction rs generalizing own with
  | nil => exact ⟨own, rfl, hown⟩
  | cons r rs ih =>
    have hrest : ∀ r' ∈ rs, ∀ own, P own → newer r' own = true → P r' :=
      fun r' hr' => h r' (List.mem_cons_of_mem _ hr')
    rw [newestOf, List.foldl_cons, keepNewer, ← newestOf]
    split
    · next hnewer => exact ih hrest (h r List.mem_cons_self own hown hnewer)
    · exact ih hrest hown

section Ranked

variable {κ : Type} [LinearOrder κ] {rank : ρ → κ} {rs : List ρ}

def RankedBy (newer : ρ → ρ → Bool) (rank : ρ → κ) (r : ρ) : Prop :=
  ∀ own, newer r own = true ↔ rank own ≤ rank r

theorem newestOf_rank (hrank : ∀ r ∈ rs, RankedBy newer rank r) {own : Option ρ} {r : ρ}
    (h : newestOf newer own rs = some r) :
    (∀ o, own = some o → rank o ≤ rank r) ∧ ∀ r' ∈ rs, rank r' ≤ rank r := by
  induction rs generalizing own with
  | nil =>
    refine ⟨fun o ho => ?_, fun r' hr' => by cases hr'⟩
    rw [newestOf, List.foldl_nil, ho] at h
    cases h
    exact le_refl _
  | cons a rs ih =>
    have hkept := ih (fun r' hr' => hrank r' (List.mem_cons_of_mem _ hr')) h
    have hfirst : (∀ o, own = some o → rank o ≤ rank r) ∧ rank a ≤ rank r := by
      cases own with
      | none => exact ⟨fun o ho => (by cases ho), hkept.1 a rfl⟩
      | some own =>
        by_cases hnewer : newer a own = true
        · have ha := hkept.1 a (by rw [keepNewer, if_pos hnewer])
          refine ⟨fun o ho => ?_, ha⟩
          cases ho
          exact le_trans ((hrank a List.mem_cons_self own).mp hnewer) ha
        · have ho := hkept.1 own (by rw [keepNewer, if_neg hnewer])
          have hlt := lt_of_not_ge fun hle => hnewer ((hrank a List.mem_cons_self own).mpr hle)
          refine ⟨fun o ho' => ?_, le_trans (le_of_lt hlt) ho⟩
          cases ho'
          exact ho
    refine ⟨hfirst.1, fun r' hr' => ?_⟩
    rcases List.mem_cons.mp hr' with rfl | hr'
    · exact hfirst.2
    · exact hkept.2 r' hr'

-- Nothing ranks above r, though another record may tie with it.
structure Top (rank : ρ → κ) (own : Option ρ) (rs : List ρ) (r : ρ) : Prop where
  above_own : ∀ o, own = some o → rank o ≤ rank r
  above : ∀ r' ∈ rs, rank r' ≤ rank r

theorem newestOf_concat {own : Option ρ} {r : ρ} (hr : RankedBy newer rank r)
    (htop : Top rank own rs r) : newestOf newer own (rs ++ [r]) = some r := by
  rw [newestOf_append]
  cases hb : newestOf newer own rs with
  | none => rfl
  | some b =>
    have hle : rank b ≤ rank r := by
      rcases newestOf_mem hb with ho | hb
      · exact htop.above_own b ho
      · exact htop.above b hb
    exact if_pos ((hr b).mpr hle)

structure Winner (rank : ρ → κ) (own : Option ρ) (rs : List ρ) (r : ρ) : Prop
    extends Top rank own rs r where
  unique : ∀ r' ∈ rs, rank r' = rank r → r' = r

theorem newestOf_winner (hrank : ∀ r ∈ rs, RankedBy newer rank r) {own : Option ρ} {r : ρ}
    (hmem : r ∈ rs) (h : Winner rank own rs r) : newestOf newer own rs = some r := by
  obtain ⟨before,after,rfl⟩ := List.append_of_mem hmem
  have hbefore : newestOf newer own (before ++ [r]) = some r :=
    newestOf_concat (hrank r hmem)
      ⟨h.above_own, fun r' hr' => h.above r' (List.mem_append_left _ hr')⟩
  rw [show before ++ r :: after = (before ++ [r]) ++ after by simp, newestOf_append, hbefore]
  have hkept : ∃ r', newestOf newer (some r) after = some r' ∧ r' = r := by
    refine newestOf_invariant (fun r' => r' = r) ?_ rfl
    rintro r' hr' own rfl hnewer
    have hmem' : r' ∈ before ++ own :: after := by simp [hr']
    exact h.unique r' hmem' (le_antisymm (h.above r' hmem') ((hrank r' hmem' own).mp hnewer))
  obtain ⟨r',hr',rfl⟩ := hkept
  exact hr'

theorem newestOf_own (hrank : ∀ r ∈ rs, RankedBy newer rank r) {own : ρ}
    (h : ∀ r ∈ rs, rank r < rank own) : newestOf newer (some own) rs = some own := by
  have hkept : ∃ r, newestOf newer (some own) rs = some r ∧ r = own := by
    refine newestOf_invariant (fun r => r = own) ?_ rfl
    rintro r hr o rfl hnewer
    exact absurd ((hrank r hr o).mp hnewer) (not_le.mpr (h r hr))
  obtain ⟨r,hr,rfl⟩ := hkept
  exact hr

def Untied (rank : ρ → κ) (own : Option ρ) (rs : List ρ) : Prop :=
  ∀ r ∈ rs, ∀ r' ∈ rs, Top rank own rs r → rank r' = rank r → r' = r

theorem Untied.winner {own : Option ρ} (h : Untied rank own rs) {r : ρ} (hmem : r ∈ rs)
    (htop : Top rank own rs r) : Winner rank own rs r :=
  ⟨htop, fun r' hr' => h r hmem r' hr' htop⟩

theorem newestOf_cases (hrank : ∀ r ∈ rs, RankedBy newer rank r) {own : Option ρ}
    (huntied : Untied rank own rs) {r : ρ} (h : newestOf newer own rs = some r) :
    (r ∈ rs ∧ Top rank own rs r) ∨ (own = some r ∧ ∀ r' ∈ rs, rank r' < rank r) := by
  obtain ⟨habove_own,habove⟩ := newestOf_rank hrank h
  by_cases hmem : r ∈ rs
  · exact .inl ⟨hmem, habove_own, habove⟩
  · have hown := (newestOf_mem h).resolve_right hmem
    refine .inr ⟨hown, fun r' hr' => lt_of_le_of_ne (habove r' hr') fun htie => ?_⟩
    have htop : Top rank own rs r' := by
      refine ⟨fun o ho => ?_, fun x hx => htie ▸ habove x hx⟩
      exact htie ▸ habove_own o ho
    have hwins := newestOf_winner hrank hr' (huntied.winner hr' htop)
    obtain rfl : r' = r := Option.some_inj.mp (hwins.symm.trans h)
    exact hmem hr'

theorem newestOf_congr {rs' : List ρ} (hrank : ∀ r ∈ rs, RankedBy newer rank r)
    (hsame : ∀ r, r ∈ rs ↔ r ∈ rs') {own : Option ρ} (huntied : Untied rank own rs) :
    newestOf newer own rs = newestOf newer own rs' := by
  have hrank' : ∀ r ∈ rs', RankedBy newer rank r := fun r hr => hrank r ((hsame r).mpr hr)
  cases h : newestOf newer own rs with
  | none =>
    have hnone : ¬ (own.isSome ∨ rs ≠ []) := fun hor => by
      have hsome : (newestOf newer own rs).isSome := newestOf_isSome hor
      rw [h] at hsome
      cases hsome
    rw [not_or, Option.not_isSome_iff_eq_none, not_not] at hnone
    obtain ⟨rfl,rfl⟩ := hnone
    have hempty : rs' = [] := List.eq_nil_iff_forall_not_mem.mpr fun r hr => by
      cases (hsame r).mpr hr
    rw [hempty]
    rfl
  | some r =>
    rcases newestOf_cases hrank huntied h with ⟨hmem,htop⟩ | ⟨hown,hlt⟩
    · have hwinner := huntied.winner hmem htop
      refine (newestOf_winner hrank' ((hsame r).mp hmem) ⟨⟨htop.above_own, ?_⟩, ?_⟩).symm
      · exact fun r' hr' => htop.above r' ((hsame r').mpr hr')
      · exact fun r' hr' => hwinner.unique r' ((hsame r').mpr hr')
    · rw [hown]
      exact (newestOf_own hrank' fun r' hr' => hlt r' ((hsame r').mpr hr')).symm

theorem newestOf_swap (own other : Option ρ) (hown : ∀ a, own = some a → RankedBy newer rank a)
    (hother : ∀ b, other = some b → RankedBy newer rank b) :
    newestOf newer own other.toList = newestOf newer other own.toList ↔
      ∀ a b, own = some a → other = some b → rank a = rank b → a = b := by
  cases own with
  | none => cases other <;> simp [newestOf, keepNewer]
  | some a =>
    cases other with
    | none => simp [newestOf, keepNewer]
    | some b =>
      have hab := hown a rfl b
      have hba := hother b rfl a
      have hswap : newestOf newer (some a) [b] = newestOf newer (some b) [a] ↔
          (rank a = rank b → a = b) := by
        simp only [newestOf, List.foldl_cons, List.foldl_nil, keepNewer]
        rcases lt_trichotomy (rank a) (rank b) with hlt | heq | hgt
        · rw [if_pos (hba.mpr (le_of_lt hlt)), if_neg (fun hn => not_le.mpr hlt (hab.mp hn))]
          exact iff_of_true rfl fun heq => absurd heq (ne_of_lt hlt)
        · rw [if_pos (hba.mpr (le_of_eq heq)), if_pos (hab.mpr (ge_of_eq heq)), Option.some_inj]
          exact ⟨fun h _ => h.symm, fun h => (h heq).symm⟩
        · rw [if_neg (fun hn => not_le.mpr hgt (hba.mp hn)), if_pos (hab.mpr (le_of_lt hgt))]
          exact iff_of_true rfl fun heq => absurd heq.symm (ne_of_lt hgt)
      simpa using hswap

end Ranked

end Newest

namespace Table

variable {κ ρ : Type} {key : ρ → κ} [DecidableEq κ] (newer : ρ → ρ → Bool)

def merge (t : Table key) (r : ρ) : Table key :=
  match t.load (key r) with
  | none => t.save r
  | some own => if newer r own then t.save r else t

def mergeAll (t : Table key) (rs : List ρ) : Table key := rs.foldl (merge newer) t

theorem load_merge (t : Table key) (r : ρ) (k : κ) :
    (t.merge newer r).load k =
      if key r = k then keepNewer newer (t.load k) r else t.load k := by
  rw [merge]
  cases hload : t.load (key r) with
  | none =>
    dsimp only
    rw [load_save]
    split
    · next he => rw [← he, hload]; rfl
    · rfl
  | some own =>
    dsimp only
    split
    · next hnewer =>
      rw [load_save]
      split
      · next he => rw [← he, hload, keepNewer, if_pos hnewer]
      · rfl
    · next hnewer =>
      split
      · next he => rw [← he, hload, keepNewer, if_neg hnewer]
      · rfl

theorem load_mergeAll (t : Table key) (rs : List ρ) (k : κ) :
    (t.mergeAll newer rs).load k = newestOf newer (t.load k) (rs.filter fun r => key r = k) := by
  induction rs generalizing t with
  | nil => rfl
  | cons r rs ih =>
    rw [mergeAll, List.foldl_cons, ← mergeAll, ih, load_merge, List.filter_cons]
    by_cases he : key r = k
    · rw [if_pos he, if_pos (by simpa using he)]
      rfl
    · rw [if_neg he, if_neg (by simpa using he)]

end Table

end PicoSentry.Foundation
