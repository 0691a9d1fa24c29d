import Mathlib.Algebra.Order.Ring.Int
import Mathlib.Algebra.Order.Ring.Rat
import Mathlib.Data.List.Infix
import Mathlib.Tactic.Linarith

namespace PicoSentry.Foundation.EditDistance

variable {α R : Type*} [CommRing R] [LinearOrder R]

def dist (sub : α → α → R) : List α → List α → R
  | [], ys => ys.length
  | x :: xs, [] => (x :: xs).length
  | x :: xs, y :: ys =>
      min (min (dist sub xs (y :: ys) + 1) (dist sub (x :: xs) ys + 1)) (dist sub xs ys + sub x y)
termination_by xs ys => xs.length + ys.length

section Equations

variable (sub : α → α → R)

@[simp] theorem dist_nil_left (ys : List α) : dist sub [] ys = ys.length := by
  rw [dist]

@[simp] theorem dist_nil_right (xs : List α) : dist sub xs [] = xs.length := by
  cases xs <;> simp [dist]

theorem dist_cons_cons (x y : α) (xs ys : List α) :
    dist sub (x :: xs) (y :: ys) =
      min (min (dist sub xs (y :: ys) + 1) (dist sub (x :: xs) ys + 1))
        (dist sub xs ys + sub x y) := by
  rw [dist]

end Equations

theorem dist_cons_left_le {sub : α → α → R} (x : α) (xs ys : List α) :
    dist sub (x :: xs) ys ≤ dist sub xs ys + 1 := by
  cases ys with
  | nil => simp
  | cons y ys =>
    rw [dist_cons_cons]
    exact (min_le_left _ _).trans (min_le_left _ _)

theorem dist_cons_right_le {sub : α → α → R} (y : α) (xs ys : List α) :
    dist sub xs (y :: ys) ≤ dist sub xs ys + 1 := by
  cases xs with
  | nil => simp
  | cons x xs =>
    rw [dist_cons_cons]
    exact (min_le_left _ _).trans (min_le_right _ _)

theorem dist_cons_both_le {sub : α → α → R} (x y : α) (xs ys : List α) :
    dist sub (x :: xs) (y :: ys) ≤ dist sub xs ys + sub x y := by
  rw [dist_cons_cons]
  exact min_le_right _ _

theorem dist_cons_cases (sub : α → α → R) (x y : α) (xs ys : List α) :
    dist sub (x :: xs) (y :: ys) = dist sub xs (y :: ys) + 1 ∨
      dist sub (x :: xs) (y :: ys) = dist sub (x :: xs) ys + 1 ∨
        dist sub (x :: xs) (y :: ys) = dist sub xs ys + sub x y := by
  rw [dist_cons_cons]
  rcases min_choice (min (dist sub xs (y :: ys) + 1) (dist sub (x :: xs) ys + 1))
    (dist sub xs ys + sub x y) with h | h
  · rw [h]
    rcases min_choice (dist sub xs (y :: ys) + 1) (dist sub (x :: xs) ys + 1) with h | h
    · exact .inl h
    · exact .inr (.inl h)
  · exact .inr (.inr h)

theorem dist_comm {sub : α → α → R} (hsym : ∀ a b, sub a b = sub b a) (xs ys : List α) :
    dist sub xs ys = dist sub ys xs := by
  induction xs generalizing ys with
  | nil => simp
  | cons x xs ihx =>
    induction ys with
    | nil => simp
    | cons y ys ihy =>
      rw [dist_cons_cons, dist_cons_cons, ihx (y :: ys), ihy, ihx ys, hsym x y,
        min_comm (dist sub (y :: ys) xs + 1)]

section Bounds

variable [IsStrictOrderedRing R] {sub : α → α → R} (hsub : ∀ a b, 0 ≤ sub a b)

include hsub

theorem length_le_dist_add (xs ys : List α) : (xs.length : R) ≤ dist sub xs ys + ys.length := by
  induction xs generalizing ys with
  | nil =>
    simp
  | cons x xs ihx =>
    induction ys with
    | nil => simp
    | cons y ys ihy =>
      have hdel := ihx (y :: ys)
      have hmid := ihx ys
      have hc := hsub x y
      rw [dist_cons_cons]
      simp only [List.length_cons, Nat.cast_add, Nat.cast_one] at hdel ihy ⊢
      rcases min_choice (min (dist sub xs (y :: ys) + 1) (dist sub (x :: xs) ys + 1))
        (dist sub xs ys + sub x y) with h | h
      · rcases min_choice (dist sub xs (y :: ys) + 1) (dist sub (x :: xs) ys + 1) with g | g
        · rw [h, g]; linarith
        · rw [h, g]; linarith
      · rw [h]; linarith

theorem dist_nonneg (xs ys : List α) : 0 ≤ dist sub xs ys := by
  induction xs generalizing ys with
  | nil => simp
  | cons x xs ihx =>
    induction ys with
    | nil => simp only [dist_nil_right]; exact Nat.cast_nonneg _
    | cons y ys ihy =>
      rw [dist_cons_cons]
      refine le_min (le_min ?_ ?_) (add_nonneg (ihx ys) (hsub x y))
      · exact add_nonneg (ihx _) zero_le_one
      · exact add_nonneg ihy zero_le_one

theorem exists_suffix_le (x : α) (xs ys : List α) :
    ∃ zs, zs <:+ ys ∧ dist sub xs zs ≤ dist sub (x :: xs) ys := by
  induction ys with
  | nil => exact ⟨[], List.suffix_refl _, by simp⟩
  | cons y ys ih =>
    rw [dist_cons_cons]
    rcases min_choice (min (dist sub xs (y :: ys) + 1) (dist sub (x :: xs) ys + 1))
      (dist sub xs ys + sub x y) with h | h
    · rcases min_choice (dist sub xs (y :: ys) + 1) (dist sub (x :: xs) ys + 1) with g | g
      · exact ⟨y :: ys, List.suffix_refl _, by rw [h, g]; linarith⟩
      · obtain ⟨zs,hs,hle⟩ := ih
        exact ⟨zs, hs.trans (List.suffix_cons _ _), by rw [h, g]; linarith⟩
    · exact ⟨ys, List.suffix_cons _ _, by rw [h]; linarith [hsub x y]⟩

theorem exists_suffix_le_of_suffix {xs zs : List α} (h : xs <:+ zs) (ys : List α) :
    ∃ ws, ws <:+ ys ∧ dist sub xs ws ≤ dist sub zs ys := by
  obtain ⟨ps,rfl⟩ := h
  induction ps generalizing ys with
  | nil => exact ⟨ys, List.suffix_refl _, le_rfl⟩
  | cons p ps ih =>
    obtain ⟨ws,hw,hle⟩ := exists_suffix_le hsub p (ps ++ xs) ys
    obtain ⟨vs,hv,hle'⟩ := ih ws
    exact ⟨vs, hv.trans hw, hle'.trans hle⟩

end Bounds

section Metric

variable [IsStrictOrderedRing R] {sub sub' : α → α → R} {c : R}

theorem dist_le_length_add (xs ys : List α) : dist sub xs ys ≤ xs.length + ys.length := by
  induction xs with
  | nil => simp
  | cons x xs ih =>
    have hdelete : dist sub (x :: xs) ys ≤ dist sub xs ys + 1 := dist_cons_left_le x xs ys
    push_cast [List.length_cons]
    linarith

theorem mul_dist_le (hc : c ≤ 1) (hsub : ∀ a b, c * sub' a b ≤ sub a b) (hpos : 0 ≤ c)
    (xs ys : List α) : c * dist sub' xs ys ≤ dist sub xs ys := by
  induction xs generalizing ys with
  | nil =>
    rw [dist_nil_left, dist_nil_left]
    exact mul_le_of_le_one_left (Nat.cast_nonneg _) hc
  | cons x xs ihx =>
    induction ys with
    | nil =>
      rw [dist_nil_right, dist_nil_right]
      exact mul_le_of_le_one_left (Nat.cast_nonneg _) hc
    | cons y ys ihy =>
      have hscale : ∀ {d e r : R}, d ≤ e + r → c * d ≤ c * e + c * r := fun h => by
        rw [← mul_add]
        exact mul_le_mul_of_nonneg_left h hpos
      rcases dist_cons_cases sub x y xs ys with h | h | h
      · have hcut : c * dist sub' (x :: xs) (y :: ys) ≤ _ := hscale (dist_cons_left_le x xs (y :: ys))
        have hrest := ihx (y :: ys)
        linarith
      · have hcut : c * dist sub' (x :: xs) (y :: ys) ≤ _ := hscale (dist_cons_right_le y (x :: xs) ys)
        linarith
      · have hcut : c * dist sub' (x :: xs) (y :: ys) ≤ _ := hscale (dist_cons_both_le x y xs ys)
        have hrest := ihx ys
        have hcost := hsub x y
        linarith

variable (hsub : ∀ a b, 0 ≤ sub a b)

include hsub

theorem dist_eq_zero_iff (hzero : ∀ a b, sub a b = 0 ↔ a = b) (xs ys : List α) :
    dist sub xs ys = 0 ↔ xs = ys := by
  induction xs generalizing ys with
  | nil =>
    rw [dist_nil_left, Nat.cast_eq_zero, List.length_eq_zero_iff]
    exact eq_comm
  | cons x xs ih =>
    cases ys with
    | nil => simp [Nat.cast_add_one_ne_zero]
    | cons y ys =>
      rw [List.cons.injEq]
      constructor
      · intro h
        rcases dist_cons_cases sub x y xs ys with hcase | hcase | hcase
        · have hrest := dist_nonneg hsub xs (y :: ys)
          linarith
        · have hrest := dist_nonneg hsub (x :: xs) ys
          linarith
        · have hrest := dist_nonneg hsub xs ys
          have hcost := hsub x y
          exact ⟨(hzero x y).mp (by linarith), (ih ys).mp (by linarith)⟩
      · rintro ⟨rfl,rfl⟩
        have hle : dist sub (x :: xs) (x :: xs) ≤ _ := dist_cons_both_le x x xs xs
        rw [(ih xs).mpr rfl, (hzero x x).mpr rfl, add_zero] at hle
        exact le_antisymm hle (dist_nonneg hsub _ _)

-- By induction on the three lists: the first step of the two scripts is one step, or two that a
-- single step replaces at no higher price.
theorem dist_triangle (hsym : ∀ a b, sub a b = sub b a) (htri : ∀ a b c, sub a c ≤ sub a b + sub b c)
    (xs ys zs : List α) : dist sub xs zs ≤ dist sub xs ys + dist sub ys zs := by
  induction xs generalizing ys zs with
  | nil =>
    rw [dist_nil_left, dist_nil_left, dist_comm hsym ys zs, add_comm]
    exact length_le_dist_add hsub zs ys
  | cons x xs ihx =>
    induction ys generalizing zs with
    | nil =>
      rw [dist_nil_left, dist_nil_right]
      exact dist_le_length_add _ _
    | cons y ys ihy =>
      induction zs with
      | nil =>
        rw [dist_nil_right, dist_nil_right]
        exact length_le_dist_add hsub _ _
      | cons z zs ihz =>
        rcases dist_cons_cases sub x y xs ys with hxy | hxy | hxy
        · have hcut : dist sub (x :: xs) (z :: zs) ≤ _ := dist_cons_left_le x xs (z :: zs)
          have hrest := ihx (y :: ys) (z :: zs)
          linarith
        · rcases dist_cons_cases sub y z ys zs with hyz | hyz | hyz
          · have hrest := ihy (z :: zs)
            linarith
          · have hcut : dist sub (x :: xs) (z :: zs) ≤ _ := dist_cons_right_le z (x :: xs) zs
            linarith
          · have hcut : dist sub (x :: xs) (z :: zs) ≤ _ := dist_cons_right_le z (x :: xs) zs
            have hrest := ihy zs
            have hcost := hsub y z
            linarith
        · rcases dist_cons_cases sub y z ys zs with hyz | hyz | hyz
          · have hcut : dist sub (x :: xs) (z :: zs) ≤ _ := dist_cons_left_le x xs (z :: zs)
            have hrest := ihx ys (z :: zs)
            have hcost := hsub x y
            linarith
          · have hcut : dist sub (x :: xs) (z :: zs) ≤ _ := dist_cons_right_le z (x :: xs) zs
            linarith
          · have hcut : dist sub (x :: xs) (z :: zs) ≤ _ := dist_cons_both_le x z xs zs
            have hrest := ihx ys zs
            have hcost := htri x y z
            linarith

end Metric

section UnitCost

variable [DecidableEq α]

def unitCost (a b : α) : R := if a = b then 0 else 1

omit [LinearOrder R] in
theorem unitCost_comm (a b : α) : (unitCost a b : R) = unitCost b a := by
  simp [unitCost, eq_comm]

variable [IsStrictOrderedRing R]

theorem unitCost_nonneg (a b : α) : (0 : R) ≤ unitCost a b := by
  unfold unitCost
  split <;> simp

private theorem pred_of_add_one_le {t : R} {k : ℕ} (ht : 0 ≤ t) (h : t + 1 ≤ k) :
    ∃ m : ℕ, k = m + 1 ∧ t ≤ m := by
  cases k with
  | zero => simp at h; linarith
  | succ m => exact ⟨m, rfl, by push_cast at h; linarith⟩

theorem exists_common_sublist (xs ys : List α) (k : ℕ)
    (h : dist (unitCost (R := R)) xs ys ≤ k) :
    ∃ us : List α, us.Sublist xs ∧ us.Sublist ys ∧
      xs.length ≤ us.length + k ∧ ys.length ≤ us.length + k := by
  induction xs generalizing ys k with
  | nil =>
    refine ⟨[], List.nil_sublist _, List.nil_sublist _, by simp, ?_⟩
    simpa using h
  | cons x xs ihx =>
    induction ys generalizing k with
    | nil =>
      refine ⟨[], List.nil_sublist _, List.nil_sublist _, ?_, by simp⟩
      rw [dist_nil_right] at h
      simpa using Nat.cast_le.mp h
    | cons y ys ihy =>
      rw [dist_cons_cons] at h
      rcases min_le_iff.mp h with h | h
      · rcases min_le_iff.mp h with h | h
        · obtain ⟨m,rfl,hm⟩ := pred_of_add_one_le (dist_nonneg unitCost_nonneg _ _) h
          obtain ⟨us,hx,hy,lx,ly⟩ := ihx (y :: ys) m hm
          exact ⟨us, hx.cons _, hy, by simp; omega, by omega⟩
        · obtain ⟨m,rfl,hm⟩ := pred_of_add_one_le (dist_nonneg unitCost_nonneg _ _) h
          obtain ⟨us,hx,hy,lx,ly⟩ := ihy m hm
          exact ⟨us, hx, hy.cons _, by omega, by simp; omega⟩
      · by_cases hxy : x = y
        · subst hxy
          simp only [unitCost, if_true, add_zero] at h
          obtain ⟨us,hx,hy,lx,ly⟩ := ihx ys k h
          exact ⟨x :: us, hx.cons_cons _, hy.cons_cons _, by simp; omega, by simp; omega⟩
        · simp only [unitCost, hxy, if_false] at h
          obtain ⟨m,rfl,hm⟩ := pred_of_add_one_le (dist_nonneg unitCost_nonneg _ _) h
          obtain ⟨us,hx,hy,lx,ly⟩ := ihx ys m hm
          exact ⟨us, hx.cons _, hy.cons _, by simp; omega, by simp; omega⟩

end UnitCost

section Rows

variable (sub : α → α → R)

def cells (xs ys : List α) : List α → List R
  | [] => [dist sub xs ys]
  | c :: cs => dist sub xs ys :: cells xs (c :: ys) cs

@[simp] theorem length_cells (xs ys cs : List α) :
    (cells sub xs ys cs).length = cs.length + 1 := by
  induction cs generalizing ys with
  | nil => rfl
  | cons c cs ih => simp [cells, ih]

theorem getLast_cells (xs ys cs : List α) (h : cells sub xs ys cs ≠ []) :
    (cells sub xs ys cs).getLast h = dist sub xs (cs.reverse ++ ys) := by
  induction cs generalizing ys with
  | nil => rfl
  | cons c cs ih =>
    have hne : cells sub xs (c :: ys) cs ≠ [] := by
      intro he
      simpa [he] using length_cells sub xs (c :: ys) cs
    simp only [cells, List.getLast_cons hne, ih]
    simp

theorem dist_mem_cells (xs ys : List α) {ps cs : List α} (h : ps <+: cs) :
    dist sub xs (ps.reverse ++ ys) ∈ cells sub xs ys cs := by
  induction cs generalizing ys ps with
  | nil => simp [List.prefix_nil.mp h, cells]
  | cons c cs ih =>
    cases ps with
    | nil => simp [cells]
    | cons p ps =>
      obtain ⟨rfl,hp⟩ := List.cons_prefix_cons.mp h
      simpa [cells] using Or.inr (ih (p :: ys) hp)

omit [CommRing R] in
theorem foldl_min_le_iff (rs : List R) (m d : R) :
    rs.foldl min m ≤ d ↔ m ≤ d ∨ ∃ r ∈ rs, r ≤ d := by
  induction rs generalizing m with
  | nil => simp
  | cons r rs ih =>
    rw [List.foldl_cons, ih, min_le_iff]
    simp only [List.mem_cons, exists_eq_or_imp, or_assoc]

end Rows

section Capped

def Capped (d t r : R) : Prop := (t ≤ d → r = t) ∧ (d < t → d < r)

variable {d t r t' r' c : R}

omit [CommRing R] in
theorem Capped.refl (d t : R) : Capped d t t := ⟨fun _ => rfl, id⟩

omit [CommRing R] in
theorem Capped.of_lt (ht : d < t) (hr : d < r) : Capped d t r :=
  ⟨fun h => absurd h (not_le_of_gt ht), fun _ => hr⟩

omit [CommRing R] in
theorem Capped.le_iff (h : Capped d t r) : r ≤ d ↔ t ≤ d := by
  constructor
  · intro hr
    by_contra ht
    exact absurd (h.2 (not_le.mp ht)) (not_lt.mpr hr)
  · intro ht
    rw [h.1 ht]
    exact ht

theorem Capped.add [IsStrictOrderedRing R] (h : Capped d t r) (hc : 0 ≤ c) :
    Capped d (t + c) (r + c) := by
  constructor
  · intro ht
    rw [h.1 (by linarith)]
  · intro ht
    rcases le_or_gt t d with hle | hlt
    · rw [h.1 hle]; exact ht
    · have := h.2 hlt
      linarith

omit [CommRing R] in
theorem Capped.min (h : Capped d t r) (h' : Capped d t' r') :
    Capped d (min t t') (min r r') := by
  constructor
  · intro ht
    rcases le_or_gt t d with hle | hlt
    · rcases le_or_gt t' d with hle' | hlt'
      · rw [h.1 hle, h'.1 hle']
      · have := h'.2 hlt'
        rw [h.1 hle, min_eq_left (hle.trans hlt'.le), min_eq_left (hle.trans this.le)]
    · rcases min_le_iff.mp ht with g | g
      · exact absurd g (not_le.mpr hlt)
      · have := h.2 hlt
        rw [h'.1 g, min_eq_right (g.trans hlt.le), min_eq_right (g.trans this.le)]
  · intro ht
    obtain ⟨ha,hb⟩ := lt_min_iff.mp ht
    exact lt_min (h.2 ha) (h'.2 hb)

end Capped

section Scripts

inductive Edit : List α → List α → Prop where
  | insertion (u v : List α) (c : α) : Edit (u ++ v) (u ++ c :: v)
  | deletion (u v : List α) (c : α) : Edit (u ++ c :: v) (u ++ v)
  | substitution (u v : List α) (c d : α) : Edit (u ++ c :: v) (u ++ d :: v)

inductive Edits : ℕ → List α → List α → Prop where
  | refl (xs : List α) : Edits 0 xs xs
  | tail {n : ℕ} {xs ys zs : List α} (h : Edits n xs ys) (hlast : Edit ys zs) : Edits (n + 1) xs zs

-- Two texts side by side, with the number of places at which they differ.
inductive Align : ℕ → List α → List α → Prop where
  | nil : Align 0 [] []
  | keep {n : ℕ} {xs ys : List α} (x : α) (h : Align n xs ys) : Align n (x :: xs) (x :: ys)
  | replace {n : ℕ} {xs ys : List α} (x y : α) (h : Align n xs ys) : Align (n + 1) (x :: xs) (y :: ys)
  | insert {n : ℕ} {xs ys : List α} (y : α) (h : Align n xs ys) : Align (n + 1) xs (y :: ys)
  | delete {n : ℕ} {xs ys : List α} (x : α) (h : Align n xs ys) : Align (n + 1) (x :: xs) ys

variable {xs ys zs : List α} {n m : ℕ}

theorem Edit.cons (x : α) (h : Edit xs ys) : Edit (x :: xs) (x :: ys) := by
  cases h with
  | insertion u v c => exact .insertion (x :: u) v c
  | deletion u v c => exact .deletion (x :: u) v c
  | substitution u v c d => exact .substitution (x :: u) v c d

theorem Edit.reverse (h : Edit xs ys) : Edit xs.reverse ys.reverse := by
  cases h with
  | insertion u v c => simpa using Edit.insertion v.reverse u.reverse c
  | deletion u v c => simpa using Edit.deletion v.reverse u.reverse c
  | substitution u v c d => simpa using Edit.substitution v.reverse u.reverse c d

theorem edit_nil (h : Edit [] zs) : ∃ z, zs = [z] := by
  generalize hxs : ([] : List α) = xs at h
  cases h with
  | insertion u v c =>
    obtain ⟨rfl,rfl⟩ := List.append_eq_nil_iff.mp hxs.symm
    exact ⟨c, rfl⟩
  | deletion u v c => exact absurd hxs.symm (List.append_ne_nil_of_right_ne_nil u (List.cons_ne_nil c v))
  | substitution u v c d => exact absurd hxs.symm (List.append_ne_nil_of_right_ne_nil u (List.cons_ne_nil c v))

theorem edit_cons {y : α} (h : Edit (y :: ys) zs) :
    (∃ z, zs = z :: y :: ys) ∨ zs = ys ∨ (∃ z, zs = z :: ys) ∨ ∃ zs', zs = y :: zs' ∧ Edit ys zs' := by
  generalize hxs : y :: ys = xs at h
  cases h with
  | insertion u v c =>
    cases u with
    | nil =>
      cases hxs
      exact .inl ⟨c, rfl⟩
    | cons x u =>
      cases hxs
      exact .inr (.inr (.inr ⟨_, rfl, .insertion u v c⟩))
  | deletion u v c =>
    cases u with
    | nil =>
      cases hxs
      exact .inr (.inl rfl)
    | cons x u =>
      cases hxs
      exact .inr (.inr (.inr ⟨_, rfl, .deletion u v c⟩))
  | substitution u v c d =>
    cases u with
    | nil =>
      cases hxs
      exact .inr (.inr (.inl ⟨d, rfl⟩))
    | cons x u =>
      cases hxs
      exact .inr (.inr (.inr ⟨_, rfl, .substitution u v c d⟩))

theorem Edits.cons (x : α) (h : Edits n xs ys) : Edits n (x :: xs) (x :: ys) := by
  induction h with
  | refl xs => exact .refl _
  | tail _ hlast ih => exact ih.tail (hlast.cons x)

theorem Edits.reverse (h : Edits n xs ys) : Edits n xs.reverse ys.reverse := by
  induction h with
  | refl xs => exact .refl _
  | tail _ hlast ih => exact ih.tail hlast.reverse

theorem Align.refl (xs : List α) : Align 0 xs xs := by
  induction xs with
  | nil => exact .nil
  | cons x xs ih => exact ih.keep x

theorem Align.edits (h : Align n xs ys) : Edits n xs ys := by
  induction h with
  | nil => exact .refl []
  | keep x _ ih => exact ih.cons x
  | replace x y _ ih => exact (ih.cons x).tail (.substitution [] _ x y)
  | insert y _ ih => exact ih.tail (.insertion [] _ y)
  | delete x _ ih => exact (ih.cons x).tail (.deletion [] _ x)

theorem Align.trans_edit (h : Align n xs ys) (hedit : Edit ys zs) : ∃ m ≤ n + 1, Align m xs zs := by
  induction h generalizing zs with
  | nil =>
    obtain ⟨z,rfl⟩ := edit_nil hedit
    exact ⟨1, Nat.le_refl 1, Align.nil.insert z⟩
  | @keep n xs ys x h ih =>
    rcases edit_cons hedit with ⟨z,rfl⟩ | rfl | ⟨z,rfl⟩ | ⟨zs,rfl,hrest⟩
    · exact ⟨n + 1, Nat.le_refl _, (h.keep x).insert z⟩
    · exact ⟨n + 1, Nat.le_refl _, h.delete x⟩
    · exact ⟨n + 1, Nat.le_refl _, h.replace x z⟩
    · obtain ⟨m,hm,hrest⟩ := ih hrest
      exact ⟨m, hm, hrest.keep x⟩
  | @replace n xs ys x y h ih =>
    rcases edit_cons hedit with ⟨z,rfl⟩ | rfl | ⟨z,rfl⟩ | ⟨zs,rfl,hrest⟩
    · exact ⟨n + 2, Nat.le_refl _, (h.replace x y).insert z⟩
    · exact ⟨n + 1, Nat.le_succ _, h.delete x⟩
    · exact ⟨n + 1, Nat.le_succ _, h.replace x z⟩
    · obtain ⟨m,hm,hrest⟩ := ih hrest
      exact ⟨m + 1, Nat.succ_le_succ hm, hrest.replace x y⟩
  | @insert n xs ys y h ih =>
    rcases edit_cons hedit with ⟨z,rfl⟩ | rfl | ⟨z,rfl⟩ | ⟨zs,rfl,hrest⟩
    · exact ⟨n + 2, Nat.le_refl _, (h.insert y).insert z⟩
    · exact ⟨n, by omega, h⟩
    · exact ⟨n + 1, Nat.le_succ _, h.insert z⟩
    · obtain ⟨m,hm,hrest⟩ := ih hrest
      exact ⟨m + 1, Nat.succ_le_succ hm, hrest.insert y⟩
  | @delete n xs ys x h ih =>
    obtain ⟨m,hm,hrest⟩ := ih hedit
    exact ⟨m + 1, Nat.succ_le_succ hm, hrest.delete x⟩

theorem Edits.align (h : Edits n xs ys) : ∃ m ≤ n, Align m xs ys := by
  induction h with
  | refl xs => exact ⟨0, Nat.le_refl 0, .refl xs⟩
  | tail _ hlast ih =>
    obtain ⟨m,hm,halign⟩ := ih
    obtain ⟨m',hm',halign'⟩ := halign.trans_edit hlast
    exact ⟨m', hm'.trans (Nat.succ_le_succ hm), halign'⟩

theorem align_nil_left (ys : List α) : Align ys.length [] ys := by
  induction ys with
  | nil => exact .nil
  | cons y ys ih => exact ih.insert y

theorem align_nil_right (xs : List α) : Align xs.length xs [] := by
  induction xs with
  | nil => exact .nil
  | cons x xs ih => exact ih.delete x

variable [DecidableEq α]

theorem exists_align (xs ys : List α) : ∃ n : ℕ, dist (unitCost (R := R)) xs ys = n ∧ Align n xs ys := by
  induction xs generalizing ys with
  | nil => exact ⟨ys.length, dist_nil_left _ ys, align_nil_left ys⟩
  | cons x xs ihx =>
    induction ys with
    | nil => exact ⟨(x :: xs).length, dist_nil_right _ (x :: xs), align_nil_right (x :: xs)⟩
    | cons y ys ihy =>
      obtain ⟨n,hn,hdelete⟩ := ihx (y :: ys)
      obtain ⟨m,hm,hinsert⟩ := ihy
      obtain ⟨k,hk,hboth⟩ := ihx ys
      rw [dist_cons_cons, hn, hm, hk]
      rcases min_choice (min ((n : R) + 1) ((m : R) + 1)) ((k : R) + unitCost x y) with h | h
      · rw [h]
        rcases min_choice ((n : R) + 1) ((m : R) + 1) with h | h
        · exact ⟨n + 1, by rw [h, Nat.cast_add, Nat.cast_one], hdelete.delete x⟩
        · exact ⟨m + 1, by rw [h, Nat.cast_add, Nat.cast_one], hinsert.insert y⟩
      · rw [h, unitCost]
        split
        · next heq =>
          subst heq
          exact ⟨k, add_zero _, hboth.keep x⟩
        · exact ⟨k + 1, by rw [Nat.cast_add, Nat.cast_one], hboth.replace x y⟩

variable [IsStrictOrderedRing R]

theorem Align.dist_le (h : Align n xs ys) : dist (unitCost (R := R)) xs ys ≤ n := by
  induction h with
  | nil => simp
  | @keep n xs ys x h ih =>
    rw [dist_cons_cons]
    refine (min_le_right _ _).trans ?_
    rwa [unitCost, if_pos rfl, add_zero]
  | @replace n xs ys x y h ih =>
    rw [dist_cons_cons, Nat.cast_add, Nat.cast_one]
    refine (min_le_right _ _).trans (add_le_add ih ?_)
    rw [unitCost]
    split
    · exact zero_le_one
    · exact le_refl 1
  | @insert n xs ys y h ih =>
    rw [Nat.cast_add, Nat.cast_one]
    exact (dist_cons_right_le y xs ys).trans (add_le_add_left ih 1)
  | @delete n xs ys x h ih =>
    rw [Nat.cast_add, Nat.cast_one]
    exact (dist_cons_left_le x xs ys).trans (add_le_add_left ih 1)

theorem exists_isLeast_edits (xs ys : List α) :
    ∃ n : ℕ, dist (unitCost (R := R)) xs ys = n ∧ IsLeast {m | Edits m xs ys} n := by
  obtain ⟨n,hn,halign⟩ := exists_align (R := R) xs ys
  refine ⟨n, hn, halign.edits, fun m hm => ?_⟩
  obtain ⟨k,hk,halign'⟩ := Edits.align hm
  have hle := halign'.dist_le (R := R)
  rw [hn, Nat.cast_le] at hle
  exact hle.trans hk

end Scripts

end PicoSentry.Foundation.EditDistance
