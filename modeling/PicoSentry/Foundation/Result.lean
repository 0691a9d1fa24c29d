import Mathlib.Data.List.Basic

namespace PicoSentry.Foundation

inductive PyError where
  | indexError
  | typeError
  | valueError
  | attributeError
  | keyError
  | osError
  deriving DecidableEq, Repr

theorem bind_eq_ok {α β ε : Type} {x : Except ε α} {f : α → Except ε β} {r : β} :
    x >>= f = .ok r ↔ ∃ a, x = .ok a ∧ f a = .ok r := by
  cases x with
  | error e => simp [bind, Except.bind]
  | ok a => simp [bind, Except.bind]

theorem bind_of_eq_ok {α β ε : Type} {x : Except ε α} {a : α} (h : x = .ok a)
    (f : α → Except ε β) : (x >>= f) = f a := by
  rw [h]
  rfl

theorem mapM_ok {α β ε : Type} {f : α → Except ε β} {g : α → β} {xs : List α}
    (h : ∀ x ∈ xs, f x = .ok (g x)) : xs.mapM f = .ok (xs.map g) := by
  induction xs with
  | nil => rfl
  | cons x xs ih =>
    obtain ⟨hx,hxs⟩ := List.forall_mem_cons.mp h
    rw [List.mapM_cons, hx, ih hxs]
    rfl

theorem mem_mapM {α β ε : Type} {f : α → Except ε β} {xs : List α} {ys : List β}
    (h : xs.mapM f = .ok ys) (y : β) : y ∈ ys ↔ ∃ x ∈ xs, f x = .ok y := by
  induction xs generalizing ys with
  | nil =>
    cases h
    simp
  | cons x xs ih =>
    obtain ⟨z,hz,hrest⟩ := bind_eq_ok.mp (List.mapM_cons.symm.trans h)
    obtain ⟨zs,hzs,hys⟩ := bind_eq_ok.mp hrest
    cases hys
    rw [List.mem_cons, ih hzs, List.exists_mem_cons_iff, hz, Except.ok.injEq, eq_comm]

theorem mapM_isOk {α β ε : Type} {f : α → Except ε β} {xs : List α} :
    (∃ ys, xs.mapM f = .ok ys) ↔ ∀ x ∈ xs, ∃ y, f x = .ok y := by
  induction xs with
  | nil => exact iff_of_true ⟨[], rfl⟩ fun _ hx => absurd hx List.not_mem_nil
  | cons x xs ih =>
    rw [List.forall_mem_cons, ← ih]
    constructor
    · rintro ⟨ys,h⟩
      obtain ⟨y,hy,hrest⟩ := bind_eq_ok.mp (List.mapM_cons.symm.trans h)
      obtain ⟨zs,hzs,-⟩ := bind_eq_ok.mp hrest
      exact ⟨⟨y, hy⟩, zs, hzs⟩
    · rintro ⟨⟨y,hy⟩,zs,hzs⟩
      refine ⟨y :: zs, ?_⟩
      rw [List.mapM_cons, hy, hzs]
      rfl

theorem mapM_head? {α β ε : Type} {f : α → Except ε β} {xs : List α} {ys : List β} {y : β}
    (h : xs.mapM f = .ok ys) (hy : ys.head? = some y) : ∃ x ∈ xs, f x = .ok y := by
  cases xs with
  | nil => cases h; simp at hy
  | cons x xs =>
    rw [List.mapM_cons, bind_eq_ok] at h
    obtain ⟨z,hz,h⟩ := h
    obtain ⟨zs,_,h⟩ := bind_eq_ok.mp h
    cases h
    cases hy
    exact ⟨x, by simp, hz⟩

-- Good at the end means good all along, and then what holds of the part seen grows with it.
theorem foldlM_seen {σ α β ε : Type} {f : σ → α → Except ε σ} {g : α → List β} {Good : σ → Prop}
    {Seen : σ → List β → Prop} (hgood : ∀ s x s', f s x = .ok s' → Good s' → Good s)
    (hseen : ∀ s x s' bs, f s x = .ok s' → Good s' → Seen s bs → Seen s' (bs ++ g x))
    {s s' : σ} {xs : List α} {bs : List β} (h : xs.foldlM f s = .ok s') (hs' : Good s')
    (hs : Seen s bs) : Good s ∧ Seen s' (bs ++ xs.flatMap g) := by
  have hback : ∀ {s : σ} {xs : List α}, xs.foldlM f s = .ok s' → Good s := by
    intro s xs h
    induction xs generalizing s with
    | nil => exact Except.ok.inj h ▸ hs'
    | cons x xs ih =>
      obtain ⟨t,ht,hrest⟩ := bind_eq_ok.mp (List.foldlM_cons.symm.trans h)
      exact hgood s x t ht (ih hrest)
  refine ⟨hback h, ?_⟩
  induction xs generalizing s bs with
  | nil =>
    obtain rfl := Except.ok.inj h
    rw [List.flatMap_nil, List.append_nil]
    exact hs
  | cons x xs ih =>
    obtain ⟨t,ht,hrest⟩ := bind_eq_ok.mp (List.foldlM_cons.symm.trans h)
    rw [List.flatMap_cons, ← List.append_assoc]
    exact ih hrest (hseen s x t bs ht (hback hrest) hs)

section Collect

variable {α β γ ε : Type}

def collect (f : α → Except ε (Option β)) : List α → Except ε (List β)
  | [] => .ok []
  | x :: xs => do
      let r ← f x
      let rest ← collect f xs
      return r.toList ++ rest

theorem collect_cons_ok {f : α → Except ε (Option β)} {x : α} {r : Option β} (h : f x = .ok r)
    (xs : List α) : collect f (x :: xs) = (collect f xs).map (r.toList ++ ·) := by
  simp only [collect, h]
  cases collect f xs <;> rfl

theorem collect_cons_error {f : α → Except ε (Option β)} {x : α} {e : ε} (h : f x = .error e)
    (xs : List α) : collect f (x :: xs) = .error e := by
  simp only [collect, h]
  rfl

theorem collect_ok {f : α → Except ε (Option β)} {g : α → Option β} {xs : List α}
    (h : ∀ x ∈ xs, f x = .ok (g x)) : collect f xs = .ok (xs.filterMap g) := by
  induction xs with
  | nil => rfl
  | cons x xs ih =>
    rw [collect_cons_ok (h x (by simp)), ih fun y hy => h y (by simp [hy])]
    cases hg : g x <;> simp [Except.map, hg]

theorem collect_error {f : α → Except ε (Option β)} {e : ε} {xs : List α}
    (hf : ∀ x ∈ xs, f x = .error e ∨ ∃ r, f x = .ok r) (h : ∃ x ∈ xs, f x = .error e) :
    collect f xs = .error e := by
  induction xs with
  | nil => simp at h
  | cons x xs ih =>
    rcases hf x (by simp) with hx | ⟨r,hx⟩
    · exact collect_cons_error hx xs
    · have hrest : ∃ y ∈ xs, f y = .error e := by
        obtain ⟨y,hy,he⟩ := h
        rcases List.mem_cons.mp hy with rfl | hy
        · rw [hx] at he; cases he
        · exact ⟨y, hy, he⟩
      rw [collect_cons_ok hx, ih (fun y hy => hf y (by simp [hy])) hrest]
      rfl

theorem collect_filterMap (f : β → Except ε (Option γ)) (g : α → Option β) (xs : List α) :
    collect f (xs.filterMap g) = collect (fun x => (g x).elim (.ok none) f) xs := by
  induction xs with
  | nil => rfl
  | cons x xs ih =>
    cases hg : g x with
    | none =>
      rw [List.filterMap_cons_none hg, ih, collect_cons_ok (r := none) (by simp [hg])]
      cases collect (fun x => (g x).elim (.ok none) f) xs <;> rfl
    | some y =>
      rw [List.filterMap_cons_some hg]
      simp only [collect, hg, Option.elim, ih]

theorem collect_perm {f : α → Except ε (Option β)} {e : ε} {xs ys : List α}
    (hf : ∀ x, f x = .error e ∨ ∃ r, f x = .ok r) (h : xs.Perm ys) :
    (collect f xs = .error e ∧ collect f ys = .error e) ∨
      ∃ bs cs, collect f xs = .ok bs ∧ collect f ys = .ok cs ∧ bs.Perm cs := by
  by_cases hx : ∃ x ∈ xs, f x = .error e
  · obtain ⟨x,hm,he⟩ := hx
    exact .inl ⟨collect_error (fun y _ => hf y) ⟨x, hm, he⟩,
      collect_error (fun y _ => hf y) ⟨x, h.mem_iff.mp hm, he⟩⟩
  · have hok : ∀ x ∈ xs, f x = .ok ((f x).toOption.getD none) := by
      intro x hm
      rcases hf x with he | ⟨r,hr⟩
      · exact absurd ⟨x, hm, he⟩ hx
      · simp [hr, Except.toOption]
    exact .inr ⟨_, _, collect_ok hok, collect_ok fun y hy => hok y (h.mem_iff.mpr hy),
      h.filterMap _⟩

theorem collect_related {β' : Type} {f : α → Except ε (Option β)} {g : α → Except ε (Option β')}
    {R : β' → β → Prop} {xs : List α} {bs : List β}
    (hfg : ∀ x ∈ xs, ∀ r, f x = .ok r → ∃ r', g x = .ok r' ∧ ∀ b ∈ r, ∃ b' ∈ r', R b' b)
    (h : collect f xs = .ok bs) : ∃ bs', collect g xs = .ok bs' ∧ ∀ b ∈ bs, ∃ b' ∈ bs', R b' b := by
  induction xs generalizing bs with
  | nil =>
    cases h
    exact ⟨[], rfl, by simp⟩
  | cons x xs ih =>
    obtain ⟨r,hr,hrest⟩ := bind_eq_ok.mp h
    obtain ⟨rest,hcollect,hbs⟩ := bind_eq_ok.mp hrest
    cases hbs
    obtain ⟨r',hr',hhead⟩ := hfg x (by simp) r hr
    obtain ⟨rest',hcollect',htail⟩ := ih (fun y hy => hfg y (by simp [hy])) hcollect
    refine ⟨r'.toList ++ rest', by rw [collect_cons_ok hr', hcollect']; rfl, fun b hb => ?_⟩
    rcases List.mem_append.mp hb with hb | hb
    · obtain ⟨b',hb',hR⟩ := hhead b (Option.mem_toList.mp hb)
      exact ⟨b', List.mem_append_left _ (Option.mem_toList.mpr hb'), hR⟩
    · obtain ⟨b',hb',hR⟩ := htail b hb
      exact ⟨b', List.mem_append_right _ hb', hR⟩

end Collect

section FoldUntil

variable {σ α ε : Type}

-- A loop whose body raises before it changes anything: what earlier passes changed stays.
def foldUntil (f : σ → α → Except ε σ) : σ → List α → σ × Except ε Unit
  | s, [] => (s, .ok ())
  | s, a :: as =>
    match f s a with
    | .error e => (s, .error e)
    | .ok s' => foldUntil f s' as

variable {f : σ → α → Except ε σ}

theorem foldUntil_cons_ok {s s' : σ} {a : α} (h : f s a = .ok s') (as : List α) :
    foldUntil f s (a :: as) = foldUntil f s' as := by
  rw [foldUntil, h]

theorem foldUntil_cons_error {s : σ} {a : α} {e : ε} (h : f s a = .error e) (as : List α) :
    foldUntil f s (a :: as) = (s, .error e) := by
  rw [foldUntil, h]

theorem foldUntil_error {s : σ} {as : List α} {e : ε} (h : (foldUntil f s as).2 = .error e) :
    ∃ before a after, as = before ++ a :: after ∧
      foldUntil f s before = ((foldUntil f s as).1, .ok ()) ∧
      f (foldUntil f s as).1 a = .error e := by
  induction as generalizing s with
  | nil => cases h
  | cons a as ih =>
    cases hf : f s a with
    | error e' =>
      rw [foldUntil_cons_error hf] at h ⊢
      cases h
      exact ⟨[], a, as, rfl, rfl, hf⟩
    | ok s' =>
      rw [foldUntil_cons_ok hf] at h ⊢
      obtain ⟨before,b,after,rfl,hbefore,hb⟩ := ih h
      exact ⟨a :: before, b, after, rfl, by rw [foldUntil_cons_ok hf, hbefore], hb⟩

theorem foldUntil_map {β : Type} {g : β → α} {step : σ → β → σ}
    (h : ∀ s b, f s (g b) = .ok (step s b)) (s : σ) {bs : List β} :
    foldUntil f s (bs.map g) = (bs.foldl step s, .ok ()) := by
  induction bs generalizing s with
  | nil => rfl
  | cons b bs ih =>
    rw [List.map_cons, foldUntil_cons_ok (h s b), ih]
    rfl

end FoldUntil

end PicoSentry.Foundation
