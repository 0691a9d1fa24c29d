import Mathlib.Data.List.Basic

namespace PicoSentry.Foundation.Run

variable {σ lab ev : Type} {step : σ → lab → Option (σ × List ev)}

section Exec

variable (step)

def exec : σ → List lab → Option (σ × List ev)
  | s, [] => some (s, [])
  | s, l :: ls => do
      let (s', es) ← step s l
      let (s'', es') ← exec s' ls
      return (s'', es ++ es')

def Meets (cond : σ → lab → Prop) : σ → List lab → Prop
  | _, [] => True
  | s, l :: ls => cond s l ∧ ∀ r ∈ step s l, Meets cond r.1 ls

instance decidableMeets (cond : σ → lab → Prop) [∀ s l, Decidable (cond s l)] :
    ∀ s ls, Decidable (Meets step cond s ls)
  | _, [] => isTrue trivial
  | s, l :: ls =>
    have : ∀ r, Decidable (Meets step cond r ls) := fun r => decidableMeets cond r ls
    inferInstanceAs (Decidable (cond s l ∧ ∀ r ∈ step s l, Meets step cond r.1 ls))

end Exec

theorem exec_cons {s r : σ} {l : lab} {ls : List lab} {es : List ev} :
    exec step s (l :: ls) = some (r, es) ↔
      ∃ s' es' es'', step s l = some (s', es') ∧ exec step s' ls = some (r, es'') ∧
        es = es' ++ es'' := by
  simp only [exec, Option.bind_eq_bind, Option.bind_eq_some_iff, Prod.exists]
  constructor
  · rintro ⟨s',es',hs,r',es'',hr,h⟩
    cases h
    exact ⟨s', es', es'', hs, hr, rfl⟩
  · rintro ⟨s',es',es'',hs,hr,rfl⟩
    exact ⟨s', es', hs, r, es'', hr, rfl⟩

theorem exec_append {s r : σ} {ls ls' : List lab} {es : List ev}
    (h : exec step s (ls ++ ls') = some (r, es)) :
    ∃ t es' es'', exec step s ls = some (t, es') ∧ exec step t ls' = some (r, es'') ∧
      es = es' ++ es'' := by
  induction ls generalizing s es with
  | nil => exact ⟨s, [], es, rfl, h, rfl⟩
  | cons a ls ih =>
    obtain ⟨t,es₁,es₂,hstep,hrest,rfl⟩ := exec_cons.mp h
    obtain ⟨t',es₃,es₄,hls,hlast,rfl⟩ := ih hrest
    exact ⟨t', es₁ ++ es₃, es₄, exec_cons.mpr ⟨t, es₁, es₃, hstep, hls, rfl⟩, hlast,
      (List.append_assoc es₁ es₃ es₄).symm⟩

theorem exec_concat {s r : σ} {l : lab} {ls : List lab} {es : List ev}
    (h : exec step s (ls ++ [l]) = some (r, es)) :
    ∃ t es' es'', exec step s ls = some (t, es') ∧ step t l = some (r, es'') ∧ es = es' ++ es'' := by
  obtain ⟨t,es₁,es₂,hls,hlast,rfl⟩ := exec_append h
  obtain ⟨t',es₃,es₄,hstep,hnil,rfl⟩ := exec_cons.mp hlast
  cases hnil
  exact ⟨t, es₁, es₃, hls, hstep, by rw [List.append_nil]⟩

theorem Meets.append {cond : σ → lab → Prop} {s t : σ} {ls ls' : List lab} {es : List ev}
    (h : Meets step cond s (ls ++ ls')) (hrun : exec step s ls = some (t, es)) :
    Meets step cond s ls ∧ Meets step cond t ls' := by
  induction ls generalizing s es with
  | nil => cases hrun; exact ⟨trivial, h⟩
  | cons l ls ih =>
    obtain ⟨s',es₁,es₂,hs,hr,rfl⟩ := exec_cons.mp hrun
    obtain ⟨hc,hrest⟩ := h
    refine ⟨⟨hc, ?_⟩, (ih (hrest (s', es₁) hs) hr).2⟩
    rintro r hs'
    rw [hs] at hs'
    cases hs'
    exact (ih (hrest (s', es₁) hs) hr).1

theorem Meets.of_invariant {cond cond' : σ → lab → Prop} {Inv : σ → Prop}
    (hstep : ∀ s l s' es, Inv s → cond s l → step s l = some (s', es) → Inv s')
    (himp : ∀ s l, Inv s → cond s l → cond' s l) {s : σ} {ls : List lab} (hinv : Inv s)
    (h : Meets step cond s ls) : Meets step cond' s ls := by
  induction ls generalizing s with
  | nil => trivial
  | cons l ls ih =>
    refine ⟨himp s l hinv h.1, ?_⟩
    intro r hr
    exact ih (hstep s l r.1 r.2 hinv h.1 hr) (h.2 r hr)

theorem Meets.and {cond cond' : σ → lab → Prop} {s : σ} {ls : List lab} (h : Meets step cond s ls)
    (h' : Meets step cond' s ls) : Meets step (fun s l => cond s l ∧ cond' s l) s ls := by
  induction ls generalizing s with
  | nil => trivial
  | cons l ls ih => exact ⟨⟨h.1, h'.1⟩, fun r hr => ih (h.2 r hr) (h'.2 r hr)⟩

theorem meets_true (s : σ) (ls : List lab) : Meets step (fun _ _ => True) s ls := by
  induction ls generalizing s with
  | nil => trivial
  | cons l ls ih => exact ⟨trivial, fun r _ => ih r.1⟩

theorem meets_of_forall {P : lab → Prop} {s : σ} {ls : List lab} (h : ∀ l ∈ ls, P l) :
    Meets step (fun _ l => P l) s ls := by
  induction ls generalizing s with
  | nil => trivial
  | cons l ls ih =>
    exact ⟨h l List.mem_cons_self, fun r _ => ih fun l' hl' => h l' (List.mem_cons_of_mem _ hl')⟩

theorem exec_invariant {cond : σ → lab → Prop} {Inv : List ev → σ → Prop}
    (hstep : ∀ past s l s' es, Inv past s → cond s l → step s l = some (s', es) →
      Inv (past ++ es) s')
    (past : List ev) {es : List ev} {s r : σ} {ls : List lab} (hinv : Inv past s)
    (hmeets : Meets step cond s ls) (hrun : exec step s ls = some (r, es)) :
    Inv (past ++ es) r := by
  induction ls generalizing past s es with
  | nil => cases hrun; simpa using hinv
  | cons l ls ih =>
    obtain ⟨s',es₁,es₂,hs,hr,rfl⟩ := exec_cons.mp hrun
    rw [← List.append_assoc]
    exact ih _ (hstep past s l s' es₁ hinv hmeets.1 hs) (hmeets.2 (s', es₁) hs) hr

theorem exec_view {υ : Type} {view : σ → υ} {act : υ → lab → υ}
    (hstep : ∀ s l s' es, step s l = some (s', es) → view s' = act (view s) l) {s r : σ}
    {ls : List lab} {es : List ev} (hrun : exec step s ls = some (r, es)) :
    view r = ls.foldl act (view s) := by
  induction ls generalizing s es with
  | nil =>
    cases hrun
    rfl
  | cons l ls ih =>
    obtain ⟨s',es₁,es₂,hs,hr,rfl⟩ := exec_cons.mp hrun
    rw [List.foldl_cons, ← hstep s l s' es₁ hs]
    exact ih hr

section Always

variable (step)

def Always (P : σ → Prop) : σ → List lab → Prop
  | s, [] => P s
  | s, l :: ls => P s ∧ ∀ r ∈ step s l, Always P r.1 ls

variable {step} {P Inv : σ → Prop} {allowed cond : σ → lab → Prop}

theorem Always.head {s : σ} {ls : List lab} (h : Always step P s ls) : P s := by
  cases ls with
  | nil => exact h
  | cons l ls => exact h.1

theorem Always.final {s r : σ} {ls : List lab} {es : List ev} (h : Always step P s ls)
    (hrun : exec step s ls = some (r, es)) : P r := by
  induction ls generalizing s es with
  | nil => cases hrun; exact h
  | cons l ls ih =>
    obtain ⟨s',es₁,es₂,hs,hr,rfl⟩ := exec_cons.mp hrun
    exact ih (h.2 (s', es₁) hs) hr

theorem always_iff_meets (htotal : ∀ s l, allowed s l → ∃ r, step s l = some r)
    (hinv : ∀ s l r, Inv s → allowed s l → step s l = some r → Inv r.1)
    (hiff : ∀ s l r, Inv s → P s → allowed s l → step s l = some r → (P r.1 ↔ cond s l))
    {s : σ} {ls : List lab} (hs : Inv s) (hP : P s) (hallowed : Meets step allowed s ls) :
    Always step P s ls ↔ Meets step cond s ls := by
  induction ls generalizing s with
  | nil => exact ⟨fun _ => trivial, fun _ => hP⟩
  | cons l ls ih =>
    obtain ⟨hl,hrest⟩ := hallowed
    obtain ⟨r,hr⟩ := htotal s l hl
    have hstep := hiff s l r hs hP hl hr
    have hih : P r.1 → (Always step P r.1 ls ↔ Meets step cond r.1 ls) :=
      fun hPr => ih (hinv s l r hs hl hr) hPr (hrest r hr)
    constructor
    · intro h
      have hPr := (h.2 r hr).head
      refine ⟨hstep.mp hPr, ?_⟩
      intro r' hr'
      cases hr.symm.trans hr'
      exact (hih hPr).mp (h.2 r hr)
    · intro h
      have hPr := hstep.mpr h.1
      refine ⟨hP, ?_⟩
      intro r' hr'
      cases hr.symm.trans hr'
      exact (hih hPr).mpr (h.2 r hr)

theorem always_iff_meets_of_total (htotal : ∀ s l, ∃ r, step s l = some r)
    (hiff : ∀ s l r, P s → step s l = some r → (P r.1 ↔ cond s l)) {s : σ} {ls : List lab} (hP : P s) :
    Always step P s ls ↔ Meets step cond s ls := by
  have hkept : ∀ s l r, True → True → step s l = some r → True := fun _ _ _ _ _ _ => trivial
  exact always_iff_meets (fun s l _ => htotal s l) hkept (fun s l r _ hs _ hr => hiff s l r hs hr)
    trivial hP (meets_true s ls)

theorem meets_isSome {s r : σ} {ls : List lab} {es : List ev} (hrun : exec step s ls = some (r, es)) :
    Meets step (fun s l => (step s l).isSome = true) s ls := by
  induction ls generalizing s es with
  | nil => trivial
  | cons l ls ih =>
    obtain ⟨s',es₁,es₂,hs,hr,rfl⟩ := exec_cons.mp hrun
    refine ⟨Option.isSome_iff_exists.mpr ⟨(s', es₁), hs⟩, ?_⟩
    intro r' hr'
    cases hs.symm.trans hr'
    exact ih hr

theorem always_iff_meets_of_exec (hinv : ∀ s l r, Inv s → step s l = some r → Inv r.1)
    (hiff : ∀ s l r, Inv s → P s → step s l = some r → (P r.1 ↔ cond s l)) {s r : σ} {ls : List lab}
    {es : List ev} (hs : Inv s) (hP : P s) (hrun : exec step s ls = some (r, es)) :
    Always step P s ls ↔ Meets step cond s ls :=
  always_iff_meets (fun _ _ hsome => Option.isSome_iff_exists.mp hsome)
    (fun s l r hs _ hstep => hinv s l r hs hstep) (fun s l r hs hP _ hstep => hiff s l r hs hP hstep)
    hs hP (meets_isSome hrun)

end Always

theorem final_iff_meets {P : σ → Prop} {cond : σ → lab → Prop} {ls : List lab}
    (hiff : ∀ s, ∀ l ∈ ls, ∀ r, step s l = some r → (P r.1 ↔ P s ∧ cond s l)) {s r : σ} {es : List ev}
    (hrun : exec step s ls = some (r, es)) : P r ↔ P s ∧ Meets step cond s ls := by
  induction ls generalizing s es with
  | nil =>
    cases hrun
    exact (and_iff_left trivial).symm
  | cons l ls ih =>
    obtain ⟨s',es₁,es₂,hs,hr,rfl⟩ := exec_cons.mp hrun
    have hrest := ih (fun s l hl => hiff s l (List.mem_cons_of_mem _ hl)) hr
    rw [hrest, hiff s l List.mem_cons_self (s', es₁) hs, and_assoc]
    refine and_congr_right fun _ => and_congr_right fun _ => ⟨fun h => ?_, fun h => h (s', es₁) hs⟩
    intro r' hr'
    cases hs.symm.trans hr'
    exact h

section Persists

variable (step)

def Persists (R : σ → σ → Prop) (s : σ) (ls : List lab) : Prop :=
  ∀ before middle after t u es es', ls = before ++ middle ++ after →
    exec step s before = some (t, es) → exec step t middle = some (u, es') → R t u

variable {step} {R : σ → σ → Prop} {cond : σ → lab → Prop}

theorem Persists.tail {s : σ} {l : lab} {ls : List lab} {r : σ × List ev}
    (h : Persists step R s (l :: ls)) (hr : step s l = some r) : Persists step R r.1 ls := by
  rintro before middle after t u es es' rfl hbefore hmiddle
  exact h (l :: before) middle after t u (r.2 ++ es) es' rfl
    (exec_cons.mpr ⟨r.1, r.2, es, hr, hbefore, rfl⟩) hmiddle

theorem Persists.first {s : σ} {l : lab} {ls : List lab} {r : σ × List ev}
    (h : Persists step R s (l :: ls)) (hr : step s l = some r) : R s r.1 :=
  h [] [l] ls s r.1 [] (r.2 ++ []) rfl rfl (exec_cons.mpr ⟨r.1, r.2, [], hr, rfl, rfl⟩)

theorem exec_related (hrefl : ∀ s, R s s) (htrans : ∀ s t u, R s t → R t u → R s u)
    (hstep : ∀ s l r, cond s l → step s l = some r → R s r.1) {s r : σ} {ls : List lab}
    {es : List ev} (hmeets : Meets step cond s ls) (hrun : exec step s ls = some (r, es)) : R s r := by
  induction ls generalizing s es with
  | nil =>
    cases hrun
    exact hrefl _
  | cons l ls ih =>
    obtain ⟨s',es₁,es₂,hs,hr,rfl⟩ := exec_cons.mp hrun
    exact htrans s s' r (hstep s l (s', es₁) hmeets.1 hs) (ih (hmeets.2 (s', es₁) hs) hr)

theorem persists_iff_meets (hrefl : ∀ s, R s s) (htrans : ∀ s t u, R s t → R t u → R s u)
    (htotal : ∀ s l, ∃ r, step s l = some r)
    (hiff : ∀ s l r, step s l = some r → (R s r.1 ↔ cond s l)) (s : σ) (ls : List lab) :
    Persists step R s ls ↔ Meets step cond s ls := by
  constructor
  · intro h
    induction ls generalizing s with
    | nil => trivial
    | cons l ls ih =>
      obtain ⟨r,hr⟩ := htotal s l
      refine ⟨(hiff s l r hr).mp (h.first hr), ?_⟩
      intro r' hr'
      exact ih r'.1 (h.tail hr')
  · rintro h before middle after t u es es' rfl hbefore hmiddle
    rw [List.append_assoc] at h
    have hmeets := ((h.append hbefore).2.append hmiddle).1
    exact exec_related hrefl htrans (fun s l r hc hr => (hiff s l r hr).mpr hc) hmeets hmiddle

end Persists

section Eventually

variable (step)

def Eventually (P : σ → lab → Prop) : σ → List lab → Prop
  | _, [] => False
  | s, l :: ls => ∃ r ∈ step s l, P s l ∨ Eventually P r.1 ls

instance decidableEventually (P : σ → lab → Prop) [∀ s l, Decidable (P s l)] :
    ∀ s ls, Decidable (Eventually step P s ls)
  | _, [] => isFalse fun h => h
  | s, l :: ls =>
    have : ∀ r, Decidable (Eventually step P r ls) := fun r => decidableEventually P r ls
    inferInstanceAs (Decidable (∃ r ∈ step s l, P s l ∨ Eventually step P r.1 ls))

variable {step} {Inv : σ → Prop} {Q : σ → lab → Prop}

theorem Eventually.later {s : σ} {l : lab} {ls : List lab} {r : σ × List ev}
    (h : Eventually step Q s (l :: ls)) (hr : step s l = some r) (hnot : ¬Q s l) :
    Eventually step Q r.1 ls := by
  obtain ⟨r',hr',h⟩ := h
  cases hr.symm.trans hr'
  exact h.resolve_left hnot

theorem not_eventually (hstep : ∀ s l r, Inv s → step s l = some r → Inv r.1)
    (hnot : ∀ s l r, Inv s → step s l = some r → ¬Q s l) {s : σ} {ls : List lab} (hs : Inv s) :
    ¬Eventually step Q s ls := by
  induction ls generalizing s with
  | nil => exact fun h => h
  | cons l ls ih =>
    rintro ⟨r,hr,h | h⟩
    · exact hnot s l r hs hr h
    · exact ih (hstep s l r hs hr) h

end Eventually

section Passage

variable (step)

def Preserves (cond : σ → lab → Prop) (P : List ev → σ → Prop) : Prop :=
  ∀ past s l s' es, P past s → cond s l → step s l = some (s', es) → P (past ++ es) s'

variable {step} {cond : σ → lab → Prop} {P Q R : List ev → σ → Prop}

theorem exec_through (hP : Preserves step cond P) (hQ : Preserves step cond Q) {a : lab}
    (hturn : ∀ past s s' es, P past s → cond s a → step s a = some (s', es) → Q (past ++ es) s')
    (past : List ev) {es : List ev} {s r : σ} {ls : List lab} (hmem : a ∈ ls) (h : P past s)
    (hmeets : Meets step cond s ls) (hrun : exec step s ls = some (r, es)) : Q (past ++ es) r := by
  obtain ⟨before,after,rfl⟩ := List.append_of_mem hmem
  obtain ⟨t,es₁,es₂,hbefore,hrest,rfl⟩ := exec_append hrun
  obtain ⟨hmeets₁,hmeets₂⟩ := hmeets.append hbefore
  obtain ⟨t',es₃,es₄,hstep,hafter,rfl⟩ := exec_cons.mp hrest
  have ht := exec_invariant hP past h hmeets₁ hbefore
  have ht' := hturn _ t t' es₃ ht hmeets₂.1 hstep
  have hr := exec_invariant hQ _ ht' (hmeets₂.2 (t', es₃) hstep) hafter
  rw [← List.append_assoc, ← List.append_assoc]
  exact hr

theorem exec_through_two (hP : Preserves step cond P) (hQ : Preserves step cond Q)
    (hR : Preserves step cond R) {a b : lab}
    (hfirst : ∀ past s s' es, P past s → cond s a → step s a = some (s', es) → Q (past ++ es) s')
    (hsecond : ∀ past s s' es, Q past s → cond s b → step s b = some (s', es) → R (past ++ es) s')
    (past : List ev) {es : List ev} {s r : σ} {ls : List lab} (hsub : [a, b].Sublist ls)
    (h : P past s) (hmeets : Meets step cond s ls) (hrun : exec step s ls = some (r, es)) :
    R (past ++ es) r := by
  obtain ⟨front,rear,rfl,ha,hb⟩ := List.cons_sublist_iff.mp hsub
  obtain ⟨t,es₁,es₂,hfront,hrear,rfl⟩ := exec_append hrun
  obtain ⟨hmeets₁,hmeets₂⟩ := hmeets.append hfront
  have ht := exec_through hP hQ hfirst past ha h hmeets₁ hfront
  rw [← List.append_assoc]
  exact exec_through hQ hR hsecond _ (List.singleton_sublist.mp hb) ht hmeets₂ hrear

end Passage

theorem getElem?_set_of_some {α : Type} {xs : List α} {i : Nat} {a : α} (h : xs[i]? = some a)
    (b : α) (j : Nat) : (xs.set i b)[j]? = if i = j then some b else xs[j]? := by
  have hlt : i < xs.length := (List.getElem?_eq_some_iff.mp h).1
  rw [List.getElem?_set]
  split
  · rfl
  · rfl

theorem exists_mem_set_iff {α : Type} {P : α → Prop} {l : List α} {i : Nat} {a : α} (b : α)
    (hget : l[i]? = some a) (ha : ¬ P a) : (∃ x ∈ l.set i b, P x) ↔ P b ∨ ∃ x ∈ l, P x := by
  obtain ⟨hi,rfl⟩ := List.getElem?_eq_some_iff.mp hget
  have hsplit : l = l.take i ++ l[i] :: l.drop (i + 1) := by simp
  have hset : l.set i b = l.take i ++ b :: l.drop (i + 1) := by
    rw [List.set_eq_take_append_cons_drop, if_pos hi]
  constructor
  · rintro ⟨x,hx,hP⟩
    rcases List.mem_or_eq_of_mem_set hx with hx | rfl
    · exact .inr ⟨x, hx, hP⟩
    · exact .inl hP
  · rintro (hP | ⟨x,hx,hP⟩)
    · exact ⟨b, by simp [hset], hP⟩
    · refine ⟨x, ?_, hP⟩
      rw [hsplit] at hx
      rw [hset]
      rcases List.mem_append.mp hx with hx | hx
      · exact List.mem_append_left _ hx
      · rcases List.mem_cons.mp hx with rfl | hx
        · exact absurd hP ha
        · exact List.mem_append_right _ (List.mem_cons_of_mem _ hx)

end PicoSentry.Foundation.Run
