import PicoSentry.Foundation.Substitute

namespace PicoSentry.Foundation.Masking

section Replace

variable {old new : Str}

theorem subFrom_replacing (before : Option Char) (text : Str) :
    subFrom (replacing old new) before 0 text = replaceStr old new text := by
  cases text with
  | nil => rfl
  | cons c rest => rw [replaceStr, sub, subFrom, subFrom, replacing, replacing]

theorem replacing_none {before : Option Char} {text : Str} (h : ¬old <+: text) : replacing old new before text = none := by
  rw [replacing, literal, if_neg h]
  rfl

theorem replaceStr_skip {c : Char} {rest : Str} (h : ¬old <+: c :: rest) :
    replaceStr old new (c :: rest) = c :: replaceStr old new rest := by
  rw [replaceStr, sub, subFrom_none (replacing_none h), subFrom_replacing]

theorem replaceStr_pass {w rest : Str} (h : ∀ s, s ≠ [] → s <:+ w → ¬old <+: s ++ rest) :
    replaceStr old new (w ++ rest) = w ++ replaceStr old new rest := by
  induction w with
  | nil => rfl
  | cons c w ih =>
    have hhead := h (c :: w) (List.cons_ne_nil _ _) (List.suffix_refl _)
    rw [List.cons_append] at hhead
    rw [List.cons_append, replaceStr_skip hhead, List.cons_append, ih fun s hs hsuffix => h s hs (hsuffix.trans (List.suffix_cons c w))]

theorem replaceStr_begin (hne : old ≠ []) (rest : Str) :
    replaceStr old new (old ++ rest) = new ++ replaceStr old new rest := by
  cases old with
  | nil => exact absurd rfl hne
  | cons c w =>
    have hmatch : replacing (c :: w) new none (c :: (w ++ rest)) = some (new, rest) := by
      rw [← List.cons_append, replacing, literal_append]
      rfl
    rw [List.cons_append, replaceStr, sub, subFrom_some hmatch, subFrom_replacing]

end Replace

section Masked

-- A text with some originals exchanged for their placeholders; a pair holds a placeholder and its original.
inductive Masked (pairs : List (Str × Str)) : Str → Str → Prop where
  | nil : Masked pairs [] []
  | keep {text masked : Str} (c : Char) (h : Masked pairs text masked) : Masked pairs (c :: text) (c :: masked)
  | mask {text masked : Str} {pair : Str × Str} (hpair : pair ∈ pairs) (h : Masked pairs text masked) :
      Masked pairs (pair.2 ++ text) (pair.1 ++ masked)

variable {pairs : List (Str × Str)} {text masked : Str}

theorem masked_refl (pairs : List (Str × Str)) (text : Str) : Masked pairs text text := by
  induction text with
  | nil => exact .nil
  | cons c text ih => exact ih.keep c

theorem Masked.keeps (h : Masked pairs text masked) (w : Str) : Masked pairs (w ++ text) (w ++ masked) := by
  induction w with
  | nil => exact h
  | cons c w ih => exact ih.keep c

theorem eq_of_masked_nil (h : Masked [] text masked) : masked = text := by
  induction h with
  | nil => rfl
  | keep c _ ih => rw [ih]
  | mask hpair => cases hpair

end Masked

section Protect

def Clear (original placeholder : Str) : Prop :=
  ∀ a b c d, a ++ original ++ b = c ++ placeholder ++ d →
    a.length + original.length ≤ c.length ∨ c.length + placeholder.length ≤ a.length

variable {pairs : List (Str × Str)} {text masked original : Str}

theorem Masked.peel {w v after : Str} (hclear : ∀ pair ∈ pairs, pair.1 ≠ [] ∧ Clear (v ++ w) pair.1)
    (h : Masked pairs text (w ++ after)) : ∃ rest, text = w ++ rest ∧ Masked pairs rest after := by
  induction w generalizing v text with
  | nil => exact ⟨text, rfl, h⟩
  | cons x w ih =>
    generalize hmasked : x :: w ++ after = masked at h
    cases h with
    | nil => cases hmasked
    | @keep text masked c h =>
      obtain ⟨rfl,rfl⟩ := List.cons.inj hmasked
      have hshift : ∀ pair ∈ pairs, pair.1 ≠ [] ∧ Clear (v ++ [x] ++ w) pair.1 := by
        rw [List.append_assoc]
        exact hclear
      obtain ⟨rest,rfl,hrest⟩ := ih hshift h
      exact ⟨rest, rfl, hrest⟩
    | @mask text masked pair hpair h =>
      obtain ⟨hne,hpart⟩ := hclear pair hpair
      have hlong := List.length_pos_iff.mpr hne
      have hparts := hpart [] after v masked (by rw [List.nil_append, List.append_assoc, hmasked, List.append_assoc])
      simp only [List.length_append, List.length_cons, List.length_nil] at hparts
      omega

theorem Masked.replace {placeholder : Str} (hmem : (placeholder, original) ∈ pairs) (hne : original ≠ [])
    (hclear : ∀ pair ∈ pairs, pair.1 ≠ [] ∧ Clear original pair.1) (h : Masked pairs text masked) :
    Masked pairs text (replaceStr original placeholder masked) := by
  generalize hlength : masked.length = n
  induction n using Nat.strong_induction_on generalizing text masked with
  | _ n ih =>
    by_cases hbegins : original <+: masked
    · obtain ⟨after,rfl⟩ := hbegins
      obtain ⟨rest,rfl,hrest⟩ := h.peel (v := []) hclear
      rw [List.length_append] at hlength
      have hpos := List.length_pos_iff.mpr hne
      rw [replaceStr_begin hne]
      exact .mask hmem (ih after.length (by omega) hrest rfl)
    · cases h with
      | nil => exact .nil
      | @keep text masked c h =>
        rw [List.length_cons] at hlength
        rw [replaceStr_skip hbegins]
        exact (ih masked.length (by omega) h rfl).keep c
      | @mask text masked pair hpair h =>
        obtain ⟨hfull,hpart⟩ := hclear pair hpair
        have hlong := List.length_pos_iff.mpr hfull
        rw [List.length_append] at hlength
        rw [replaceStr_pass]
        · exact .mask hpair (ih masked.length (by omega) h rfl)
        · rintro s hs ⟨front,hfront⟩ ⟨after,hafter⟩
          have hpos := List.length_pos_iff.mpr hne
          have hshort := List.length_pos_iff.mpr hs
          have hsum := congrArg List.length hfront
          have hparts := hpart front after [] masked (by
            rw [List.append_assoc, hafter, ← List.append_assoc, hfront, List.nil_append])
          simp only [List.length_append, List.length_nil] at hparts hsum
          omega

theorem masked_protect (hpairs : ∀ pair ∈ pairs, pair.2 ≠ [] ∧ ∀ other ∈ pairs, other.1 ≠ [] ∧ Clear pair.2 other.1)
    {part : List (Str × Str)} (hpart : part ⊆ pairs) (h : Masked pairs text masked) :
    Masked pairs text (part.foldl (fun result pair => replaceStr pair.2 pair.1 result) masked) := by
  induction part generalizing masked with
  | nil => exact h
  | cons pair part ih =>
    have hmem := hpart List.mem_cons_self
    obtain ⟨hne,hclear⟩ := hpairs pair hmem
    exact ih (fun other hother => hpart (List.mem_cons_of_mem _ hother)) (h.replace hmem hne hclear)

theorem masked_replaceStr {old : Str} (hne : old ≠ []) (new text : Str) :
    Masked [(new, old)] text (replaceStr old new text) := by
  have hsteps := substituted_sub (proper_replacing hne new) text
  rw [replaceStr]
  generalize sub (replacing old new) text = out at hsteps
  generalize none = before at hsteps
  induction hsteps with
  | nil => exact .nil
  | pass _ _ ih => exact ih.keep _
  | @exchange before c w x after out hmatch _ ih =>
    obtain ⟨rest,hrest,heq⟩ := Option.map_eq_some_iff.mp hmatch
    obtain ⟨rfl,rfl⟩ := Prod.mk.inj heq
    have hold := literal_eq_some_iff.mp hrest
    rw [← List.cons_append] at hold ⊢
    rw [hold]
    exact @Masked.mask [(new, old)] _ _ (new, old) (List.mem_singleton_self _) ih

theorem clear_of_ends {original placeholder : Str} (hne : original ≠ []) (hhead : ∀ c, original.head? = some c → c ∉ placeholder)
    (hlast : ∀ c, original.getLast? = some c → c ∉ placeholder) (hinside : ¬placeholder <:+: original) :
    Clear original placeholder := by
  intro a b c d heq
  rw [List.append_assoc, List.append_assoc] at heq
  rcases List.append_eq_append_iff.mp heq with ⟨e,rfl,hrest⟩ | ⟨e,rfl,hrest⟩
  · rcases List.append_eq_append_iff.mp hrest with ⟨f,rfl,_⟩ | ⟨f,rfl,hparts⟩
    · left
      simp only [List.length_append]
      omega
    · rcases List.eq_nil_or_concat f with rfl | ⟨f,x,rfl⟩
      · left
        simp only [List.length_append, List.length_nil]
        omega
      · rcases List.append_eq_append_iff.mp hparts with ⟨g,hg,_⟩ | ⟨g,hg,_⟩
        · exact absurd ⟨e, g, by rw [List.append_assoc, ← hg]⟩ hinside
        · refine absurd ?_ (hlast x (by rw [List.concat_eq_append, ← List.append_assoc, List.getLast?_concat]))
          rw [hg, List.concat_eq_append]
          exact List.mem_append_left _ (List.mem_append_right _ (List.mem_singleton_self x))
  · rcases List.append_eq_append_iff.mp hrest with ⟨f,rfl,_⟩ | ⟨f,rfl,hparts⟩
    · right
      simp only [List.length_append]
      omega
    · cases f with
      | nil =>
        right
        simp only [List.length_append, List.length_nil]
        omega
      | cons x f =>
        cases original with
        | nil => exact absurd rfl hne
        | cons y original =>
          obtain ⟨rfl,_⟩ := List.cons.inj hparts
          exact absurd (List.mem_append_right _ List.mem_cons_self) (hhead _ rfl)

end Protect

section Restore

variable {pairs : List (Str × Str)} {text masked placeholder original : Str} {mark : Char} {words : List Str}

def Sealed (mark : Char) (words : List Str) (placeholder : Str) : Prop :=
  ∃ word ∈ words, ∃ more, placeholder = mark :: (word ++ more) ++ [mark] ∧ mark ∉ word ++ more

theorem Masked.begins (hsealed : ∀ pair ∈ pairs, Sealed mark words pair.1) (h : Masked pairs text masked) {w : Str}
    (hmark : mark ∉ w) (hbegins : w <+: masked) : w <+: text := by
  induction h generalizing w with
  | nil => exact hbegins
  | keep c _ ih =>
    cases w with
    | nil => exact List.nil_prefix
    | cons x w =>
      obtain ⟨rfl,hw⟩ := List.cons_prefix_cons.mp hbegins
      exact List.cons_prefix_cons.mpr ⟨rfl, ih (fun hmem => hmark (List.mem_cons_of_mem _ hmem)) hw⟩
  | mask hpair _ _ =>
    cases w with
    | nil => exact List.nil_prefix
    | cons x w =>
      obtain ⟨word,_,more,hbody,_⟩ := hsealed _ hpair
      rw [hbody] at hbegins
      obtain ⟨rfl,_⟩ := List.cons_prefix_cons.mp hbegins
      exact absurd List.mem_cons_self hmark

theorem Masked.not_begins (hsealed : ∀ pair ∈ pairs, Sealed mark words pair.1) (hplaceholder : Sealed mark words placeholder)
    (hfree : ∀ word ∈ words, ¬word <:+: text) (h : Masked pairs text masked) (c : Char) :
    ¬placeholder <+: c :: masked := by
  obtain ⟨word,hword,more,rfl,hmark⟩ := hplaceholder
  intro hbegins
  rw [List.cons_append] at hbegins
  obtain ⟨_,hbody⟩ := List.cons_prefix_cons.mp hbegins
  rw [List.append_assoc] at hbody
  refine hfree word hword (h.begins hsealed ?_ ((List.prefix_append _ _).trans hbody)).isInfix
  exact fun hmem => hmark (List.mem_append_left _ hmem)

theorem sealed_begins {other rest : Str} (hplaceholder : Sealed mark words placeholder)
    (hother : Sealed mark words other) (h : placeholder <+: other ++ rest) : placeholder = other := by
  obtain ⟨word,_,more,rfl,hmark⟩ := hplaceholder
  obtain ⟨word',_,more',rfl,hmark'⟩ := hother
  obtain ⟨tail,htail⟩ := h
  simp only [List.cons_append, List.append_assoc, List.cons.injEq, true_and] at htail
  have hbody := congrArg (List.takeWhile fun c => c ≠ mark) htail
  have hinside : ∀ {w : Str}, mark ∉ w → ∀ c ∈ w, decide (c ≠ mark) = true := fun hw c hc =>
    decide_eq_true fun he => hw (he ▸ hc)
  rw [← List.append_assoc, (run_cons (hinside hmark) (by simp)).1, ← List.append_assoc,
    (run_cons (hinside hmark') (by simp)).1] at hbody
  rw [hbody]

theorem Masked.unmask (hsealed : ∀ pair ∈ (placeholder, original) :: pairs, Sealed mark words pair.1)
    (hnew : ∀ pair ∈ pairs, placeholder ≠ pair.1) (hfree : ∀ word ∈ words, ¬word <:+: text)
    (h : Masked ((placeholder, original) :: pairs) text masked) :
    Masked pairs text (replaceStr placeholder original masked) := by
  have hplaceholder : Sealed mark words placeholder := hsealed _ List.mem_cons_self
  have hne : placeholder ≠ [] := by
    obtain ⟨_,_,_,rfl,_⟩ := hplaceholder
    exact List.cons_ne_nil _ _
  induction h with
  | nil => exact .nil
  | @keep text masked c h ih =>
    have hrest : ∀ word ∈ words, ¬word <:+: text := fun word hword hinside =>
      hfree word hword (hinside.trans (List.suffix_cons c text).isInfix)
    rw [replaceStr_skip (h.not_begins hsealed hplaceholder hrest c)]
    exact (ih hrest).keep c
  | @mask text masked pair hpair h ih =>
    have hrest : ∀ word ∈ words, ¬word <:+: text := fun word hword hinside =>
      hfree word hword (hinside.trans (List.suffix_append _ _).isInfix)
    rcases List.mem_cons.mp hpair with rfl | hother
    · rw [replaceStr_begin hne]
      exact (ih hrest).keeps original
    · rw [replaceStr_pass]
      · exact .mask hother (ih hrest)
      · intro s hs hsuffix hbegins
        have hsealedPair := hsealed pair hpair
        obtain ⟨word,hword,more,hbody,hmark⟩ := hsealedPair
        rw [hbody, List.cons_append] at hsuffix
        rcases List.suffix_cons_iff.mp hsuffix with hwhole | hinside
        · rw [hwhole, ← List.cons_append, ← hbody] at hbegins
          exact hnew pair hother (sealed_begins hplaceholder (hsealed pair hpair) hbegins)
        · obtain ⟨front,hfront⟩ := hinside
          rcases List.eq_nil_or_concat s with rfl | ⟨s,d,rfl⟩
          · exact hs rfl
          · rw [List.concat_eq_append, ← List.append_assoc] at hfront
            obtain ⟨hfront,hd⟩ := List.append_inj' hfront rfl
            cases s with
            | nil =>
              exact h.not_begins hsealed hplaceholder hrest d hbegins
            | cons x s =>
              obtain ⟨_,_,_,hopen,_⟩ := hplaceholder
              rw [hopen, List.concat_eq_append, List.cons_append, List.cons_append, List.cons_append] at hbegins
              obtain ⟨rfl,_⟩ := List.cons_prefix_cons.mp hbegins
              refine hmark ?_
              rw [← hfront]
              exact List.mem_append_right _ List.mem_cons_self

theorem restored (hsealed : ∀ pair ∈ pairs, Sealed mark words pair.1) (hnodup : (pairs.map Prod.fst).Nodup)
    (hfree : ∀ word ∈ words, ¬word <:+: text) (h : Masked pairs text masked) :
    pairs.foldl (fun result pair => replaceStr pair.1 pair.2 result) masked = text := by
  induction pairs generalizing masked with
  | nil => exact eq_of_masked_nil h
  | cons pair pairs ih =>
    obtain ⟨hnew,hnodup⟩ := List.nodup_cons.mp hnodup
    refine ih (fun other hother => hsealed other (List.mem_cons_of_mem _ hother)) hnodup ?_
    refine h.unmask hsealed (fun other hother heq => ?_) hfree
    exact hnew (heq ▸ List.mem_map_of_mem hother)

end Restore

section Quiet

variable {α : Type} {matchAt : Matcher α} {pairs : List (Str × Str)} {text masked : Str} {mark : Char} {words : List Str}

theorem Quiet.of_append {before : Option Char} {w rest : Str} (h : Quiet matchAt before (w ++ rest)) :
    Quiet matchAt (lastOr before w) rest := by
  induction w generalizing before with
  | nil => exact h
  | cons c w ih =>
    rw [lastOr_cons]
    exact ih h.2

theorem Masked.follows (hsealed : ∀ pair ∈ pairs, Sealed mark words pair.1) (h : Masked pairs text masked) :
    Follows mark text masked := by
  induction h with
  | nil => exact .inl rfl
  | keep c _ ih => exact ih.cons c
  | @mask text masked pair hpair _ _ =>
    obtain ⟨word,_,more,hbody,_⟩ := hsealed pair hpair
    refine .inr ⟨[], pair.2 ++ text, word ++ more ++ [mark] ++ masked, rfl, ?_⟩
    rw [hbody]
    rfl

theorem Masked.quiet (hsevers : Severs matchAt mark) (hsealed : ∀ pair ∈ pairs, Sealed mark words pair.1)
    (hbodies : ∀ pair ∈ pairs, ∀ body, pair.1 = mark :: body ++ [mark] → Quiet matchAt none body)
    (h : Masked pairs text masked) {before : Option Char} (hquiet : Quiet matchAt before text) :
    Quiet matchAt before masked := by
  induction h generalizing before with
  | nil => trivial
  | keep c h ih => exact ⟨((h.follows hsealed).cons c).none hsevers hquiet.1, ih hquiet.2⟩
  | @mask text masked pair hpair h ih =>
    obtain ⟨word,_,more,hbody,_⟩ := hsealed pair hpair
    have hinner := (hbodies pair hpair _ hbody).behind hsevers
    have hrest := (ih (Quiet.of_append hquiet)).behind hsevers
    rw [hbody, List.cons_append, List.cons_append, List.append_assoc]
    exact ⟨hsevers.first _ _, hinner.severed hsevers hrest⟩

end Quiet

end PicoSentry.Foundation.Masking
