import PicoSentry.Foundation.Backtrack

namespace PicoSentry.Foundation.Redaction

section Patch

-- A character and whether it is one of the text, not of a marker put into it.
abbrev Cell := Char × Bool

def shown (cells : List Cell) : Str := cells.map Prod.fst

def fresh (text : Str) : List Cell := text.map (·, true)

def inked (marker : Str) : List Cell := marker.map (·, false)

-- re.sub on a text in which markers stand.
def patchFrom (matchAt : Matcher Str) : Option Char → Nat → List Cell → List Cell
  | _, _, [] => []
  | _, skip + 1, cell :: rest => patchFrom matchAt (some cell.1) skip rest
  | before, 0, cell :: rest =>
    match matchAt before (cell.1 :: shown rest) with
    | none => cell :: patchFrom matchAt (some cell.1) 0 rest
    | some (x, after) => inked x ++ patchFrom matchAt (some cell.1) (rest.length - after.length) rest

def patch (matchAt : Matcher Str) (cells : List Cell) : List Cell := patchFrom matchAt none 0 cells

@[simp] theorem shown_append (u v : List Cell) : shown (u ++ v) = shown u ++ shown v := List.map_append

@[simp] theorem shown_cons (cell : Cell) (cells : List Cell) : shown (cell :: cells) = cell.1 :: shown cells := rfl

theorem shown_flagged (flag : Bool) (text : Str) : shown (text.map (·, flag)) = text := by
  rw [shown, List.map_map]
  exact List.map_id text

@[simp] theorem shown_fresh (text : Str) : shown (fresh text) = text := shown_flagged true text

@[simp] theorem shown_inked (marker : Str) : shown (inked marker) = marker := shown_flagged false marker

theorem shown_length (cells : List Cell) : (shown cells).length = cells.length := List.length_map _

variable {matchAt : Matcher Str} {cells rest : List Cell}

theorem shown_patchFrom (matchAt : Matcher Str) (before : Option Char) (skip : Nat) (cells : List Cell) :
    shown (patchFrom matchAt before skip cells) = subFrom matchAt before skip (shown cells) := by
  induction cells generalizing before skip with
  | nil => cases skip <;> rfl
  | cons cell rest ih =>
    cases skip with
    | succ skip => exact ih _ _
    | zero =>
      rw [patchFrom, shown_cons, subFrom]
      cases matchAt before (cell.1 :: shown rest) with
      | none => exact congrArg (cell.1 :: ·) (ih _ _)
      | some found =>
        dsimp only
        rw [shown_append, shown_inked, ih, shown_length]

theorem patchFrom_none {before : Option Char} {cell : Cell} (h : matchAt before (cell.1 :: shown rest) = none) :
    patchFrom matchAt before 0 (cell :: rest) = cell :: patchFrom matchAt (some cell.1) 0 rest := by
  rw [patchFrom, h]

theorem patchFrom_skip (before : Option Char) (w rest : List Cell) :
    patchFrom matchAt before w.length (w ++ rest) = patchFrom matchAt (lastOr before (shown w)) 0 rest := by
  induction w generalizing before with
  | nil => rfl
  | cons cell w ih =>
    rw [List.length_cons, List.cons_append, patchFrom, ih, shown_cons, lastOr_cons]

theorem patchFrom_some {before : Option Char} {cell : Cell} {w : List Cell} {x : Str}
    (h : matchAt before (cell.1 :: shown (w ++ rest)) = some (x, shown rest)) :
    patchFrom matchAt before 0 (cell :: (w ++ rest)) = inked x ++ patchFrom matchAt (lastOr (some cell.1) (shown w)) 0 rest := by
  rw [patchFrom, h]
  dsimp only
  have hskip : (w ++ rest).length - (shown rest).length = w.length := by
    rw [List.length_append, shown_length]
    omega
  rw [hskip, patchFrom_skip]

theorem patchFrom_pass {before : Option Char} {w : List Cell}
    (h : ∀ s, s ≠ [] → s <:+ shown w → ∀ before, matchAt before (s ++ shown rest) = none) :
    patchFrom matchAt before 0 (w ++ rest) = w ++ patchFrom matchAt (lastOr before (shown w)) 0 rest := by
  induction w generalizing before with
  | nil => rfl
  | cons cell w ih =>
    have hhead := h (cell.1 :: shown w) (List.cons_ne_nil _ _) (List.suffix_refl _) before
    rw [List.cons_append, ← shown_append] at hhead
    rw [List.cons_append, patchFrom_none hhead, shown_cons, lastOr_cons,
      ih fun s hs hsuffix => h s hs (hsuffix.trans (List.suffix_cons _ _)), List.cons_append]

theorem infix_of_inked {s x : Str} {out : List Cell} (h : fresh s <:+: inked x ++ out) : fresh s <:+: out := by
  induction x with
  | nil => exact h
  | cons c x ih =>
    rcases List.infix_cons_iff.mp h with hbegins | hrest
    · cases s with
      | nil => exact List.nil_infix
      | cons d s => cases (List.cons_prefix_cons.mp hbegins).1
    · exact ih hrest

theorem prefix_of_patchFrom (hmarker : ∀ before text x after, matchAt before text = some (x, after) → x ≠ []) {s : Str}
    {before : Option Char} {skip : Nat} (h : fresh s <+: patchFrom matchAt before skip cells) :
    fresh s <+: cells.drop skip := by
  induction cells generalizing s before skip with
  | nil => cases skip <;> exact h
  | cons cell rest ih =>
    cases skip with
    | succ skip => exact ih h
    | zero =>
      rw [List.drop_zero]
      cases s with
      | nil => exact List.nil_prefix
      | cons c s =>
        rw [patchFrom] at h
        split at h
        · obtain ⟨rfl,hmore⟩ := List.cons_prefix_cons.mp h
          have hrest := ih hmore
          rw [List.drop_zero] at hrest
          exact List.cons_prefix_cons.mpr ⟨rfl, hrest⟩
        · next x after hmatch =>
          obtain ⟨d,x,rfl⟩ := List.exists_cons_of_ne_nil (hmarker _ _ _ _ hmatch)
          cases (List.cons_prefix_cons.mp h).1

theorem infix_of_patchFrom (hmarker : ∀ before text x after, matchAt before text = some (x, after) → x ≠ []) {s : Str}
    {before : Option Char} {skip : Nat} (h : fresh s <:+: patchFrom matchAt before skip cells) : fresh s <:+: cells := by
  induction cells generalizing before skip with
  | nil => cases skip <;> exact h
  | cons cell rest ih =>
    cases skip with
    | succ skip => exact (ih h).trans (List.suffix_cons _ _).isInfix
    | zero =>
      cases hmatch : matchAt before (cell.1 :: shown rest) with
      | none =>
        have hpass := patchFrom_none hmatch
        rw [hpass] at h
        rcases List.infix_cons_iff.mp h with hbegins | hrest
        · rw [← hpass] at hbegins
          exact (prefix_of_patchFrom hmarker hbegins).isInfix
        · exact (ih hrest).trans (List.suffix_cons _ _).isInfix
      | some found =>
        rw [patchFrom, hmatch] at h
        exact (ih (infix_of_inked h)).trans (List.suffix_cons _ _).isInfix

end Patch

section Whole

variable {markers : List Str} {u v cells : List Cell}

-- The markers in the text are whole ones.
inductive Whole (markers : List Str) : List Cell → Prop where
  | nil : Whole markers []
  | keep {cells : List Cell} (c : Char) (h : Whole markers cells) : Whole markers ((c, true) :: cells)
  | mark {cells : List Cell} {m : Str} (hm : m ∈ markers) (h : Whole markers cells) : Whole markers (inked m ++ cells)

def Cuts (markers : List Str) (u v : List Cell) : Prop :=
  ∃ m ∈ markers, ∃ m₁ m₂ u₀ v₀, m = m₁ ++ m₂ ∧ m₁ ≠ [] ∧ m₂ ≠ [] ∧ u = u₀ ++ inked m₁ ∧ v = inked m₂ ++ v₀

theorem whole_fresh (markers : List Str) (text : Str) : Whole markers (fresh text) := by
  induction text with
  | nil => exact .nil
  | cons c text ih => exact ih.keep c

theorem inked_eq_append {m : Str} (h : inked m = u ++ v) : ∃ m₁ m₂, m = m₁ ++ m₂ ∧ u = inked m₁ ∧ v = inked m₂ := by
  obtain ⟨m₁,m₂,hm,hu,hv⟩ := List.map_eq_append_iff.mp h
  exact ⟨m₁, m₂, hm, hu.symm, hv.symm⟩

theorem Whole.split (h : Whole markers (u ++ v)) : Whole markers u ∧ Whole markers v ∨ Cuts markers u v := by
  generalize hcells : u ++ v = cells at h
  induction h generalizing u with
  | nil =>
    obtain ⟨rfl,rfl⟩ := List.append_eq_nil_iff.mp hcells
    exact .inl ⟨.nil, .nil⟩
  | @keep cells c h ih =>
    cases u with
    | nil =>
      rw [List.nil_append] at hcells
      subst hcells
      exact .inl ⟨.nil, h.keep c⟩
    | cons cell u =>
      obtain ⟨rfl,hrest⟩ := List.cons.inj hcells
      rcases ih hrest with ⟨hu,hv⟩ | ⟨m,hm,m₁,m₂,u₀,v₀,hparts,hm₁,hm₂,rfl,hv⟩
      · exact .inl ⟨hu.keep c, hv⟩
      · exact .inr ⟨m, hm, m₁, m₂, (c, true) :: u₀, v₀, hparts, hm₁, hm₂, rfl, hv⟩
  | @mark cells m hm h ih =>
    rcases List.append_eq_append_iff.mp hcells with ⟨e,he,rfl⟩ | ⟨e,rfl,hrest⟩
    · obtain ⟨m₁,m₂,rfl,rfl,rfl⟩ := inked_eq_append he
      cases m₁ with
      | nil => exact .inl ⟨.nil, h.mark hm⟩
      | cons c m₁ =>
        cases m₂ with
        | nil =>
          rw [List.append_nil] at hm
          refine .inl ⟨?_, h⟩
          have hnil : Whole markers [] := .nil
          have hwhole := hnil.mark hm
          rwa [List.append_nil] at hwhole
        | cons d m₂ => exact .inr ⟨_, hm, _, _, [], cells, rfl, List.cons_ne_nil _ _, List.cons_ne_nil _ _, rfl, rfl⟩
    · rcases ih hrest.symm with ⟨hu,hv⟩ | ⟨m',hm',m₁,m₂,u₀,v₀,hparts,hm₁,hm₂,rfl,hv⟩
      · exact .inl ⟨hu.mark hm, hv⟩
      · exact .inr ⟨m', hm', m₁, m₂, inked m ++ u₀, v₀, hparts, hm₁, hm₂, (List.append_assoc _ _ _).symm, hv⟩

structure Respects (markers : List Str) (matchAt : Matcher Str) : Prop where
  first : ∀ m ∈ markers, ∀ s, s ≠ [] → s <:+ m → ∀ before rest, matchAt before (s ++ rest) = none
  last : ∀ m ∈ markers, ∀ m₁ m₂, m = m₁ ++ m₂ → m₁ ≠ [] → m₂ ≠ [] → ∀ before w rest x,
    matchAt before (w ++ (m₁ ++ (m₂ ++ rest))) ≠ some (x, m₂ ++ rest)

variable {matchAt : Matcher Str}

theorem Whole.patchFrom (hempty : [] ∉ markers) (hproper : Proper matchAt) (hrespects : Respects markers matchAt)
    (hmarker : ∀ before text x after, matchAt before text = some (x, after) → x ∈ markers) (h : Whole markers cells)
    (before : Option Char) : Whole markers (patchFrom matchAt before 0 cells) := by
  generalize hlength : cells.length = n
  induction n using Nat.strong_induction_on generalizing cells before with
  | _ n ih =>
    cases h with
    | nil => exact .nil
    | @keep rest c h =>
      rw [List.length_cons] at hlength
      cases hmatch : matchAt before (c :: shown rest) with
      | none =>
        rw [patchFrom_none hmatch]
        exact (ih rest.length (by omega) h _ rfl).keep c
      | some found =>
        obtain ⟨x,after⟩ := found
        obtain ⟨w,hw⟩ := hproper _ _ _ _ _ hmatch
        obtain ⟨cw,co,rfl,rfl,rfl⟩ := List.map_eq_append_iff.mp hw.symm
        rw [patchFrom_some hmatch]
        rw [List.length_append] at hlength
        rcases h.split with ⟨_,hco⟩ | ⟨m,hm,m₁,m₂,u₀,v₀,hparts,hm₁,hm₂,rfl,rfl⟩
        · exact (ih co.length (by omega) hco _ rfl).mark (hmarker _ _ _ _ hmatch)
        · refine absurd ?_ (hrespects.last m hm m₁ m₂ hparts hm₁ hm₂ before (c :: shown u₀) (shown v₀) x)
          rw [← shown, shown_append, shown_append, shown_append, shown_inked, shown_inked, List.append_assoc] at hmatch
          exact hmatch
    | @mark rest m hm h =>
      rw [List.length_append] at hlength
      rw [patchFrom_pass fun s hs hsuffix before => hrespects.first m hm s hs (by rwa [shown_inked] at hsuffix) before _]
      have hpos := List.length_pos_iff.mpr fun hnil : m = [] => hempty (hnil ▸ hm)
      refine (ih rest.length ?_ h _ rfl).mark hm
      rw [inked, List.length_map] at hlength
      omega

end Whole

section Bare

variable {markers : List Str} {opening closing : Char} {word : Char → Bool} {r : Re} {b a : Bool} {w : Str}

structure Bare (markers : List Str) (opening closing : Char) (r : Re) : Prop where
  width : 0 < r.width
  opening : r.spares opening = true
  closing : r.spares closing = true
  foreign : r.alien markers = true

theorem Bare.ne_nil (h : Bare markers opening closing r) (haccepts : r.Accepts word b w a) : w ≠ [] :=
  Re.ne_nil_of_accepts h.width haccepts

theorem Bare.opening_not_mem (h : Bare markers opening closing r) (haccepts : r.Accepts word b w a) : opening ∉ w :=
  Re.not_mem_of_spares h.opening haccepts

theorem Bare.closing_not_mem (h : Bare markers opening closing r) (haccepts : r.Accepts word b w a) : closing ∉ w :=
  Re.not_mem_of_spares h.closing haccepts

theorem Bare.not_infix (h : Bare markers opening closing r) (haccepts : r.Accepts word b w a) :
    ∀ m ∈ markers, ¬w <:+: m := Re.not_infix_of_alien h.foreign haccepts

end Bare

section Standing

variable {markers : List Str} {opening closing : Char} {word : Char → Bool} {cells u w o : List Cell}

def Bracketed (opening closing : Char) (m : Str) : Prop := ∃ inner, m = opening :: inner ++ [closing]

-- A stretch of the text that is left standing, as long as it goes.
def Stands (cells : List Cell) (s : Str) : Prop := ∃ p q, cells = p ++ (fresh s ++ q) ∧
  (∀ cell ∈ p.getLast?, cell.2 = false) ∧ ∀ cell ∈ q.head?, cell.2 = false

theorem opening_mem {m m₁ m₂ : Str} (hm : Bracketed opening closing m) (hparts : m = m₁ ++ m₂) (hne : m₁ ≠ []) :
    opening ∈ m₁ := by
  obtain ⟨inner,hinner⟩ := hm
  obtain ⟨c,m₁,rfl⟩ := List.exists_cons_of_ne_nil hne
  rw [hinner, List.cons_append, List.cons_append] at hparts
  exact (List.cons.inj hparts).1 ▸ List.mem_cons_self

theorem closing_mem {m m₁ m₂ : Str} (hm : Bracketed opening closing m) (hparts : m = m₁ ++ m₂) (hne : m₂ ≠ []) :
    closing ∈ m₂ := by
  obtain ⟨inner,hinner⟩ := hm
  rcases List.eq_nil_or_concat m₂ with rfl | ⟨m₂,c,rfl⟩
  · exact absurd rfl hne
  · rw [hinner, List.concat_eq_append, ← List.append_assoc] at hparts
    have hlast := (List.append_inj' hparts rfl).2
    rw [List.concat_eq_append, ← (List.cons.inj hlast).1]
    exact List.mem_append_right _ (List.mem_singleton_self _)

theorem fresh_of_flags (h : ∀ cell ∈ w, cell.2 = true) : fresh (shown w) = w := by
  rw [fresh, shown, List.map_map]
  refine (List.map_congr_left fun cell hcell => ?_).trans (List.map_id w)
  rw [Function.comp_apply, ← h cell hcell]
  rfl

theorem Whole.flags (hbracketed : ∀ m ∈ markers, Bracketed opening closing m) (h : Whole markers w)
    (hopening : opening ∉ shown w) : ∀ cell ∈ w, cell.2 = true := by
  induction h with
  | nil => simp
  | keep c _ ih => exact List.forall_mem_cons.mpr ⟨rfl, ih fun hmem => hopening (List.mem_cons_of_mem _ hmem)⟩
  | @mark cells m hm _ _ =>
    obtain ⟨inner,rfl⟩ := hbracketed m hm
    exact absurd (by simp) hopening

theorem Whole.part (hbracketed : ∀ m ∈ markers, Bracketed opening closing m) (h : Whole markers (u ++ (w ++ o)))
    (hopening : opening ∉ shown w) (hclosing : closing ∉ shown w) (hforeign : ∀ m ∈ markers, ¬shown w <:+: m) :
    ∀ cell ∈ w, cell.2 = true := by
  rcases h.split with ⟨_,hrest⟩ | ⟨m,hm,m₁,m₂,u₀,v₀,hparts,_,hm₂,_,hv⟩
  · rcases hrest.split with ⟨hw,_⟩ | ⟨m,hm,m₁,m₂,u₀,v₀,hparts,hm₁,_,rfl,_⟩
    · exact hw.flags hbracketed hopening
    · refine absurd ?_ hopening
      rw [shown_append, shown_inked]
      exact List.mem_append_right _ (opening_mem (hbracketed m hm) hparts hm₁)
  · rcases List.append_eq_append_iff.mp hv with ⟨e,he,_⟩ | ⟨e,rfl,_⟩
    · obtain ⟨n₁,n₂,rfl,rfl,_⟩ := inked_eq_append he
      rw [shown_inked] at hforeign
      exact absurd ⟨m₁, n₂, by rw [hparts, List.append_assoc]⟩ (hforeign m hm)
    · refine absurd ?_ hclosing
      rw [shown_append, shown_inked]
      exact List.mem_append_left _ (closing_mem (hbracketed m hm) hparts hm₂)

theorem Whole.last (hbracketed : ∀ m ∈ markers, Bracketed opening closing m) (h : Whole markers u) {cell : Cell}
    (hcell : u.getLast? = some cell) (hflag : cell.2 = false) : cell.1 = closing := by
  obtain ⟨front,rfl⟩ := List.getLast?_eq_some_iff.mp hcell
  have hempty : ¬Whole markers [cell] := by
    intro hone
    generalize hcells : [cell] = cells at hone
    cases hone with
    | nil => cases hcells
    | keep c _ =>
      cases hcells
      cases hflag
    | @mark cells m hm _ =>
      obtain ⟨inner,rfl⟩ := hbracketed m hm
      have hlength := congrArg List.length hcells
      simp [inked] at hlength
  rcases h.split with ⟨_,hlast⟩ | ⟨m,hm,m₁,m₂,u₀,v₀,hparts,_,hm₂,_,hv⟩
  · exact absurd hlast hempty
  · obtain ⟨c,m₂,rfl⟩ := List.exists_cons_of_ne_nil hm₂
    obtain ⟨rfl,htail⟩ := List.cons.inj hv
    obtain ⟨hm₂,_⟩ := List.append_eq_nil_iff.mp htail.symm
    have hclosing := closing_mem (hbracketed m hm) hparts (List.cons_ne_nil _ _)
    rw [List.map_eq_nil_iff.mp hm₂] at hclosing
    exact (List.mem_singleton.mp hclosing).symm

theorem Whole.head (hbracketed : ∀ m ∈ markers, Bracketed opening closing m) (h : Whole markers u) {cell : Cell}
    (hcell : u.head? = some cell) (hflag : cell.2 = false) : cell.1 = opening := by
  cases h with
  | nil => cases hcell
  | keep c _ =>
    cases hcell
    cases hflag
  | @mark cells m hm _ =>
    obtain ⟨inner,rfl⟩ := hbracketed m hm
    cases hcell
    rfl

theorem behind_marker (hbracketed : ∀ m ∈ markers, Bracketed opening closing m) (hword : word closing = false)
    {p : List Cell} (hp : Whole markers p) (hlast : ∀ cell ∈ p.getLast?, cell.2 = false) :
    Re.behind word false (shown p) = false := by
  rw [Re.behind, shown, List.getLast?_map]
  cases hcell : p.getLast? with
  | none => rfl
  | some cell =>
    rw [Option.map_some, Option.elim_some, hp.last hbracketed hcell (hlast cell hcell), hword]

theorem ahead_marker (hbracketed : ∀ m ∈ markers, Bracketed opening closing m) (hword : word opening = false)
    {q : List Cell} (hq : Whole markers q) (hhead : ∀ cell ∈ q.head?, cell.2 = false) :
    Re.ahead word false (shown q) = false := by
  rw [Re.ahead, shown, List.head?_map]
  cases hcell : q.head? with
  | none => rfl
  | some cell =>
    rw [Option.map_some, Option.elim_some, hq.head hbracketed hcell (hhead cell hcell), hword]

theorem Whole.around {p q : List Cell} {s : Str} (hs : s ≠ [])
    (h : Whole markers (p ++ (fresh s ++ q))) : Whole markers p ∧ Whole markers q := by
  have hflag : ∀ {v m₁ : Str} {a b c d : List Cell}, a ++ (fresh v ++ b) = c ++ (inked m₁ ++ d) →
      a.length = c.length → v ≠ [] → m₁ ≠ [] → False := by
    intro v m₁ a b c d heq hlength hv hm₁
    obtain ⟨x,v,rfl⟩ := List.exists_cons_of_ne_nil hv
    obtain ⟨y,m₁,rfl⟩ := List.exists_cons_of_ne_nil hm₁
    have hhead := (List.append_inj heq hlength).2
    cases (List.cons.inj hhead).1
  rcases h.split with ⟨hp,hrest⟩ | ⟨m,hm,m₁,m₂,u₀,v₀,hparts,_,hm₂,_,hv⟩
  · rcases hrest.split with ⟨_,hq⟩ | ⟨m,hm,m₁,m₂,u₀,v₀,hparts,hm₁,_,hu,_⟩
    · exact ⟨hp, hq⟩
    · exfalso
      obtain ⟨s,c,rfl⟩ := (List.eq_nil_or_concat s).resolve_left hs
      obtain ⟨m₁,d,rfl⟩ := (List.eq_nil_or_concat m₁).resolve_left hm₁
      rw [fresh, inked, List.concat_eq_append, List.concat_eq_append, List.map_append, List.map_append,
        ← List.append_assoc] at hu
      cases (List.cons.inj (List.append_inj' hu rfl).2).1
  · exact (@hflag s m₂ [] q [] v₀ hv rfl hs hm₂).elim

variable {r : Re}

theorem exists_back (o : List Cell) : ∃ b q, o = fresh b ++ q ∧ ∀ cell ∈ q.head?, cell.2 = false := by
  induction o with
  | nil => exact ⟨[], [], rfl, fun _ hcell => by cases hcell⟩
  | cons cell o ih =>
    obtain ⟨c,flag⟩ := cell
    cases flag with
    | false => exact ⟨[], (c, false) :: o, rfl, fun _ hcell => by cases hcell; rfl⟩
    | true =>
      obtain ⟨b,q,rfl,hq⟩ := ih
      exact ⟨c :: b, q, rfl, hq⟩

theorem exists_front (u : List Cell) : ∃ p a, u = p ++ fresh a ∧ ∀ cell ∈ p.getLast?, cell.2 = false := by
  induction u using List.reverseRecOn with
  | nil => exact ⟨[], [], rfl, fun _ hcell => by cases hcell⟩
  | append_singleton u cell ih =>
    obtain ⟨c,flag⟩ := cell
    cases flag with
    | false =>
      refine ⟨u ++ [(c, false)], [], (List.append_nil _).symm, fun cell hcell => ?_⟩
      rw [List.getLast?_concat] at hcell
      cases hcell
      rfl
    | true =>
      obtain ⟨p,a,rfl,hp⟩ := ih
      exact ⟨p, a ++ [c], by simp [fresh], hp⟩

theorem occurs_iff_stands (hbracketed : ∀ m ∈ markers, Bracketed opening closing m) (hopening : word opening = false)
    (hclosing : word closing = false) (hbare : Bare markers opening closing r) (h : Whole markers cells) :
    r.Occurs word (shown cells) ↔ ∃ s, Stands cells s ∧ r.Occurs word s := by
  constructor
  · rintro ⟨u,w,o,hcells,haccepts⟩
    obtain ⟨u,rest,rfl,rfl,hrest⟩ := List.map_eq_append_iff.mp hcells
    obtain ⟨w,o,rfl,rfl,rfl⟩ := List.map_eq_append_iff.mp hrest
    have hflags := h.part hbracketed (hbare.opening_not_mem haccepts) (hbare.closing_not_mem haccepts)
      (hbare.not_infix haccepts)
    obtain ⟨p,a,rfl,hlast⟩ := exists_front u
    obtain ⟨b,q,rfl,hhead⟩ := exists_back o
    have hstretch : p ++ fresh a ++ (w ++ (fresh b ++ q)) = p ++ (fresh (a ++ (shown w ++ b)) ++ q) := by
      conv_lhs => rw [← fresh_of_flags hflags]
      simp [fresh]
    have hs : a ++ (shown w ++ b) ≠ [] := by
      intro hnil
      exact hbare.ne_nil haccepts (List.append_eq_nil_iff.mp (List.append_eq_nil_iff.mp hnil).2).1
    rw [hstretch] at h
    obtain ⟨hp,hq⟩ := h.around hs
    refine ⟨_, ⟨p, q, hstretch, hlast, hhead⟩, a, shown w, b, rfl, ?_⟩
    have hbefore := behind_marker hbracketed hclosing hp hlast
    have hafter := ahead_marker hbracketed hopening hq hhead
    have haccepts : r.Accepts word (Re.behind word false (shown (p ++ fresh a))) (shown w)
        (Re.ahead word false (shown (fresh b ++ q))) := haccepts
    rwa [shown_append, shown_fresh, shown_append, shown_fresh, Re.behind_append, hbefore, Re.ahead_append, hafter]
      at haccepts
  · rintro ⟨s,⟨p,q,rfl,hlast,hhead⟩,u,w,o,rfl,haccepts⟩
    have hs : u ++ (w ++ o) ≠ [] := by
      intro hnil
      exact hbare.ne_nil haccepts (List.append_eq_nil_iff.mp (List.append_eq_nil_iff.mp hnil).2).1
    obtain ⟨hp,hq⟩ := h.around hs
    refine ⟨shown p ++ u, w, o ++ shown q, by simp, ?_⟩
    rw [Re.behind_append, behind_marker hbracketed hclosing hp hlast, Re.ahead_append,
      ahead_marker hbracketed hopening hq hhead]
    exact haccepts

end Standing

section Shapes

variable {markers : List Str} {opening closing : Char} {solid : Char → Bool} {word : Char → Bool} {r s : Re}

-- A bare pattern, one with a run of solid characters behind it, or two with anything between them.
inductive Shape (markers : List Str) (opening closing : Char) (solid : Char → Bool) : Re → Prop where
  | bare {r : Re} (h : Bare markers opening closing r) : Shape markers opening closing solid r
  | tailed {core : Re} (h : Bare markers opening closing core) :
      Shape markers opening closing solid (.seq core (.run solid 1 none))
  | framed {front back : Re} (hfront : Bare markers opening closing front) (hback : Bare markers opening closing back) :
      Shape markers opening closing solid (.seq front (.seq .anything back))

theorem Shape.width (h : Shape markers opening closing solid r) : 0 < r.width := by
  cases h with
  | bare h => exact h.width
  | tailed h => exact Nat.add_pos_left h.width _
  | framed hfront _ => exact Nat.add_pos_left hfront.width _

theorem Shape.begins (h : Shape markers opening closing solid r) {b a : Bool} {w : Str} (haccepts : r.Accepts word b w a) :
    ∃ u v, w = u ++ v ∧ u ≠ [] ∧ closing ∉ u ∧ ∀ m ∈ markers, ¬u <:+: m := by
  cases h with
  | bare h => exact ⟨w, [], (List.append_nil w).symm, h.ne_nil haccepts, h.closing_not_mem haccepts, h.not_infix haccepts⟩
  | tailed h =>
    obtain ⟨u,v,rfl,hu,_⟩ := haccepts
    exact ⟨u, v, rfl, h.ne_nil hu, h.closing_not_mem hu, h.not_infix hu⟩
  | framed hfront _ =>
    obtain ⟨u,v,rfl,hu,_⟩ := haccepts
    exact ⟨u, v, rfl, hfront.ne_nil hu, hfront.closing_not_mem hu, hfront.not_infix hu⟩

theorem not_inside_marker (hbracketed : ∀ m ∈ markers, Bracketed opening closing m) {m m₁ s u rest : Str}
    (hm : m ∈ markers) (hsuffix : m = m₁ ++ s) (hne : s ≠ []) (hclosing : closing ∉ u) (hforeign : ¬u <:+: m) :
    ¬u <+: s ++ rest := by
  intro hbegins
  rcases List.prefix_or_prefix_of_prefix hbegins (List.prefix_append s rest) with hinside | hover
  · exact hforeign (hinside.isInfix.trans ⟨m₁, [], by rw [hsuffix, List.append_nil]⟩)
  · exact hclosing (hover.subset (closing_mem (hbracketed m hm) hsuffix hne))

variable {new : Str}

theorem runWays_head {p : Char → Bool} {least : Nat} {before : Bool} {t : Str} {place : Re.Place}
    (h : (Re.runWays word p least none before t).head? = some place) : ∀ c, place.2.head? = some c → p c = false := by
  have hstop : ∀ {least : Nat} {before : Bool} {t : Str},
      (if least = 0 then [(before, t)] else []).head? = some place → least = 0 ∧ place = (before, t) := by
    intro least before t hhead
    split at hhead
    · next hleast => exact ⟨hleast, (Option.some.inj hhead).symm⟩
    · cases hhead
  induction t generalizing least before with
  | nil =>
    rw [Re.runWays] at h
    rw [(hstop h).2]
    exact fun _ hc => by cases hc
  | cons c rest ih =>
    rw [Re.runWays, List.head?_append] at h
    cases hc : p c with
    | true =>
      rw [hc, Option.all_none, Bool.and_true, if_pos rfl] at h
      cases hmore : (Re.runWays word p (least - 1) none (word c) rest).head? with
      | some other =>
        rw [Option.map_none, hmore, Option.some_or] at h
        exact ih (hmore.trans h)
      | none =>
        rw [Option.map_none, hmore, Option.none_or] at h
        obtain ⟨rfl,_⟩ := hstop h
        have hempty : (word c, rest) ∈ Re.runWays word p (0 - 1) none (word c) rest :=
          Re.mem_runWays.mpr ⟨[], rfl, rfl, by simp, Nat.le_refl 0, by simp⟩
        rw [List.head?_eq_none_iff.mp hmore] at hempty
        cases hempty
    | false =>
      rw [hc, Bool.false_and, if_neg Bool.false_ne_true, List.head?_nil, Option.none_or] at h
      rw [(hstop h).2]
      exact fun d hd => by cases hd; exact hc

theorem tailed_last {p : Char → Bool} {before : Option Char} {t x o : Str}
    (h : (Re.seq s (.run p 1 none)).replacing word new before t = some (x, o)) :
    ∀ c, o.head? = some c → p c = false := by
  obtain ⟨place,hhead,heq⟩ := Option.map_eq_some_iff.mp h
  obtain ⟨_,rfl⟩ := Prod.mk.inj heq
  rw [Re.ways, List.head?_flatMap] at hhead
  obtain ⟨middle,_,hlast⟩ := List.exists_of_findSome?_eq_some hhead
  exact runWays_head hlast

theorem Shape.respects (hbracketed : ∀ m ∈ markers, Bracketed opening closing m)
    (hsolid : ∀ m ∈ markers, ∀ c ∈ m, solid c = true) (h : Shape markers opening closing solid r) :
    Respects markers (r.replacing word new) where
  first := by
    intro m hm s hne hsuffix before rest
    obtain ⟨m₁,hparts⟩ := hsuffix
    refine Re.replacing_eq_none_iff.mpr fun w o heq haccepts => ?_
    obtain ⟨u,v,rfl,_,hclosing,hforeign⟩ := h.begins haccepts
    have hbegins : u <+: s ++ rest := ⟨v ++ o, by rw [heq, List.append_assoc]⟩
    exact not_inside_marker hbracketed hm hparts.symm hne hclosing (hforeign m hm) hbegins
  last := by
    intro m hm m₁ m₂ hparts hm₁ hm₂ before w rest x hmatch
    have hopening := opening_mem (hbracketed m hm) hparts hm₁
    obtain ⟨_,v,hv,haccepts⟩ := Re.replacing_eq_some hmatch
    have hw : w ++ m₁ = v := by
      rw [← List.append_assoc] at hv
      exact List.append_cancel_right hv
    subst hw
    cases h with
    | bare h => exact h.opening_not_mem haccepts (List.mem_append_right _ hopening)
    | tailed h =>
      obtain ⟨c,m₂,rfl⟩ := List.exists_cons_of_ne_nil hm₂
      have hstop := tailed_last hmatch c rfl
      rw [hsolid m hm c (hparts ▸ List.mem_append_right _ List.mem_cons_self)] at hstop
      cases hstop
    | framed _ hback =>
      obtain ⟨u,rest,huv,_,x,f,rfl,_,hf⟩ := haccepts
      rw [← List.append_assoc] at huv
      rcases List.append_eq_append_iff.mp huv with ⟨e,_,he⟩ | ⟨e,_,he⟩
      · exact hback.not_infix hf m hm ⟨e, m₂, by rw [hparts, he]⟩
      · exact hback.opening_not_mem hf (he ▸ List.mem_append_right _ hopening)

end Shapes

section Lasting

variable {opening closing : Char} {solid : Char → Bool} {word : Char → Bool} {m text out w o : Str} {before : Option Char}
  {matchAt : Matcher Str}

-- Every match begins with a solid character and gives way to the marker.
structure Puts (matchAt : Matcher Str) (m : Str) (solid : Char → Bool) : Prop where
  marker : ∀ before text x after, matchAt before text = some (x, after) → x = m
  start : ∀ before c rest found, matchAt before (c :: rest) = some found → solid c = true

theorem puts_replacing {r : Re} (hwidth : 0 < r.width)
    (hstarts : ∀ c, solid c = false → r.shuns c = true) (m : Str) :
    Puts (r.replacing word m) m solid where
  marker before text x after h := (Re.replacing_eq_some h).1
  start before c rest found h := by
    obtain ⟨x,after⟩ := found
    obtain ⟨_,w,hw,haccepts⟩ := Re.replacing_eq_some h
    obtain ⟨d,w,rfl⟩ := List.exists_cons_of_ne_nil (Re.ne_nil_of_accepts hwidth haccepts)
    obtain ⟨rfl,_⟩ := List.cons.inj hw
    by_contra hc
    exact Re.not_accepts_of_shuns (hstarts _ (Bool.eq_false_iff.mpr hc)) haccepts

-- What stands in front of a place in the new text and in the old one: nothing, a character that was
-- passed over, or the marker and the match it was put in for.
inductive Beside (matchAt : Matcher Str) (m r : Str) (before : Option Char) : Str → Str → Prop where
  | start : Beside matchAt m r before [] []
  | kept (u v : Str) (c : Char) : Beside matchAt m r before (u ++ [c]) (v ++ [c])
  | marked (u : Str) {v w : Str} (hmatch : matchAt (lastOr before v) (w ++ r) = some (m, r)) :
      Beside matchAt m r before (u ++ m) (v ++ w)

theorem Beside.cons {c : Char} {r u v : Str} (h : Beside matchAt m r (some c) u v) :
    Beside matchAt m r before (c :: u) (c :: v) := by
  cases h with
  | start => exact .kept [] [] c
  | kept u v d => exact .kept (c :: u) (c :: v) d
  | @marked u v w hmatch =>
    rw [← lastOr_cons before] at hmatch
    exact .marked (c :: u) hmatch

theorem Beside.exchange {x r u v : Str} (hmatch : matchAt before (x ++ (v ++ r)) = some (m, v ++ r))
    (h : Beside matchAt m r (lastOr before x) u v) : Beside matchAt m r before (m ++ u) (x ++ v) := by
  cases h with
  | start =>
    rw [List.append_nil, List.append_nil]
    exact .marked (v := []) (w := x) [] hmatch
  | kept u v d =>
    rw [← List.append_assoc, ← List.append_assoc]
    exact .kept _ _ d
  | @marked u v w hlast =>
    rw [← lastOr_append] at hlast
    rw [← List.append_assoc, ← List.append_assoc]
    exact .marked _ hlast

theorem substituted_split (hputs : Puts matchAt m solid) (h : Substituted matchAt before text out) {u : Str}
    (hout : out = u ++ o) :
    (∃ v r, text = v ++ r ∧ Beside matchAt m r before u v ∧ Substituted matchAt (lastOr before v) r o) ∨
      ∃ m₁ m₂ e, m = m₁ ++ m₂ ∧ m₂ ≠ [] ∧ o = m₂ ++ e := by
  induction h generalizing u with
  | nil before =>
    obtain ⟨rfl,rfl⟩ := List.append_eq_nil_iff.mp hout.symm
    exact .inl ⟨[], [], rfl, .start, .nil before⟩
  | @pass before c rest out hnone hrest ih =>
    cases u with
    | nil =>
      rw [List.nil_append] at hout
      subst hout
      exact .inl ⟨[], c :: rest, rfl, .start, .pass hnone hrest⟩
    | cons d u =>
      obtain ⟨rfl,hmore⟩ := List.cons.inj hout
      rcases ih hmore with ⟨v,r,rfl,hbeside,hr⟩ | hcut
      · refine .inl ⟨c :: v, r, rfl, hbeside.cons, ?_⟩
        rwa [lastOr_cons]
      · exact .inr hcut
  | @exchange before c w x after out hmatch hrest ih =>
    obtain rfl := hputs.marker _ _ _ _ hmatch
    rcases List.append_eq_append_iff.mp hout with ⟨e,rfl,hmore⟩ | ⟨e,hx,rfl⟩
    · rcases ih hmore with ⟨v,r,rfl,hbeside,hr⟩ | hcut
      · rw [← lastOr_cons before] at hbeside
        refine .inl ⟨c :: (w ++ v), r, by simp, hbeside.exchange hmatch, ?_⟩
        rwa [lastOr_cons, lastOr_append]
      · exact .inr hcut
    · cases e with
      | nil =>
        rw [List.append_nil] at hx
        subst hx
        exact .inl ⟨c :: w, after, rfl, .marked (v := []) (w := c :: w) [] hmatch, by rwa [lastOr_cons]⟩
      | cons d e => exact .inr ⟨u, d :: e, out, hx, List.cons_ne_nil _ _, rfl⟩

theorem substituted_kept (hputs : Puts matchAt m solid) (hm : Bracketed opening closing m)
    (h : Substituted matchAt before text (w ++ o)) (hopening : opening ∉ w) :
    ∃ r, text = w ++ r ∧ Substituted matchAt (lastOr before w) r o ∧ (w ≠ [] → matchAt before text = none) := by
  induction w generalizing before text with
  | nil => exact ⟨text, rfl, h, fun hne => absurd rfl hne⟩
  | cons c w ih =>
    generalize hout : c :: w ++ o = out at h
    cases h with
    | nil => cases hout
    | pass hnone hrest =>
      obtain ⟨rfl,rfl⟩ := List.cons.inj hout
      obtain ⟨r,rfl,hr,_⟩ := ih hrest fun hmem => hopening (List.mem_cons_of_mem _ hmem)
      refine ⟨r, rfl, ?_, fun _ => hnone⟩
      rwa [lastOr_cons]
    | exchange hmatch _ =>
      obtain ⟨inner,hinner⟩ := hm
      rw [hputs.marker _ _ _ _ hmatch, hinner] at hout
      exact absurd ((List.cons.inj hout).1 ▸ List.mem_cons_self) hopening

theorem substituted_start (hputs : Puts matchAt m solid) {c : Char} (h : Substituted matchAt before text (c :: o))
    (hc : solid c = true) : ∃ d r, text = d :: r ∧ solid d = true := by
  generalize hout : c :: o = out at h
  cases h with
  | nil => cases hout
  | pass _ _ =>
    obtain ⟨rfl,_⟩ := List.cons.inj hout
    exact ⟨c, _, rfl, hc⟩
  | exchange hmatch _ => exact ⟨_, _, rfl, hputs.start _ _ _ _ hmatch⟩

variable {markers : List Str} {r : Re}

theorem bare_kept {core : Re} (hputs : Puts matchAt m solid) (hm : m ∈ markers)
    (hbracketed : ∀ m ∈ markers, Bracketed opening closing m) (hcore : Bare markers opening closing core)
    {u : Str} {b a : Bool} (hw : core.Accepts word b w a) (h : Substituted matchAt before text (u ++ (w ++ o))) :
    ∃ v r, text = v ++ (w ++ r) ∧ Beside matchAt m (w ++ r) before u v ∧
      matchAt (lastOr before v) (w ++ r) = none ∧ Substituted matchAt (lastOr (lastOr before v) w) r o := by
  rcases substituted_split hputs h rfl with ⟨v,rest,rfl,hbeside,hrest⟩ | ⟨m₁,m₂,e,hparts,hm₂,heq⟩
  · obtain ⟨r,rfl,hr,hnone⟩ := substituted_kept hputs (hbracketed m hm) hrest (hcore.opening_not_mem hw)
    exact ⟨v, r, rfl, hbeside, hnone (hcore.ne_nil hw), hr⟩
  · refine absurd ⟨o, heq⟩ (not_inside_marker hbracketed hm hparts hm₂ (hcore.closing_not_mem hw) (hcore.not_infix hw m hm))

theorem Shape.lasts (hbracketed : ∀ m ∈ markers, Bracketed opening closing m)
    (h : Shape markers opening closing solid r) (hplain : r.plain = true) (hputs : Puts matchAt m solid) (hm : m ∈ markers)
    (hsub : Substituted matchAt none text out) (hoccurs : r.Occurs word out) :
    ∃ u w o, text = u ++ (w ++ o) ∧ (∀ b a, r.Accepts word b w a) ∧ matchAt (lastOr none u) (w ++ o) = none := by
  obtain ⟨u,w,o,rfl,haccepts⟩ := hoccurs
  cases h with
  | bare h =>
    obtain ⟨v,r,rfl,_,hnone,_⟩ := bare_kept hputs hm hbracketed h haccepts hsub
    exact ⟨v, w, r, rfl, fun _ _ => Re.accepts_plain hplain haccepts, hnone⟩
  | @tailed core h =>
    obtain ⟨x,y,rfl,hx,hy⟩ := haccepts
    rw [List.append_assoc] at hsub
    obtain ⟨v,rest,rfl,_,hnone,hrest⟩ := bare_kept hputs hm hbracketed h hx hsub
    obtain ⟨c,y,rfl⟩ := List.exists_cons_of_ne_nil (List.length_pos_iff.mp (hy.2.1))
    obtain ⟨d,rest,rfl,hd⟩ := substituted_start hputs hrest (hy.1 c List.mem_cons_self)
    refine ⟨v, x ++ [d], rest, by simp, fun b a => ?_, by simpa using hnone⟩
    have hplain : core.plain = true := (Bool.and_eq_true_iff.mp hplain).1
    exact ⟨x, [d], rfl, Re.accepts_plain hplain hx, by simpa using hd, Nat.le_refl 1, fun _ hn => by cases hn⟩
  | @framed front back hfront hback =>
    obtain ⟨x,_,rfl,hx,y,z,rfl,_,hz⟩ := haccepts
    rw [List.append_assoc] at hsub
    obtain ⟨v,rest,rfl,_,hnone,hrest⟩ := bare_kept hputs hm hbracketed hfront hx hsub
    rw [List.append_assoc] at hrest
    obtain ⟨y',rest,rfl,_⟩ := bare_kept hputs hm hbracketed hback hz hrest
    obtain ⟨hplain,hplain'⟩ := Bool.and_eq_true_iff.mp hplain
    replace hplain' := (Bool.and_eq_true_iff.mp hplain').2
    refine ⟨v, x ++ (y' ++ z), rest, by simp, fun b a => ?_, by simpa using hnone⟩
    exact ⟨x, y' ++ z, rfl, Re.accepts_plain hplain hx, y', z, rfl, trivial, Re.accepts_plain hplain' hz⟩

theorem Shape.lasts_not (hbracketed : ∀ m ∈ markers, Bracketed opening closing m)
    (h : Shape markers opening closing solid r) (hplain : r.plain = true) (hputs : Puts matchAt m solid) (hm : m ∈ markers)
    (hsub : Substituted matchAt none text out) (hnot : ¬r.Occurs word text) : ¬r.Occurs word out := by
  intro hoccurs
  obtain ⟨u,w,o,rfl,haccepts,_⟩ := h.lasts hbracketed hplain hputs hm hsub hoccurs
  exact hnot ⟨u, w, o, rfl, haccepts _ _⟩

theorem Shape.done (hbracketed : ∀ m ∈ markers, Bracketed opening closing m)
    (h : Shape markers opening closing solid r) (hplain : r.plain = true)
    (hstarts : ∀ c, solid c = false → r.shuns c = true) (hm : m ∈ markers) (text : Str) : ¬r.Occurs word (sub (r.replacing word m) text) := by
  intro hoccurs
  obtain ⟨u,w,o,rfl,haccepts,hnone⟩ := h.lasts hbracketed hplain (puts_replacing h.width hstarts m) hm
    (substituted_sub (Re.proper_replacing h.width) text) hoccurs
  exact Re.replacing_eq_none_iff.mp hnone w o rfl (haccepts _ _)

-- A pattern that asks for a word boundary at both ends.
structure Bounded (r : Re) : Prop where
  opens : r.opens = true
  closes : r.closes = true

theorem any_lastOr (w : Str) : (lastOr before w).any word = Re.behind word (before.any word) w := by
  rw [lastOr, Re.behind]
  cases w.getLast? <;> rfl

theorem behind_of_ne {b b' : Bool} (hw : w ≠ []) : Re.behind word b w = Re.behind word b' w := by
  rw [Re.behind, Re.behind, List.getLast?_eq_some_getLast hw, Option.elim_some, Option.elim_some]

variable {s : Re}

theorem Bounded.behind_eq (h : Bounded s) {r u v : Str} (hm : Bracketed opening closing m) (hclosing : word closing = false)
    (hbeside : Beside (s.replacing word m) m r before u v)
    (hne : Re.behind word (before.any word) u ≠ Re.ahead word false r) :
    Re.behind word (before.any word) u = Re.behind word (before.any word) v := by
  cases hbeside with
  | start => rfl
  | kept u v c => rw [Re.behind_append, Re.behind_append, Re.behind_cons, Re.behind_cons]
  | @marked u v w hmatch =>
    obtain ⟨inner,rfl⟩ := hm
    have hmarker : Re.behind word (before.any word) (u ++ (opening :: inner ++ [closing])) = false := by
      rw [Re.behind_append, Re.behind_append, Re.behind_cons, Re.behind_nil, hclosing]
    obtain ⟨_,w',hw,haccepts⟩ := Re.replacing_eq_some hmatch
    obtain rfl := List.append_cancel_right hw
    have hlast := Re.ne_of_closes h.closes haccepts
    rw [any_lastOr, ← Re.behind_append] at hlast
    rw [hmarker] at hne ⊢
    rw [Bool.eq_not_of_ne hne.symm, Bool.not_false] at hlast
    exact (Bool.eq_false_iff.mpr hlast).symm

theorem Bounded.ahead_eq (h : Bounded s) {r o : Str} (hm : Bracketed opening closing m) (hopening : word opening = false)
    (hsub : Substituted (s.replacing word m) before r o) (hne : before.any word ≠ Re.ahead word false o) :
    Re.ahead word false o = Re.ahead word false r := by
  cases hsub with
  | nil => rfl
  | pass _ _ => rfl
  | @exchange _ c w x after out hmatch _ =>
    obtain ⟨rfl,w',hw,haccepts⟩ := Re.replacing_eq_some hmatch
    obtain ⟨inner,rfl⟩ := hm
    have hfirst := Re.ne_of_opens h.opens haccepts
    rw [List.cons_append, List.cons_append, Re.ahead_cons, hopening] at hne ⊢
    rw [← Re.ahead_append, ← hw, Re.ahead_cons, Bool.eq_not_of_ne hne, Bool.not_false] at hfirst
    exact (Bool.eq_false_iff.mpr hfirst.symm).symm

theorem Bounded.lasts (hbracketed : ∀ m ∈ markers, Bracketed opening closing m) (hopening : word opening = false)
    (hclosing : word closing = false) (hbare : Bare markers opening closing r) (hr : Bounded r) (hs : Bounded s)
    (hputs : Puts (s.replacing word m) m solid) (hm : m ∈ markers) (hsub : Substituted (s.replacing word m) none text out)
    (hoccurs : r.Occurs word out) : ∃ u w o, text = u ++ (w ++ o) ∧
      r.Accepts word (Re.behind word false u) w (Re.ahead word false o) ∧ s.replacing word m (lastOr none u) (w ++ o) = none := by
  obtain ⟨u,w,o,rfl,haccepts⟩ := hoccurs
  obtain ⟨v,rest,rfl,hbeside,hnone,hrest⟩ := bare_kept hputs hm hbracketed hbare haccepts hsub
  refine ⟨v, w, rest, rfl, ?_, hnone⟩
  obtain ⟨c,w,rfl⟩ := List.exists_cons_of_ne_nil (hbare.ne_nil haccepts)
  have hfront : Re.behind word false u = Re.behind word false v := by
    refine hs.behind_eq (hbracketed m hm) hclosing hbeside ?_
    rw [List.cons_append, Re.ahead_cons]
    exact Re.ne_of_opens hr.opens haccepts
  have hback : Re.ahead word false o = Re.ahead word false rest := by
    refine hs.ahead_eq (hbracketed m hm) hopening hrest ?_
    rw [any_lastOr, behind_of_ne (List.cons_ne_nil c w)]
    exact Re.ne_of_closes hr.closes haccepts
  rwa [hfront, hback] at haccepts

theorem Bounded.lasts_not (hbracketed : ∀ m ∈ markers, Bracketed opening closing m) (hopening : word opening = false)
    (hclosing : word closing = false) (hbare : Bare markers opening closing r) (hr : Bounded r) (hs : Bounded s)
    (hputs : Puts (s.replacing word m) m solid) (hm : m ∈ markers) (hsub : Substituted (s.replacing word m) none text out)
    (hnot : ¬r.Occurs word text) : ¬r.Occurs word out := by
  intro hoccurs
  obtain ⟨u,w,o,rfl,haccepts,_⟩ := hr.lasts hbracketed hopening hclosing hbare hs hputs hm hsub hoccurs
  exact hnot ⟨u, w, o, rfl, haccepts⟩

theorem Bounded.done (hbracketed : ∀ m ∈ markers, Bracketed opening closing m) (hopening : word opening = false)
    (hclosing : word closing = false) (hbare : Bare markers opening closing r) (hr : Bounded r)
    (hputs : Puts (r.replacing word m) m solid) (hm : m ∈ markers) (text : Str) :
    ¬r.Occurs word (sub (r.replacing word m) text) := by
  intro hoccurs
  obtain ⟨u,w,o,rfl,haccepts,hnone⟩ := hr.lasts hbracketed hopening hclosing hbare hr hputs hm
    (substituted_sub (Re.proper_replacing hbare.width) text) hoccurs
  refine Re.replacing_eq_none_iff.mp hnone w o rfl ?_
  rw [any_lastOr]
  exact haccepts

end Lasting

end PicoSentry.Foundation.Redaction
