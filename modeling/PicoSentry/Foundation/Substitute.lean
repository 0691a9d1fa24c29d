import Mathlib.Data.List.Chain
import PicoSentry.Foundation.FindAll

namespace PicoSentry.Foundation

section Sub

-- re.sub from left to right. The pattern captures what stands in for its match; the other
-- arguments are those of findAll.
def subFrom (matchAt : Matcher Str) : Option Char → Nat → Str → Str
  | _, _, [] => []
  | _, skip + 1, c :: rest => subFrom matchAt (some c) skip rest
  | before, 0, c :: rest =>
    match matchAt before (c :: rest) with
    | none => c :: subFrom matchAt (some c) 0 rest
    | some (x, after) => x ++ subFrom matchAt (some c) (rest.length - after.length) rest

def sub (matchAt : Matcher Str) (text : Str) : Str := subFrom matchAt none 0 text

-- str.replace of a text that is not empty.
def replacing (old new : Str) : Matcher Str := fun _ text => (literal old text).map fun rest => (new, rest)

def replaceStr (old new text : Str) : Str := sub (replacing old new) text

end Sub

section Proper

variable {α : Type}

def Proper (matchAt : Matcher α) : Prop :=
  ∀ before c rest x after, matchAt before (c :: rest) = some (x, after) → after <:+ rest

def lastOr (before : Option Char) (w : Str) : Option Char := w.getLast?.or before

@[simp] theorem lastOr_nil (before : Option Char) : lastOr before [] = before := rfl

theorem lastOr_cons (before : Option Char) (c : Char) (w : Str) : lastOr before (c :: w) = lastOr (some c) w := by
  cases w with
  | nil => rfl
  | cons d w =>
    rw [lastOr, lastOr, List.getLast?_cons_cons, List.getLast?_cons, Option.some_or, Option.some_or]

theorem lastOr_append (before : Option Char) (u v : Str) : lastOr before (u ++ v) = lastOr (lastOr before u) v := by
  induction u generalizing before with
  | nil => rfl
  | cons c u ih => rw [List.cons_append, lastOr_cons, lastOr_cons, ih]

theorem proper_replacing {old : Str} (h : old ≠ []) (new : Str) : Proper (replacing old new) := by
  intro _ c rest x after hmatch
  obtain ⟨tail,htail,heq⟩ := Option.map_eq_some_iff.mp hmatch
  obtain ⟨rfl,rfl⟩ := Prod.mk.inj heq
  rw [literal] at htail
  split at htail
  · cases htail
    cases old with
    | nil => exact absurd rfl h
    | cons d old =>
      rw [List.length_cons, List.drop_succ_cons]
      exact List.drop_suffix _ _
  · cases htail

end Proper

section Substituted

-- The steps of a substitution: a character stays or a match is exchanged.
inductive Substituted (matchAt : Matcher Str) : Option Char → Str → Str → Prop where
  | nil (before : Option Char) : Substituted matchAt before [] []
  | pass {before : Option Char} {c : Char} {rest out : Str} (hnone : matchAt before (c :: rest) = none)
      (hrest : Substituted matchAt (some c) rest out) : Substituted matchAt before (c :: rest) (c :: out)
  | exchange {before : Option Char} {c : Char} {w x after out : Str}
      (hmatch : matchAt before (c :: (w ++ after)) = some (x, after))
      (hrest : Substituted matchAt (lastOr (some c) w) after out) :
      Substituted matchAt before (c :: (w ++ after)) (x ++ out)

variable {matchAt : Matcher Str}

theorem subFrom_skip (before : Option Char) (w after : Str) :
    subFrom matchAt before w.length (w ++ after) = subFrom matchAt (lastOr before w) 0 after := by
  induction w generalizing before with
  | nil => rfl
  | cons c w ih =>
    rw [List.length_cons, List.cons_append, subFrom, ih, lastOr_cons]

theorem subFrom_none {before : Option Char} {c : Char} {rest : Str} (h : matchAt before (c :: rest) = none) :
    subFrom matchAt before 0 (c :: rest) = c :: subFrom matchAt (some c) 0 rest := by
  rw [subFrom, h]

theorem subFrom_some {before : Option Char} {c : Char} {w x after : Str}
    (h : matchAt before (c :: (w ++ after)) = some (x, after)) :
    subFrom matchAt before 0 (c :: (w ++ after)) = x ++ subFrom matchAt (lastOr (some c) w) 0 after := by
  rw [subFrom, h]
  dsimp only
  have hskip : (w ++ after).length - after.length = w.length := by
    rw [List.length_append]
    omega
  rw [hskip, subFrom_skip]

theorem substituted_subFrom (hproper : Proper matchAt) (before : Option Char) (text : Str) :
    Substituted matchAt before text (subFrom matchAt before 0 text) := by
  generalize hlength : text.length = n
  induction n using Nat.strong_induction_on generalizing before text with
  | _ n ih =>
    cases text with
    | nil => exact .nil before
    | cons c rest =>
      rw [List.length_cons] at hlength
      cases hmatch : matchAt before (c :: rest) with
      | none =>
        rw [subFrom_none hmatch]
        exact .pass hmatch (ih rest.length (by omega) _ _ rfl)
      | some found =>
        obtain ⟨x,after⟩ := found
        obtain ⟨w,rfl⟩ := hproper _ _ _ _ _ hmatch
        rw [subFrom_some hmatch]
        refine .exchange hmatch (ih after.length ?_ _ _ rfl)
        rw [List.length_append] at hlength
        omega

theorem substituted_sub (hproper : Proper matchAt) (text : Str) : Substituted matchAt none text (sub matchAt text) :=
  substituted_subFrom hproper none text

end Substituted

section Quiet

variable {α : Type}

def Quiet (matchAt : Matcher α) : Option Char → Str → Prop
  | _, [] => True
  | before, c :: rest => matchAt before (c :: rest) = none ∧ Quiet matchAt (some c) rest

theorem Quiet.sub {matchAt : Matcher Str} {before : Option Char} {text : Str} (h : Quiet matchAt before text) :
    subFrom matchAt before 0 text = text := by
  induction text generalizing before with
  | nil => rfl
  | cons c rest ih => rw [subFrom_none h.1, ih h.2]

theorem Quiet.finditer {matchAt : Matcher α} {before : Option Char} {text : Str} (h : Quiet matchAt before text) :
    findAll matchAt before 0 text = [] := by
  induction text generalizing before with
  | nil => rfl
  | cons c rest ih =>
    rw [findAll, h.1]
    exact ih h.2

theorem quiet_of_findAll {matchAt : Matcher α} {before : Option Char} {text : Str}
    (h : findAll matchAt before 0 text = []) : Quiet matchAt before text := by
  induction text generalizing before with
  | nil => trivial
  | cons c rest ih =>
    rw [findAll] at h
    cases hmatch : matchAt before (c :: rest) with
    | none =>
      rw [hmatch] at h
      exact ⟨hmatch, ih h⟩
    | some found =>
      rw [hmatch] at h
      cases h

theorem Quiet.imp {β : Type} {matchAt : Matcher α} {other : Matcher β} {before : Option Char} {text : Str}
    (h : ∀ before text, matchAt before text = none → other before text = none) (hquiet : Quiet matchAt before text) :
    Quiet other before text := by
  induction text generalizing before with
  | nil => trivial
  | cons c rest ih => exact ⟨h _ _ hquiet.1, ih hquiet.2⟩

end Quiet

section Severed

variable {α : Type}

-- A character that no match contains and that hides from a match what stands beyond it.
structure Severs (matchAt : Matcher α) (n : Char) : Prop where
  first : ∀ before rest, matchAt before (n :: rest) = none
  behind : ∀ before text, matchAt before text = none → matchAt (some n) text = none
  ahead : ∀ before w y x, matchAt before (w ++ y) = none → matchAt before (w ++ n :: x) = none

variable {matchAt : Matcher α} {n : Char}

theorem Severs.map {β : Type} (h : Severs matchAt n) (f : α × Str → β × Str) :
    Severs (fun before text => (matchAt before text).map f) n where
  first before rest := Option.map_eq_none_iff.mpr (h.first before rest)
  behind before text hnone := Option.map_eq_none_iff.mpr (h.behind before text (Option.map_eq_none_iff.mp hnone))
  ahead before w y x hnone := Option.map_eq_none_iff.mpr (h.ahead before w y x (Option.map_eq_none_iff.mp hnone))

theorem Quiet.behind (hsevers : Severs matchAt n) {before : Option Char} {text : Str} (h : Quiet matchAt before text) :
    Quiet matchAt (some n) text := by
  cases text with
  | nil => trivial
  | cons c rest => exact ⟨hsevers.behind _ _ h.1, h.2⟩

theorem Quiet.severed (hsevers : Severs matchAt n) {before : Option Char} {w rest : Str} (hw : Quiet matchAt before w)
    (hrest : Quiet matchAt (some n) rest) : Quiet matchAt before (w ++ n :: rest) := by
  induction w generalizing before with
  | nil => exact ⟨hsevers.first _ _, hrest⟩
  | cons c w ih =>
    refine ⟨hsevers.ahead before (c :: w) [] rest ?_, ih hw.2⟩
    rw [List.append_nil]
    exact hw.1

-- The text goes on like another one until a severing character cuts it off.
def Follows (n : Char) (text other : Str) : Prop := other = text ∨ ∃ w y x, text = w ++ y ∧ other = w ++ n :: x

theorem Follows.cons {text other : Str} (h : Follows n text other) (c : Char) : Follows n (c :: text) (c :: other) := by
  rcases h with rfl | ⟨w,y,x,rfl,rfl⟩
  · exact .inl rfl
  · exact .inr ⟨c :: w, y, x, rfl, rfl⟩

theorem Follows.none {before : Option Char} {text other : Str} (h : Follows n text other) (hsevers : Severs matchAt n)
    (hnone : matchAt before text = none) : matchAt before other = none := by
  rcases h with rfl | ⟨w,y,x,rfl,rfl⟩
  · exact hnone
  · exact hsevers.ahead _ _ _ _ hnone

def scattered (n : Char) (text : Str) : Str := text.flatMap fun c => [c, n]

theorem scattered_cons (c : Char) (text : Str) : scattered n (c :: text) = c :: n :: scattered n text := rfl

theorem quiet_scattered (hsevers : Severs matchAt n) (hone : ∀ c, matchAt none [c] = none) (text : Str) {rest : Str}
    (hrest : Quiet matchAt (some n) rest) : Quiet matchAt (some n) (scattered n text ++ rest) := by
  induction text with
  | nil => exact hrest
  | cons c text ih =>
    have hc : Quiet matchAt (some n) [c] := ⟨hsevers.behind _ _ (hone c), trivial⟩
    exact hc.severed hsevers ih

end Severed

section Piecewise

variable {matchAt : Matcher Str} {n : Char}

theorem subFrom_severed (hsevers : Severs matchAt n) {before : Option Char} {w : Str} (hw : Quiet matchAt before w)
    (rest : Str) : subFrom matchAt before 0 (w ++ n :: rest) = w ++ n :: subFrom matchAt (some n) 0 rest := by
  induction w generalizing before with
  | nil => exact subFrom_none (hsevers.first _ _)
  | cons c w ih =>
    have hnone : matchAt before (c :: (w ++ n :: rest)) = none := by
      refine hsevers.ahead before (c :: w) [] rest ?_
      rw [List.append_nil]
      exact hw.1
    rw [List.cons_append, subFrom_none hnone, ih hw.2, List.cons_append]

theorem subFrom_scattered (hsevers : Severs matchAt n) (hone : ∀ c, matchAt none [c] = none) (text rest : Str) :
    subFrom matchAt (some n) 0 (scattered n text ++ rest) =
      scattered n text ++ subFrom matchAt (some n) 0 rest := by
  induction text with
  | nil => rfl
  | cons c text ih =>
    have hc : Quiet matchAt (some n) [c] := ⟨hsevers.behind _ _ (hone c), trivial⟩
    rw [scattered_cons, List.cons_append, List.cons_append, ← List.singleton_append, subFrom_severed hsevers hc, ih]
    rfl

end Piecewise

section Apart

variable {space : Char → Bool}

def Apart (space : Char → Bool) (text : Str) : Prop := text.IsChain fun a b => ¬(space a = true ∧ space b = true)

def Firm (space : Char → Bool) (text : Str) : Prop :=
  (∃ c rest, text = c :: rest ∧ space c = false) ∧ ∀ c, text.getLast? = some c → space c = false

def Blank (space : Char → Bool) (text : Str) : Prop := ∃ c, text.head? = some c ∧ space c = true

theorem Apart.cons {c : Char} {text : Str} (h : Apart space text) (hnot : Blank space text → space c = false) :
    Apart space (c :: text) := by
  cases text with
  | nil => exact .singleton c
  | cons d text =>
    refine .cons_cons ?_ h
    rintro ⟨hc,hd⟩
    rw [hnot ⟨d, rfl, hd⟩] at hc
    cases hc

theorem Apart.append {x out : Str} (hx : Apart space x) (hout : Apart space out)
    (hlast : ∀ c, x.getLast? = some c → space c = false) : Apart space (x ++ out) := by
  refine List.IsChain.append hx hout fun c hc d _ => ?_
  rintro ⟨hspace,_⟩
  rw [hlast c hc] at hspace
  cases hspace

theorem Apart.tail {c : Char} {text : Str} (h : Apart space (c :: text)) : Apart space text := List.IsChain.tail h

theorem Apart.head {c : Char} {text : Str} (h : Apart space (c :: text)) (hblank : Blank space text) : space c = false := by
  obtain ⟨d,hd,hspace⟩ := hblank
  cases text with
  | nil => cases hd
  | cons e text =>
    cases hd
    rw [← Bool.not_eq_true]
    intro hc
    exact (List.isChain_cons_cons.mp h).1 ⟨hc, hspace⟩

theorem Firm.not_blank {x out : Str} (h : Firm space x) : ¬Blank space (x ++ out) := by
  obtain ⟨⟨c,rest,rfl,hc⟩,_⟩ := h
  rintro ⟨d,hd,hspace⟩
  cases hd
  rw [hc] at hspace
  cases hspace

theorem Apart.substituted {matchAt : Matcher Str} {before : Option Char} {text out : Str} (happart : Apart space text)
    (hfirm : ∀ before text x after, matchAt before text = some (x, after) → Apart space x ∧ Firm space x)
    (h : Substituted matchAt before text out) :
    Apart space out ∧ (Blank space out → Blank space text) := by
  induction h with
  | nil => exact ⟨.nil, id⟩
  | pass _ _ ih =>
    obtain ⟨hout,hhead⟩ := ih happart.tail
    exact ⟨hout.cons fun hblank => happart.head (hhead hblank), id⟩
  | @exchange _ c w x after out hmatch _ ih =>
    obtain ⟨hx,hends⟩ := hfirm _ _ _ _ hmatch
    obtain ⟨hout,_⟩ := ih (happart.tail.right_of_append)
    exact ⟨hx.append hout hends.2, fun hblank => absurd hblank hends.not_blank⟩

end Apart

end PicoSentry.Foundation
