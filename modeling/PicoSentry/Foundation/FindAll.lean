import Mathlib.Logic.Relation
import PicoSentry.Foundation.Text

namespace PicoSentry.Foundation

section FindAll

variable {α : Type}

-- What a pattern matches in front of a text: the captured value and the text after the match.
abbrev Matcher (α : Type) := Option Char → Str → Option (α × Str)

-- The matches of finditer from left to right, none empty and no two overlapping. The first argument
-- is the character before the text, the second counts the characters of a match still to pass.
def findAll (matchAt : Matcher α) : Option Char → Nat → Str → List α
  | _, _, [] => []
  | _, skip + 1, c :: rest => findAll matchAt (some c) skip rest
  | before, 0, c :: rest =>
    match matchAt before (c :: rest) with
    | none => findAll matchAt (some c) 0 rest
    | some (x, after) => x :: findAll matchAt (some c) (rest.length - after.length) rest

def finditer (matchAt : Matcher α) (text : Str) : List α := findAll matchAt none 0 text

end FindAll

section Search

variable {α : Type} {matchAt : Matcher α}

abbrev Position := Str × Str

def advance (matchAt : Matcher α) : Position → Position
  | (before, []) => (before, [])
  | (before, c :: rest) =>
    match matchAt before.getLast? (c :: rest) with
    | none => (before ++ [c], rest)
    | some (_, after) =>
      (before ++ c :: rest.take (rest.length - after.length), rest.drop (rest.length - after.length))

def Reached (matchAt : Matcher α) : Position → Position → Prop :=
  Relation.ReflTransGen fun p q => p.2 ≠ [] ∧ advance matchAt p = q

theorem advance_append (p : Position) : (advance matchAt p).1 ++ (advance matchAt p).2 = p.1 ++ p.2 := by
  obtain ⟨before,text⟩ := p
  cases text with
  | nil => rfl
  | cons c rest =>
    rw [advance]
    cases matchAt before.getLast? (c :: rest) with
    | none => simp
    | some found => simp

theorem Reached.append {p q : Position} (h : Reached matchAt p q) : q.1 ++ q.2 = p.1 ++ p.2 := by
  induction h with
  | refl => rfl
  | tail _ hstep ih => rw [← hstep.2, advance_append, ih]

def Found (matchAt : Matcher α) (start : Position) (x : α) : Prop :=
  ∃ passed rest after, Reached matchAt start (passed, rest) ∧ rest ≠ [] ∧ matchAt passed.getLast? rest = some (x, after)

theorem not_found_nil (before : Str) (x : α) : ¬Found matchAt (before, []) x := by
  rintro ⟨passed,rest,after,hreached,hne,_⟩
  rcases Relation.ReflTransGen.cases_head hreached with heq | ⟨_,hstep,_⟩
  · exact hne (congrArg Prod.snd heq).symm
  · exact hstep.1 rfl

theorem found_cons_iff {before rest : Str} {c : Char} {x : α} : Found matchAt (before, c :: rest) x ↔
    (∃ after, matchAt before.getLast? (c :: rest) = some (x, after)) ∨
      Found matchAt (advance matchAt (before, c :: rest)) x := by
  constructor
  · rintro ⟨passed,rest',after,hreached,hne,hmatch⟩
    rcases Relation.ReflTransGen.cases_head hreached with heq | ⟨_,⟨-,rfl⟩,hmore⟩
    · cases heq
      exact .inl ⟨after, hmatch⟩
    · exact .inr ⟨passed, rest', after, hmore, hne, hmatch⟩
  · rintro (⟨after,hmatch⟩ | ⟨passed,rest',after,hmore,hne,hmatch⟩)
    · exact ⟨before, c :: rest, after, .refl, List.cons_ne_nil _ _, hmatch⟩
    · exact ⟨passed, rest', after, .head ⟨List.cons_ne_nil _ _, rfl⟩ hmore, hne, hmatch⟩

theorem findAll_skip (before : Str) (skip : Nat) (text : Str) :
    findAll matchAt before.getLast? skip text =
      findAll matchAt (before ++ text.take skip).getLast? 0 (text.drop skip) := by
  induction skip generalizing before text with
  | zero => simp
  | succ skip ih =>
    cases text with
    | nil => simp [findAll]
    | cons c rest =>
      have hlast : some c = (before ++ [c]).getLast? := by simp
      rw [findAll, hlast, ih, List.take_succ_cons, List.drop_succ_cons, List.append_assoc, List.singleton_append]

theorem mem_findAll (before text : Str) (x : α) :
    x ∈ findAll matchAt before.getLast? 0 text ↔ Found matchAt (before, text) x := by
  generalize hlength : text.length = n
  induction n using Nat.strong_induction_on generalizing before text with
  | _ n ih =>
    cases text with
    | nil => exact iff_of_false List.not_mem_nil (not_found_nil before x)
    | cons c rest =>
      have hlast : some c = (before ++ [c]).getLast? := by simp
      rw [List.length_cons] at hlength
      rw [found_cons_iff, findAll]
      cases hmatch : matchAt before.getLast? (c :: rest) with
      | none =>
        have hadvance : advance matchAt (before, c :: rest) = (before ++ [c], rest) := by rw [advance, hmatch]
        dsimp only
        rw [hadvance, hlast, ih rest.length (by omega) _ _ rfl]
        simp
      | some found =>
        obtain ⟨y,after⟩ := found
        have hadvance : advance matchAt (before, c :: rest) =
            (before ++ c :: rest.take (rest.length - after.length), rest.drop (rest.length - after.length)) := by
          rw [advance, hmatch]
        dsimp only
        rw [hadvance, List.mem_cons, hlast, findAll_skip, ih _ (by rw [List.length_drop]; omega) _ _ rfl,
          List.append_assoc, List.singleton_append]
        simp [eq_comm]

theorem mem_finditer {text : Str} {x : α} : x ∈ finditer matchAt text ↔ Found matchAt ([], text) x :=
  mem_findAll [] text x

def Consumes (matchAt : Matcher α) (p : Char → Bool) : Prop :=
  ∀ before text x after, matchAt before text = some (x, after) → ∃ w, text = w ++ after ∧ ∀ c ∈ w, p c = true

theorem reached_behind {p : Char → Bool} {d : Char} (hd : p d = false) (hconsumes : Consumes matchAt p)
    (passed before rest : Str) :
    Reached matchAt (passed, before ++ d :: rest) (passed ++ (before ++ [d]), rest) := by
  generalize hlength : before.length = n
  induction n using Nat.strong_induction_on generalizing passed before with
  | _ n ih =>
    cases before with
    | nil =>
      refine .single ⟨List.cons_ne_nil _ _, ?_⟩
      rw [List.nil_append, advance]
      cases hmatch : matchAt passed.getLast? (d :: rest) with
      | none => rfl
      | some found =>
        obtain ⟨x,after⟩ := found
        obtain ⟨w,htext,hw⟩ := hconsumes _ _ _ _ hmatch
        cases w with
        | nil =>
          rw [List.nil_append] at htext
          have hzero : rest.length - after.length = 0 := by
            rw [← htext, List.length_cons]
            omega
          simp [hzero]
        | cons c w =>
          rw [List.cons_append] at htext
          obtain ⟨rfl,_⟩ := List.cons.inj htext
          rw [hw d List.mem_cons_self] at hd
          cases hd
    | cons c before =>
      have hstep : ∃ skip ≤ before.length, advance matchAt (passed, c :: before ++ d :: rest) =
          (passed ++ c :: before.take skip, before.drop skip ++ d :: rest) := by
        rw [List.cons_append, advance]
        cases hmatch : matchAt passed.getLast? (c :: (before ++ d :: rest)) with
        | none => exact ⟨0, Nat.zero_le _, rfl⟩
        | some found =>
          obtain ⟨x,after⟩ := found
          obtain ⟨w,htext,hw⟩ := hconsumes _ _ _ _ hmatch
          have hshort : w.length ≤ (c :: before).length := by
            by_contra hlong
            have hdw : d ∈ w := by
              have hget := congrArg (List.take w.length) htext
              rw [List.take_left, ← List.cons_append] at hget
              rw [← hget, List.take_append]
              refine List.mem_append_right _ ?_
              obtain ⟨k,hk⟩ : ∃ k, w.length - (c :: before).length = k + 1 := ⟨w.length - (c :: before).length - 1, by omega⟩
              rw [hk, List.take_succ_cons]
              exact List.mem_cons_self
            rw [hw d hdw] at hd
            cases hd
          have hskip : (before ++ d :: rest).length - after.length ≤ before.length := by
            have hsum := congrArg List.length htext
            simp only [List.length_cons, List.length_append] at hsum hshort ⊢
            omega
          refine ⟨_, hskip, ?_⟩
          dsimp only
          rw [List.take_append_of_le_length hskip, List.drop_append_of_le_length hskip]
      obtain ⟨skip,hskip,hadvance⟩ := hstep
      have hrest := ih (before.drop skip).length (by rw [← hlength, List.length_drop, List.length_cons]; omega)
        (passed ++ c :: before.take skip) (before.drop skip) rfl
      have hjoin : passed ++ c :: before.take skip ++ (before.drop skip ++ [d]) = passed ++ (c :: before ++ [d]) := by
        simp only [List.append_assoc, List.cons_append, List.append_cancel_left_eq, List.cons.injEq, true_and]
        rw [← List.append_assoc, List.take_append_drop]
      rw [hjoin] at hrest
      exact .head ⟨List.cons_ne_nil _ _, hadvance⟩ hrest

end Search

section Blind

variable {α : Type} {read : Str → Option (α × Str)}

theorem findAll_blind (before before' : Option Char) (skip : Nat) (text : Str) :
    findAll (fun _ => read) before skip text = findAll (fun _ => read) before' skip text := by
  cases text with
  | nil => cases skip <;> rfl
  | cons c rest => cases skip <;> rw [findAll, findAll]

theorem findAll_drop (skip : Nat) (text : Str) :
    findAll (fun _ => read) none skip text = finditer (fun _ => read) (text.drop skip) := by
  have hskip := @findAll_skip α (fun _ => read) [] skip text
  rw [List.getLast?_nil] at hskip
  rw [hskip]
  exact findAll_blind _ _ _ _

theorem finditer_none {c : Char} {rest : Str} (h : read (c :: rest) = none) :
    finditer (fun _ => read) (c :: rest) = finditer (fun _ => read) rest := by
  rw [finditer, findAll, h]
  exact findAll_blind _ _ _ _

theorem finditer_some {c : Char} {rest after : Str} {x : α} (h : read (c :: rest) = some (x, after)) :
    finditer (fun _ => read) (c :: rest) = x :: finditer (fun _ => read) (rest.drop (rest.length - after.length)) := by
  rw [finditer, findAll, h]
  dsimp only
  rw [findAll_blind _ none, findAll_drop]

theorem finditer_pass {run rest : Str} (h : ∀ s, s ≠ [] → s <:+ run → read (s ++ rest) = none) :
    finditer (fun _ => read) (run ++ rest) = finditer (fun _ => read) rest := by
  induction run with
  | nil => rfl
  | cons c run ih =>
    have hhead := h (c :: run) (List.cons_ne_nil _ _) (List.suffix_refl _)
    rw [List.cons_append] at hhead ⊢
    rw [finditer_none hhead]
    exact ih fun s hs hsuffix => h s hs (hsuffix.trans (List.suffix_cons c run))

theorem finditer_append {run rest : Str}
    (hlocal : ∀ s, s <:+ run → read (s ++ rest) = (read s).map fun found => (found.1, found.2 ++ rest))
    (hshrinks : ∀ {c s x after}, read (c :: s) = some (x, after) → after.length ≤ s.length) :
    finditer (fun _ => read) (run ++ rest) = finditer (fun _ => read) run ++ finditer (fun _ => read) rest := by
  generalize hlength : run.length = n
  induction n using Nat.strong_induction_on generalizing run with
  | _ n ih =>
    cases run with
    | nil => rfl
    | cons c run =>
      rw [List.length_cons] at hlength
      have hhead := hlocal (c :: run) (List.suffix_refl _)
      have htail : ∀ k, ∀ s, s <:+ run.drop k →
          read (s ++ rest) = (read s).map fun found => (found.1, found.2 ++ rest) := fun k s hs =>
        hlocal s ((hs.trans (List.drop_suffix k run)).trans (List.suffix_cons c run))
      cases hread : read (c :: run) with
      | none =>
        rw [hread, Option.map_none] at hhead
        rw [List.cons_append] at hhead ⊢
        rw [finditer_none hhead, finditer_none hread]
        exact ih run.length (by omega) (htail 0) rfl
      | some found =>
        obtain ⟨x,after⟩ := found
        rw [hread, Option.map_some] at hhead
        rw [List.cons_append] at hhead ⊢
        have hshort := hshrinks hread
        have hskip : (run ++ rest).length - (after ++ rest).length = run.length - after.length := by
          rw [List.length_append, List.length_append]
          omega
        rw [finditer_some hhead, finditer_some hread, hskip, List.drop_append_of_le_length (by omega), List.cons_append]
        exact congrArg (x :: ·) (ih _ (by rw [List.length_drop]; omega) (htail _) rfl)

end Blind

section Readers

variable (space : Char → Bool)

def literal (word text : Str) : Option Str :=
  if word <+: text then some (text.drop word.length) else none

theorem literal_append (word rest : Str) : literal word (word ++ rest) = some rest := by
  rw [literal, if_pos (List.prefix_append _ _), List.drop_left]

theorem literal_eq_some_iff {word text rest : Str} : literal word text = some rest ↔ text = word ++ rest := by
  constructor
  · intro h
    rw [literal] at h
    split at h
    · next hbegins =>
      obtain ⟨tail,rfl⟩ := hbegins
      rw [List.drop_left] at h
      rw [Option.some.inj h]
    · cases h
  · rintro rfl
    exact literal_append word rest

theorem literal_stop {p : Char → Bool} {word rest : Str} (hword : ∀ c ∈ word, p c = true)
    (hrest : ∀ c, rest.head? = some c → p c = false) (s : Str) :
    literal word (s ++ rest) = (literal word s).map (· ++ rest) := by
  have hprefix : word <+: s ++ rest ↔ word <+: s := by
    refine ⟨fun h => ?_, fun h => h.trans (List.prefix_append _ _)⟩
    rcases List.prefix_or_prefix_of_prefix h (List.prefix_append s rest) with hbegins | ⟨more,hmore⟩
    · exact hbegins
    · rw [← hmore, List.prefix_append_right_inj] at h
      cases more with
      | nil => rw [← hmore, List.append_nil]
      | cons c more =>
        obtain ⟨tail,htail⟩ := h
        have hhead := hrest c (by rw [← htail]; rfl)
        rw [hword c (by rw [← hmore]; simp)] at hhead
        cases hhead
  rw [literal, literal]
  split
  · next h =>
    have hs := hprefix.mp h
    rw [if_pos hs, List.drop_append_of_le_length hs.length_le]
    rfl
  · next h =>
    rw [if_neg (mt hprefix.mpr h)]
    rfl

def spaces (text : Str) : Option Str :=
  match text with
  | c :: rest => if space c then some (rest.dropWhile space) else none
  | [] => none

def unspaced (text : Str) : Option (Str × Str) :=
  if text.takeWhile (fun c => !space c) = [] then none
  else some (text.takeWhile (fun c => !space c), text.dropWhile (fun c => !space c))

def isQuote (c : Char) : Bool := c = '\'' || c = '"'

def quoted (text : Str) : Option (Str × Str) :=
  match text with
  | [] => none
  | c :: rest =>
    if isQuote c ∧ rest.takeWhile (fun d => !isQuote d) ≠ [] then
      match rest.dropWhile (fun d => !isQuote d) with
      | [] => none
      | _ :: after => some (rest.takeWhile (fun d => !isQuote d), after)
    else none

end Readers

end PicoSentry.Foundation
