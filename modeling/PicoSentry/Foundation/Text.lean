import Mathlib.Data.List.Infix
import Mathlib.Data.List.Basic
import Mathlib.Data.List.TakeWhile
import Mathlib.Data.Char

namespace PicoSentry.Foundation

abbrev Str := List Char

instance instLawfulBEqStr : LawfulBEq Str := List.instLawfulBEq

instance instLawfulBEqStrPair : LawfulBEq (Str × Str) := Prod.instLawfulBEq

-- The instance that decides a statement about all characters runs through every one of them.
theorem forall_mem_of_all {p : Char → Prop} [DecidablePred p] {s : Str} (h : s.all (fun c => decide (p c)) = true) :
    ∀ c ∈ s, p c :=
  fun c hc => of_decide_eq_true (List.all_eq_true.mp h c hc)

theorem run_append {p : Char → Bool} {s rest : Str} (hs : ∀ c ∈ s, p c = true)
    (hrest : ∀ c, rest.head? = some c → p c = false) :
    (s ++ rest).takeWhile p = s ∧ (s ++ rest).dropWhile p = rest := by
  rw [List.takeWhile_append_of_pos hs, List.dropWhile_append_of_pos hs]
  cases rest with
  | nil => exact ⟨List.append_nil s, rfl⟩
  | cons c rest =>
    have hc : ¬p c = true := by rw [hrest c rfl]; exact Bool.false_ne_true
    rw [List.takeWhile_cons_of_neg hc, List.dropWhile_cons_of_neg hc, List.append_nil]
    exact ⟨rfl, rfl⟩

theorem run_cons {p : Char → Bool} {s rest : Str} {d : Char} (hs : ∀ c ∈ s, p c = true)
    (hd : p d = false) :
    (s ++ d :: rest).takeWhile p = s ∧ (s ++ d :: rest).dropWhile p = d :: rest :=
  run_append hs fun _ hc => by cases hc; exact hd

theorem run_stop {p : Char → Bool} {rest : Str} (hrest : ∀ c, rest.head? = some c → p c = false) (s : Str) :
    (s ++ rest).takeWhile p = s.takeWhile p ∧ (s ++ rest).dropWhile p = s.dropWhile p ++ rest := by
  induction s with
  | nil => exact run_append (by simp) hrest
  | cons c s ih =>
    rw [List.cons_append]
    cases hc : p c with
    | true =>
      rw [List.takeWhile_cons_of_pos hc, List.dropWhile_cons_of_pos hc, List.takeWhile_cons_of_pos hc,
        List.dropWhile_cons_of_pos hc, ih.1, ih.2]
      exact ⟨rfl, rfl⟩
    | false =>
      have hneg : ¬p c = true := by rw [hc]; exact Bool.false_ne_true
      rw [List.takeWhile_cons_of_neg hneg, List.dropWhile_cons_of_neg hneg, List.takeWhile_cons_of_neg hneg,
        List.dropWhile_cons_of_neg hneg]
      exact ⟨rfl, rfl⟩

def asciiSpaces : List Nat := [9, 10, 11, 12, 13, 28, 29, 30, 31, 32]

def asciiDigit (c : Char) : Option Nat :=
  if '0' ≤ c ∧ c ≤ '9' then some (c.toNat - 48) else none

structure Unicode where
  lower : Char → Str
  upper : Char → Str
  cased : Char → Bool
  caseIgnorable : Char → Bool
  sameIgnoringCase : Char → Char → Bool
  digit : Char → Option Nat
  space : Char → Bool
  lower_ascii : ∀ c, c.toNat < 128 → lower c = [c.toLower]
  space_ascii : ∀ c, c.toNat < 128 → space c = asciiSpaces.contains c.toNat
  digit_ascii : ∀ c, c.toNat < 128 → digit c = asciiDigit c

namespace Unicode

variable (U : Unicode)

-- A capital sigma lowers to its final form after a cased letter that no cased letter follows.
def finalSigma (before after : Str) : Bool :=
  match before.dropWhile U.caseIgnorable, after.dropWhile U.caseIgnorable with
  | c :: _, [] => U.cased c
  | c :: _, d :: _ => U.cased c && !U.cased d
  | [], _ => false

def lowerAt (before after : Str) (c : Char) : Str :=
  if c = 'Σ' then (if U.finalSigma before after then ['ς'] else ['σ']) else U.lower c

def lowerFrom (before : Str) : Str → Str
  | [] => []
  | c :: rest => U.lowerAt before rest c ++ lowerFrom (c :: before) rest

def lowerStr (s : Str) : Str := U.lowerFrom [] s

def upperStr (s : Str) : Str := s.flatMap U.upper

def strip (s : Str) : Str :=
  ((s.dropWhile U.space).reverse.dropWhile U.space).reverse

def dottedCapitalI : Char := Char.ofNat 0x130
def dotlessI : Char := Char.ofNat 0x131
def longS : Char := Char.ofNat 0x17F
def kelvinSign : Char := Char.ofNat 0x212A
def combiningDot : Char := Char.ofNat 0x307

def foldBasic (c : Char) : Char :=
  if c = dottedCapitalI ∨ c = dotlessI then 'i'
  else if c = longS then 's'
  else if c = kelvinSign then 'k'
  else c.toLower

theorem ne_of_ascii {c d : Char} (hc : c.toNat < 128) (hd : 128 ≤ d.toNat) : c ≠ d := by
  rintro rfl
  omega

theorem lower_basic_ascii {c : Char} (h : c.toNat < 128) :
    (if c = dottedCapitalI then ['i', combiningDot]
      else if c = kelvinSign then ['k'] else [c.toLower]) = [c.toLower] := by
  rw [if_neg (ne_of_ascii h (by decide)), if_neg (ne_of_ascii h (by decide))]

theorem space_basic_ascii {c : Char} (h : c.toNat < 128) :
    (asciiSpaces ++ [0x85, 0xA0]).contains c.toNat = asciiSpaces.contains c.toNat := by
  have h85 : c.toNat ≠ 0x85 := by omega
  have hA0 : c.toNat ≠ 0xA0 := by omega
  simp [h85, hA0]

-- The tables of Unicode restricted to ASCII and to the four letters that ignore-case matching
-- adds to ASCII: U+0130, U+0131, U+017F and U+212A.
def basic : Unicode where
  lower c :=
    if c = dottedCapitalI then ['i', combiningDot]
    else if c = kelvinSign then ['k']
    else [c.toLower]
  upper c :=
    if c = dotlessI then ['I'] else if c = longS then ['S'] else [c.toUpper]
  cased c :=
    c.isAlpha || c == dottedCapitalI || c == dotlessI || c == longS || c == kelvinSign
  caseIgnorable c := [39, 46, 58, 94, 96, 0x307].contains c.toNat
  sameIgnoringCase a b := foldBasic a == foldBasic b
  digit c := asciiDigit c
  space c := (asciiSpaces ++ [0x85, 0xA0]).contains c.toNat
  lower_ascii _ h := lower_basic_ascii h
  space_ascii _ h := space_basic_ascii h
  digit_ascii _ _ := rfl

variable {U}

theorem lowerAt_ascii {c : Char} (h : c.toNat < 128) (before after : Str) :
    U.lowerAt before after c = [c.toLower] := by
  rw [lowerAt, if_neg (ne_of_ascii h (by decide)), U.lower_ascii c h]

theorem lowerFrom_ascii {s : Str} (h : ∀ c ∈ s, c.toNat < 128) (before : Str) :
    U.lowerFrom before s = s.map Char.toLower := by
  induction s generalizing before with
  | nil => rfl
  | cons c s ih =>
    rw [lowerFrom, lowerAt_ascii (h c (by simp)), ih fun d hd => h d (by simp [hd])]
    rfl

theorem lowerStr_ascii {s : Str} (h : ∀ c ∈ s, c.toNat < 128) :
    U.lowerStr s = s.map Char.toLower :=
  lowerFrom_ascii h []

theorem strip_eq_of_ends {s t : Str} {c d : Char} (hc : s.head? = some c) (hd : s = t ++ [d])
    (hcs : U.space c = false) (hds : U.space d = false) : U.strip s = s := by
  have hfront : s.dropWhile U.space = s := by
    cases s with
    | nil => rfl
    | cons a s =>
      cases hc
      simp [hcs]
  have hback : s.reverse.dropWhile U.space = s.reverse := by simp [hd, hds]
  rw [strip, hfront, hback, List.reverse_reverse]

theorem strip_eq_self {s : Str} (h : ∀ c ∈ s, U.space c = false) : U.strip s = s := by
  have hdrop : ∀ t : Str, (∀ c ∈ t, U.space c = false) → t.dropWhile U.space = t := by
    intro t ht
    cases t with
    | nil => rfl
    | cons c t => simp [ht c (by simp)]
  rw [strip, hdrop s h, hdrop s.reverse (by simpa using h), List.reverse_reverse]

end Unicode

def collapseSeparators (inRun : Bool) : Str → Str
  | [] => []
  | c :: cs =>
    if c = '-' ∨ c = '_' ∨ c = '.' then
      if inRun then collapseSeparators true cs else '-' :: collapseSeparators true cs
    else c :: collapseSeparators false cs

section Fresh

def freshStr (n : Nat) : Str := List.replicate n 'a'

theorem eventually_fresh (ss : List Str) : ∃ n, ∀ m, n ≤ m → freshStr m ∉ ss := by
  induction ss with
  | nil => exact ⟨0, by simp⟩
  | cons s ss ih =>
    obtain ⟨n,hn⟩ := ih
    refine ⟨max n (s.length + 1), ?_⟩
    intro m hm hmem
    rcases List.mem_cons.mp hmem with he | hmem
    · have := congrArg List.length he
      simp only [freshStr, List.length_replicate] at this
      omega
    · exact hn m (by omega) hmem

theorem exists_fresh (ss : List Str) : ∃ n, freshStr n ∉ ss := by
  obtain ⟨n,hn⟩ := eventually_fresh ss
  exact ⟨n, hn n le_rfl⟩

theorem lowerStr_strip_fresh (U : Unicode) (n : Nat) :
    U.lowerStr (U.strip (freshStr n)) = freshStr n := by
  have hall : ∀ c ∈ freshStr n, c = 'a' := fun _ hc => List.eq_of_mem_replicate hc
  have hspace : ∀ c ∈ freshStr n, U.space c = false := by
    intro c hc
    rw [hall c hc, U.space_ascii _ (by decide)]
    decide
  have hascii : ∀ c ∈ freshStr n, c.toNat < 128 := by
    intro c hc
    rw [hall c hc]
    decide
  rw [Unicode.strip_eq_self hspace, Unicode.lowerStr_ascii hascii, freshStr, List.map_replicate]
  rfl

end Fresh

end PicoSentry.Foundation
