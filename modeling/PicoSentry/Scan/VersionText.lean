import Mathlib.Data.List.TakeWhile
import PicoSentry.Scan.Version

namespace PicoSentry.Scan.Version

open Foundation

variable {U : Unicode}

section Digits

variable {c : Char} {ds rest : Str}

theorem digit_of_isDigit (h : isDigit c = true) : U.digit c = some (c.toNat - 48) := by
  have hbounds : 48 ≤ c.toNat ∧ c.toNat ≤ 57 := by simpa [isDigit] using h
  rw [U.digit_ascii c (by omega), asciiDigit]
  exact if_pos ⟨hbounds.1, hbounds.2⟩

theorem digit_of_not_isDigit (hascii : c.toNat < 128) (h : isDigit c = false) : U.digit c = none := by
  rw [U.digit_ascii c hascii, asciiDigit, if_neg]
  rintro ⟨hlow,hhigh⟩
  have hdigit : isDigit c = true := by simpa [isDigit] using ⟨hlow, hhigh⟩
  rw [h] at hdigit
  cases hdigit

def Ends (U : Unicode) (rest : Str) : Prop := ∀ c ∈ rest.head?, U.digit c = none

theorem ends_nil : Ends U [] := fun _ hc => absurd hc (Option.not_mem_none _)

theorem ends_cons (hascii : c.toNat < 128) (h : isDigit c = false) (rest : Str) : Ends U (c :: rest) := by
  intro d hd
  obtain rfl := Option.some.inj hd
  exact digit_of_not_isDigit hascii h

theorem digits_append (hne : ds ≠ []) (hds : ∀ c ∈ ds, isDigit c = true) (hrest : Ends U rest) :
    digits U (ds ++ rest) = some (ds, rest) := by
  have hall : ∀ c ∈ ds, (U.digit c).isSome = true := fun c hc => by
    rw [digit_of_isDigit (hds c hc)]
    rfl
  have hstop : rest.takeWhile (fun c => (U.digit c).isSome) = [] ∧
      rest.dropWhile (fun c => (U.digit c).isSome) = rest := by
    cases rest with
    | nil => exact ⟨rfl, rfl⟩
    | cons c rest =>
      have hnone := hrest c rfl
      simp [hnone]
  rw [digits, List.takeWhile_append_of_pos hall, List.dropWhile_append_of_pos hall, hstop.1, hstop.2,
    List.append_nil]
  exact if_neg hne

theorem int_eq (hds : ∀ c ∈ ds, isDigit c = true) : int U ds = digitsValue 0 ds := by
  refine List.foldl_ext _ _ _ fun n c hc => ?_
  rw [digit_of_isDigit (hds c hc)]
  rfl

end Digits

structure Numeral where
  text : Str
  ne_nil : text ≠ []
  isDigit : ∀ c ∈ text, isDigit c = true

namespace Numeral

def value (n : Numeral) : Nat := digitsValue 0 n.text

theorem digits_text (n : Numeral) {rest : Str} (h : Ends U rest) :
    digits U (n.text ++ rest) = some (n.text, rest) := digits_append n.ne_nil n.isDigit h

theorem int_text (n : Numeral) : int U n.text = n.value := int_eq n.isDigit

theorem not_mem_text (n : Numeral) {c : Char} (h : Foundation.isDigit c = false) : c ∉ n.text := by
  intro hmem
  rw [n.isDigit c hmem] at h
  cases h

end Numeral

section Search

variable {s : Str}

theorem ends_dot (rest : Str) : Ends U ('.' :: rest) := ends_cons (by decide) (by decide) rest

theorem semverAt_numerals (major minor patch : Numeral) {rest : Str} (hrest : Ends U rest) :
    semverAt U (major.text ++ '.' :: (minor.text ++ '.' :: (patch.text ++ rest))) =
      some (major.value, minor.value, patch.value, preRelease rest) := by
  simp only [semverAt, major.digits_text (ends_dot _), minor.digits_text (ends_dot _),
    patch.digits_text hrest, Option.bind_eq_bind, Option.bind_some, dot, Numeral.int_text]
  rfl

theorem semverSearch_of_semverAt {m : Nat × Nat × Nat × Str} (h : semverAt U s = some m) :
    semverSearch U s = some m := by
  cases s with
  | nil => cases h
  | cons c s =>
    rw [semverSearch, h]
    rfl

theorem parseVersion_numerals (major minor patch : Numeral) {rest : Str} (hrest : Ends U rest) :
    parseVersion U (major.text ++ '.' :: (minor.text ++ '.' :: (patch.text ++ rest))) =
      some (versionTuple major.value minor.value patch.value (preTuple (preRelease rest))) := by
  rw [parseVersion, semverSearch_of_semverAt (semverAt_numerals major minor patch hrest)]

theorem digits_suffix {ds rest : Str} (h : digits U s = some (ds, rest)) : rest <:+ s := by
  rw [digits] at h
  split at h
  · cases h
  · cases h
    exact List.dropWhile_suffix _

theorem dot_eq_some {rest : Str} (h : dot s = some rest) : s = '.' :: rest := by
  rw [dot.eq_def] at h
  split at h
  · cases h
    rfl
  · cases h

theorem count_dot_of_suffix {rest : Str} (h : '.' :: rest <:+ s) : rest.count '.' + 1 ≤ s.count '.' := by
  have hcount := h.sublist.count_le '.'
  rwa [List.count_cons_self] at hcount

theorem two_dots_of_semverAt {m : Nat × Nat × Nat × Str} (h : semverAt U s = some m) :
    2 ≤ s.count '.' := by
  simp only [semverAt, Option.bind_eq_bind, Option.bind_eq_some_iff, Prod.exists] at h
  obtain ⟨_,s₁,hmajor,s₂,hdot,_,s₃,hminor,s₄,hdot',_⟩ := h
  rw [dot_eq_some hdot] at hmajor
  rw [dot_eq_some hdot'] at hminor
  have hfirst := count_dot_of_suffix (digits_suffix hmajor)
  have hsecond := count_dot_of_suffix (digits_suffix hminor)
  omega

theorem semverSearch_eq_none (h : s.count '.' < 2) : semverSearch U s = none := by
  induction s with
  | nil => rfl
  | cons c s ih =>
    have hat : semverAt U (c :: s) = none := by
      cases hm : semverAt U (c :: s) with
      | none => rfl
      | some m => exact absurd (two_dots_of_semverAt hm) (not_le.mpr h)
    rw [semverSearch, hat, ih ((List.count_le_count_cons).trans_lt h)]
    rfl

end Search

section Tuple

theorem versionTuple_lt {a b c a' b' c' : Nat} {p p' : WithTop (List Identifier)} :
    versionTuple a b c p < versionTuple a' b' c' p' ↔
      a < a' ∨ a = a' ∧ (b < b' ∨ b = b' ∧ (c < c' ∨ c = c' ∧ p < p')) := by
  simp only [versionTuple, Prod.Lex.toLex_lt_toLex]

end Tuple

section PreRelease

theorem not_mem_intercalate {c : Char} (hc : c ≠ '.') {ids : List Str} (hids : ∀ s ∈ ids, c ∉ s) :
    c ∉ ['.'].intercalate ids := by
  induction ids with
  | nil => exact List.not_mem_nil
  | cons s ids ih =>
    have hs := hids s List.mem_cons_self
    have hrest := ih fun t ht => hids t (List.mem_cons_of_mem s ht)
    by_cases hnil : ids = []
    · rw [hnil, List.intercalate_singleton]
      exact hs
    · rw [List.intercalate_cons_of_ne_nil hnil]
      simp only [List.mem_append, List.mem_singleton, not_or]
      exact ⟨⟨hs, hc⟩, hrest⟩

theorem mem_intercalate {P : Char → Prop} (hdot : P '.') {ids : List Str} (hids : ∀ s ∈ ids, ∀ c ∈ s, P c) :
    ∀ c ∈ ['.'].intercalate ids, P c := by
  intro c hc
  by_contra hP
  have hne : c ≠ '.' := by
    rintro rfl
    exact hP hdot
  exact not_mem_intercalate hne (fun s hs hmem => hP (hids s hs c hmem)) hc

theorem preTuple_of_ne_nil {pre : Str} (hne : pre ≠ []) (hplus : '+' ∉ pre) :
    preTuple pre = WithTop.some ((pre.splitOn '.').map identifier) := by
  have hwhole : pre.takeWhile (· ≠ '+') = pre :=
    List.takeWhile_eq_self_iff.mpr fun c hc => decide_eq_true (ne_of_mem_of_not_mem hc hplus)
  rw [preTuple, hwhole]
  exact if_neg hne

theorem preTuple_intercalate {ids : List Str} (hne : ids ≠ [])
    (hids : ∀ s ∈ ids, s ≠ [] ∧ '.' ∉ s ∧ '+' ∉ s) :
    preTuple (['.'].intercalate ids) = WithTop.some (ids.map identifier) := by
  have hsplit := List.splitOn_intercalate '.' (fun s hs => (hids s hs).2.1) hne
  have hnonempty : ['.'].intercalate ids ≠ [] := by
    intro hnil
    rw [hnil] at hsplit
    cases ids with
    | nil => exact hne rfl
    | cons s ids => exact (hids s List.mem_cons_self).1 (List.cons.inj hsplit).1.symm
  rw [preTuple_of_ne_nil hnonempty (not_mem_intercalate (by decide) fun s hs => (hids s hs).2.2), hsplit]

def numeric (n : Nat) : Identifier := toLex (.inl (n : Int))

theorem numeric_lt {n m : Nat} (h : n < m) : numeric n < numeric m :=
  Sum.Lex.inl_lt_inl_iff.mpr (Int.ofNat_lt.mpr h)

theorem identifier_numeral (n : Numeral) : identifier n.text = numeric n.value := by
  have hhead : identifierInt n.text = (unsigned n.text).map fun n => (n : Int) := by
    rw [identifierInt.eq_def]
    split
    · next hs => exact absurd (hs ▸ List.mem_cons_self) (n.not_mem_text (by decide))
    · rfl
  have hsplit : n.text.splitOn '_' = [n.text] := by
    have hmem : ∀ s ∈ [n.text], '_' ∉ s := fun s hs => by
      rw [List.mem_singleton.mp hs]
      exact n.not_mem_text (by decide)
    simpa using List.splitOn_intercalate '_' hmem (List.cons_ne_nil n.text [])
  have hunsigned : unsigned n.text = some n.value := by
    rw [unsigned, hsplit]
    have hall : n.text.all Foundation.isDigit = true := List.all_eq_true.mpr n.isDigit
    simp [n.ne_nil, hall, Numeral.value]
  rw [identifier, hhead, hunsigned]
  rfl

end PreRelease

end PicoSentry.Scan.Version
