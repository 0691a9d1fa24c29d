import Mathlib.Data.List.Nodup
import PicoSentry.Foundation.Masking
import PicoSentry.Watch.FusedWhitespace

namespace PicoSentry.Watch.Normalizer

open Foundation Masking

section Neutral

variable {T : CharTables} {n : Char}

-- No pattern of the collapsing stages matches the character or asks for it beside a match.
structure Neutral (T : CharTables) (n : Char) : Prop where
  not_space : T.space n = false
  not_word : T.word n = false
  not_separator : isSeparator n = false
  not_stop : [',', '.', ';', '!', '?'].contains n = false

theorem neutral_zeroWidth {z : Char} (h : isZeroWidth z = true) : Neutral T z := by
  have hcode : z.toNat ∈ zeroWidth := List.contains_iff_mem.mp h
  have hspaces : ∀ n ∈ zeroWidth, whitespaceCodes.contains n = false := by decide
  have hformat : ∀ n ∈ zeroWidth, n ∈ formatCodes := by decide
  have hwide : ∀ n ∈ zeroWidth, 128 ≤ n := by decide
  have hne : ∀ {c : Char}, c.toNat < 128 → z ≠ c := by
    rintro c hc rfl
    exact absurd (hwide _ hcode) (by omega)
  refine ⟨?_, T.not_word_of_format z (hformat _ hcode), ?_, ?_⟩
  · rw [T.space_exact, hspaces _ hcode]
  · rw [isSeparator, beq_eq_false_iff_ne.mpr (hne (by decide)), beq_eq_false_iff_ne.mpr (hne (by decide)),
      beq_eq_false_iff_ne.mpr (hne (by decide)), beq_eq_false_iff_ne.mpr (hne (by decide))]
    rfl
  · rw [← Bool.not_eq_true, List.contains_iff_mem]
    intro hmem
    have hascii : ∀ c ∈ [',', '.', ';', '!', '?'], c.toNat < 128 := forall_mem_of_all (by decide)
    exact hne (hascii z hmem) rfl

theorem neutral_nul : Neutral T nul where
  not_space := space_of_ascii (by decide) (by decide)
  not_word := by
    rw [T.word_ascii _ (by decide)]
    decide
  not_separator := by decide
  not_stop := by decide

theorem severs_blanksAt (h : Neutral T n) : Severs (blanksAt T) n where
  first before rest := by
    rw [blanksAt, List.takeWhile_cons_of_neg (by simp [h.not_space]), if_pos (by decide)]
  behind _ _ hnone := hnone
  ahead before w y x hnone := by
    rw [blanksAt] at hnone ⊢
    have hstop := @run_stop T.space (n :: x) (fun c hc => by cases hc; exact h.not_space) w
    have hshort : (w.takeWhile T.space).length ≤ ((w ++ y).takeWhile T.space).length := by
      rw [List.takeWhile_append]
      split
      · rw [List.length_append]
        omega
      · exact Nat.le_refl _
    split at hnone
    · next hlength => rw [hstop.1, if_pos (by omega)]
    · cases hnone

theorem separatorAt_eq_none_iff {before : Option Char} {c : Char} {rest : Str} : separatorAt T before (c :: rest) = none ↔
    ¬(before.any T.word = true ∧ isSeparator c = true ∧ rest.head?.any T.word = true) := by
  cases rest with
  | nil => simp [separatorAt]
  | cons d rest =>
    rw [separatorAt]
    split
    · next hmatch =>
      rw [Bool.and_eq_true, Bool.and_eq_true, and_assoc] at hmatch
      exact iff_of_false (by simp) fun hnot => hnot hmatch
    · next hmatch =>
      rw [Bool.and_eq_true, Bool.and_eq_true, and_assoc] at hmatch
      exact iff_of_true rfl hmatch

theorem severs_separatorAt (h : Neutral T n) : Severs (separatorAt T) n where
  first before rest := separatorAt_eq_none_iff.mpr fun hmatch => by
    rw [h.not_separator] at hmatch
    exact Bool.false_ne_true hmatch.2.1
  behind before text _ := by
    cases text with
    | nil => rfl
    | cons c rest =>
      refine separatorAt_eq_none_iff.mpr fun hmatch => ?_
      rw [Option.any_some, h.not_word] at hmatch
      exact Bool.false_ne_true hmatch.1
  ahead before w y x hnone := by
    cases w with
    | nil =>
      refine separatorAt_eq_none_iff.mpr fun hmatch => ?_
      rw [h.not_separator] at hmatch
      exact Bool.false_ne_true hmatch.2.1
    | cons c w =>
      rw [List.cons_append] at hnone ⊢
      refine separatorAt_eq_none_iff.mpr fun hmatch => ?_
      cases w with
      | nil =>
        rw [List.nil_append, List.head?_cons, Option.any_some, h.not_word] at hmatch
        exact Bool.false_ne_true hmatch.2.2
      | cons d w => exact separatorAt_eq_none_iff.mp hnone hmatch

theorem readUnits_none {s c : Char} {rest : Str} (h : ¬(T.space s && T.word c) = true) :
    readUnits T (s :: c :: rest) = ([], s :: c :: rest) := by
  rw [readUnits, if_neg h]

theorem readUnits_short {rest : Str} (h : ∀ s c tail, rest = s :: c :: tail → False) : readUnits T rest = ([], rest) := by
  cases rest with
  | nil => rfl
  | cons s rest =>
    cases rest with
    | nil => rfl
    | cons c rest => exact absurd rfl (h s c rest)

theorem readUnits_eq_nil {w : Str} (h : ∀ s c tail, w = s :: c :: tail → ¬T.space s = true) : readUnits T w = ([], w) := by
  cases w with
  | nil => rfl
  | cons s w =>
    cases w with
    | nil => rfl
    | cons c w => exact readUnits_none (by simp [h s c w rfl])

theorem readUnits_parts (w : Str) : (readUnits T w).1 ++ (readUnits T w).2 = w := by
  induction w using readUnits.induct T with
  | case1 s c rest hunit ih =>
    rw [readUnits, if_pos hunit]
    dsimp only
    rw [List.cons_append, List.cons_append, ih]
  | case2 s c rest hunit => rw [readUnits_none hunit, List.nil_append]
  | case3 rest hshort => rw [readUnits_short hshort, List.nil_append]

theorem readUnits_two {w : Str} (h : (readUnits T w).1 ≠ []) : 2 ≤ (readUnits T w).1.length := by
  rw [readUnits.eq_def] at h ⊢
  split at h
  · next hw =>
    split at h
    · next hunit =>
      simp only [hunit, if_true, List.length_cons]
      omega
    · exact absurd rfl h
  · exact absurd rfl h

theorem readUnits_append (w y : Str) :
    readUnits T (w ++ y) = ((readUnits T w).1 ++ (readUnits T ((readUnits T w).2 ++ y)).1,
      (readUnits T ((readUnits T w).2 ++ y)).2) := by
  induction w using readUnits.induct T with
  | case1 s c rest hunit ih =>
    rw [List.cons_append, List.cons_append, readUnits, if_pos hunit, ih, readUnits, if_pos hunit]
    rfl
  | case2 s c rest hunit =>
    rw [readUnits_none hunit]
    rfl
  | case3 rest hshort =>
    rw [readUnits_short hshort]
    rfl

theorem spacedSingleChar_eq_none_iff {before : Option Char} {c : Char} {rest : Str} :
    spacedSingleChar T before (c :: rest) = none ↔ ¬(before.all T.space = true ∧ T.word c = true ∧
      (unitsEnd T (readUnits T rest).2 = true ∧ 4 ≤ (readUnits T rest).1.length ∨ 6 ≤ (readUnits T rest).1.length)) := by
  rw [spacedSingleChar]
  by_cases hhead : before.all T.space = true ∧ T.word c = true
  · rw [if_pos (by simpa using hhead)]
    dsimp only
    split
    · next hend =>
      split
      · next hshort => exact iff_of_true rfl (by omega)
      · next hlong => exact iff_of_false (by simp) fun hnot => hnot ⟨hhead.1, hhead.2, .inl ⟨hend, by omega⟩⟩
    · next hend =>
      split
      · next hshort =>
        refine iff_of_true rfl fun hmatch => ?_
        rcases hmatch.2.2 with hmatch | hmatch
        · exact hend hmatch.1
        · omega
      · next hlong => exact iff_of_false (by simp) fun hnot => hnot ⟨hhead.1, hhead.2, .inr (by omega)⟩
  · rw [if_neg (by simpa using hhead)]
    exact iff_of_true rfl fun hmatch => hhead ⟨hmatch.1, hmatch.2.1⟩

theorem readUnits_left (w : Str) : readUnits T (readUnits T w).2 = ([], (readUnits T w).2) := by
  induction w using readUnits.induct T with
  | case1 s c rest hunit ih =>
    rw [readUnits, if_pos hunit]
    exact ih
  | case2 s c rest hunit =>
    rw [readUnits_none hunit, readUnits_none hunit]
  | case3 rest hshort => rw [readUnits_short hshort, readUnits_short hshort]

theorem readUnits_severed (h : Neutral T n) {w : Str} (hw : readUnits T w = ([], w)) (x : Str) :
    readUnits T (w ++ n :: x) = ([], w ++ n :: x) := by
  cases w with
  | nil =>
    cases x with
    | nil => rfl
    | cons d x => exact readUnits_none (by simp [h.not_space])
  | cons s w =>
    cases w with
    | nil => exact readUnits_none (by simp [h.not_word])
    | cons c w =>
      rw [readUnits] at hw
      split at hw
      · cases (Prod.mk.inj hw).1
      · next hunit => exact readUnits_none hunit

theorem severs_spacedSingleChar (h : Neutral T n) : Severs (spacedSingleChar T) n where
  first before rest := spacedSingleChar_eq_none_iff.mpr fun hmatch => by
    rw [h.not_word] at hmatch
    exact Bool.false_ne_true hmatch.2.1
  behind before text _ := by
    cases text with
    | nil => rfl
    | cons c rest =>
      refine spacedSingleChar_eq_none_iff.mpr fun hmatch => ?_
      rw [Option.all_some, h.not_space] at hmatch
      exact Bool.false_ne_true hmatch.1
  ahead before w y x hnone := by
    cases w with
    | nil =>
      refine spacedSingleChar_eq_none_iff.mpr fun hmatch => ?_
      rw [h.not_word] at hmatch
      exact Bool.false_ne_true hmatch.2.1
    | cons c w =>
      have hcut : readUnits T (w ++ n :: x) = ((readUnits T w).1, (readUnits T w).2 ++ n :: x) := by
        rw [readUnits_append, readUnits_severed h (readUnits_left w), List.append_nil]
      rw [List.cons_append] at hnone ⊢
      refine spacedSingleChar_eq_none_iff.mpr fun hmatch => spacedSingleChar_eq_none_iff.mp hnone ?_
      rw [hcut] at hmatch
      obtain ⟨hbefore,hword,hmatch⟩ := hmatch
      refine ⟨hbefore, hword, ?_⟩
      rw [readUnits_append]
      dsimp only at hmatch ⊢
      rw [List.length_append]
      rcases hmatch with ⟨hend,hlong⟩ | hlong
      · by_cases hmore : (readUnits T ((readUnits T w).2 ++ y)).1 = []
        · have hparts := readUnits_parts (T := T) ((readUnits T w).2 ++ y)
          rw [hmore, List.nil_append] at hparts
          refine .inl ⟨?_, by omega⟩
          rw [hparts]
          -- What ends the run stands in front of the severing character.
          cases hleft : (readUnits T w).2 with
          | nil =>
            rw [hleft, List.nil_append, unitsEnd, h.not_space, h.not_stop] at hend
            cases hend
          | cons d left =>
            rw [hleft] at hend
            exact hend
        · have htwo := readUnits_two (T := T) hmore
          exact .inr (by omega)
      · exact .inr (by omega)

end Neutral

section Inserted

inductive Inserted : Str → Str → Prop where
  | nil : Inserted [] []
  | keep {text other : Str} (c : Char) (h : Inserted text other) : Inserted (c :: text) (c :: other)
  | insert {text other : Str} {z : Char} (hz : isZeroWidth z = true) (h : Inserted text other) : Inserted text (z :: other)

variable {text other : Str}

theorem inserted_refl (text : Str) : Inserted text text := by
  induction text with
  | nil => exact .nil
  | cons c text ih => exact ih.keep c

theorem Inserted.append {text' other' : Str} (h : Inserted text other) (h' : Inserted text' other') :
    Inserted (text ++ text') (other ++ other') := by
  induction h with
  | nil => exact h'
  | keep c _ ih => exact ih.keep c
  | insert hz _ ih => exact ih.insert hz

theorem deobfuscate_inserted (h : Inserted text other) : deobfuscateMarkdown other = deobfuscateMarkdown text := by
  induction h with
  | nil => rfl
  | keep c _ ih =>
    rw [deobfuscateMarkdown, deobfuscateMarkdown, List.filter_cons, List.filter_cons, ← deobfuscateMarkdown,
      ← deobfuscateMarkdown, ih]
  | insert hz _ ih =>
    rw [deobfuscateMarkdown, List.filter_cons_of_neg (by simp [hz]), ← deobfuscateMarkdown, ih]

theorem Inserted.split {left right : Str} (h : Inserted text (left ++ right)) :
    ∃ u v, text = u ++ v ∧ Inserted u left ∧ Inserted v right := by
  induction left generalizing text with
  | nil => exact ⟨[], text, rfl, .nil, h⟩
  | cons c left ih =>
    cases h with
    | keep _ h =>
      obtain ⟨u,v,rfl,hu,hv⟩ := ih h
      exact ⟨c :: u, v, rfl, hu.keep c, hv⟩
    | insert hz h =>
      obtain ⟨u,v,rfl,hu,hv⟩ := ih h
      exact ⟨u, v, rfl, hu.insert hz, hv⟩

theorem Inserted.eq_of_visible (h : Inserted text other) (hvisible : ∀ c ∈ other, isZeroWidth c = false) :
    text = other := by
  induction h with
  | nil => rfl
  | keep c _ ih => rw [ih fun d hd => hvisible d (List.mem_cons_of_mem _ hd)]
  | insert hz _ _ =>
    rw [hvisible _ List.mem_cons_self] at hz
    cases hz

theorem Inserted.inside (h : Inserted text other) {w : Str} (hw : ∀ c ∈ w, isZeroWidth c = false) (hinside : w <:+: other) :
    w <:+: text := by
  obtain ⟨left,right,rfl⟩ := hinside
  obtain ⟨u,_,rfl,hleft,_⟩ := h.split
  obtain ⟨u,w',rfl,_,hmiddle⟩ := hleft.split
  rw [hmiddle.eq_of_visible hw]
  exact ⟨u, _, rfl⟩

theorem Inserted.map {f : Char → Char} (hf : ∀ z, isZeroWidth z = true → isZeroWidth (f z) = true)
    (h : Inserted text other) : Inserted (text.map f) (other.map f) := by
  induction h with
  | nil => exact .nil
  | keep c _ ih => exact ih.keep (f c)
  | insert hz _ ih => exact ih.insert (hf _ hz)

theorem Inserted.follows (h : Inserted text other) : ∃ z, isZeroWidth z = true ∧ Follows z text other := by
  induction h with
  | nil => exact ⟨Char.ofNat 0x200B, by decide, .inl rfl⟩
  | keep c _ ih =>
    obtain ⟨z,hz,hfollows⟩ := ih
    exact ⟨z, hz, hfollows.cons c⟩
  | @insert text other z hz _ _ => exact ⟨z, hz, .inr ⟨[], text, other, rfl, rfl⟩⟩

theorem Inserted.quiet {matchAt : Matcher Str} (hsevers : ∀ z, isZeroWidth z = true → Severs matchAt z)
    (h : Inserted text other) {before : Option Char} (hquiet : Quiet matchAt before text) :
    Quiet matchAt before other := by
  induction h generalizing before with
  | nil => trivial
  | keep c h ih =>
    obtain ⟨z,hz,hfollows⟩ := h.follows
    exact ⟨(hfollows.cons c).none (hsevers z hz) hquiet.1, ih hquiet.2⟩
  | insert hz _ ih => exact ⟨(hsevers _ hz).first _ _, ih (hquiet.behind (hsevers _ hz))⟩

end Inserted

section Inert

variable {T : CharTables} {text other : Str}

def Encloses (startMark endMark text : Str) : Prop := ∃ u v w, text = u ++ (startMark ++ (v ++ (endMark ++ w)))

def SolidEnds (T : CharTables) (text : Str) : Prop :=
  (∀ c, text.head? = some c → T.space c = false) ∧ ∀ c, text.getLast? = some c → T.space c = false

-- No pattern of the collapsing stages matches, there is nothing to strip, and there are neither
-- comments nor two slashes that are none only for what stands beside them.
structure Inert (T : CharTables) (text : Str) : Prop where
  letters : Quiet (spacedSingleChar T) none text
  blanks : Quiet (blanksAt T) none text
  separators : Quiet (separatorAt T) none text
  ends : SolidEnds T text
  slashes : ¬"//".toList <:+: text
  html : ¬Encloses "<!--".toList "-->".toList text
  block : ¬Encloses "/*".toList "*/".toList text

theorem Inserted.encloses {startMark endMark : Str} (hstart : ∀ c ∈ startMark, isZeroWidth c = false)
    (hend : ∀ c ∈ endMark, isZeroWidth c = false) (h : Inserted text other) (hother : Encloses startMark endMark other) :
    Encloses startMark endMark text := by
  obtain ⟨u,v,w,rfl⟩ := hother
  obtain ⟨u',_,rfl,_,h⟩ := h.split
  obtain ⟨_,_,rfl,hopen,h⟩ := h.split
  obtain ⟨v',_,rfl,_,h⟩ := h.split
  obtain ⟨_,w',rfl,hclose,_⟩ := h.split
  rw [hopen.eq_of_visible hstart, hclose.eq_of_visible hend]
  exact ⟨u', v', w', rfl⟩

theorem Inserted.solidEnds (h : Inserted text other) (hends : SolidEnds T text) : SolidEnds T other := by
  have hvisible : ∀ {c : Char}, T.space c = true → ∀ d ∈ [c], isZeroWidth d = false := by
    intro c hc d hd
    rw [List.mem_singleton.mp hd, ← Bool.not_eq_true]
    intro hz
    rw [(neutral_zeroWidth hz).not_space] at hc
    cases hc
  refine ⟨fun c hc => ?_, fun c hc => ?_⟩
  · obtain ⟨rest,rfl⟩ := List.head?_eq_some_iff.mp hc
    rw [← Bool.not_eq_true]
    intro hspace
    obtain ⟨u,v,rfl,hfirst,_⟩ := @Inserted.split text [c] rest h
    rw [hfirst.eq_of_visible (hvisible hspace)] at hends
    rw [hends.1 c rfl] at hspace
    cases hspace
  · obtain ⟨front,rfl⟩ := List.getLast?_eq_some_iff.mp hc
    rw [← Bool.not_eq_true]
    intro hspace
    obtain ⟨u,v,rfl,_,hlast⟩ := h.split
    rw [hlast.eq_of_visible (hvisible hspace)] at hends
    rw [hends.2 c List.getLast?_concat] at hspace
    cases hspace

theorem Inserted.inert (h : Inserted text other) (hinert : Inert T text) : Inert T other where
  letters := h.quiet (fun _ hz => severs_spacedSingleChar (neutral_zeroWidth hz)) hinert.letters
  blanks := h.quiet (fun _ hz => severs_blanksAt (neutral_zeroWidth hz)) hinert.blanks
  separators := h.quiet (fun _ hz => severs_separatorAt (neutral_zeroWidth hz)) hinert.separators
  ends := h.solidEnds hinert.ends
  slashes hinside := hinert.slashes (h.inside (forall_mem_of_all (by decide)) hinside)
  html hother := hinert.html (h.encloses (forall_mem_of_all (by decide)) (forall_mem_of_all (by decide)) hother)
  block hother := hinert.block (h.encloses (forall_mem_of_all (by decide)) (forall_mem_of_all (by decide)) hother)

end Inert

section Flat

variable {T : CharTables} {text : Str}

def flat (c : Char) : Char := wsToSpace (if c = '\r' then '\n' else c)

def flattened (text : Str) : Str := deobfuscateMarkdown (text.map flat)

theorem flat_cases (c : Char) : flat c = c ∨ flat c = ' ' ∨ flat c = '\n' := by
  by_cases hc : c = '\r'
  · rw [hc]
    exact .inr (.inr (by decide))
  · rw [flat, if_neg hc, wsToSpace]
    split
    · exact .inr (.inl rfl)
    · exact .inl rfl

theorem flat_eq {c d : Char} (h : flat c = d) (hd : d ≠ ' ' ∧ d ≠ '\n') : c = d := by
  rcases flat_cases c with hc | hc | hc
  · rw [← hc, h]
  · exact absurd (h ▸ hc) hd.1
  · exact absurd (h ▸ hc) hd.2

theorem flat_eq_self {c : Char} (h : T.space c = false) : flat c = c := by
  have hne : c ≠ '\r' := by
    rintro rfl
    rw [space_carriageReturn] at h
    cases h
  rw [flat, if_neg hne, wsToSpace_eq_self (.inl h)]

theorem space_flat (c : Char) : T.space (flat c) = T.space c := by
  rw [flat, space_wsToSpace]
  split
  · next hc => rw [hc, space_lineFeed, space_carriageReturn]
  · rfl

theorem fusedWhitespace_flat (text : Str) : fusedWhitespace T text = T.strip (text.map flat) := by
  rw [fusedWhitespace, replaceStr_char, List.map_map]
  rfl

theorem flattened_inserted {other : Str} (h : Inserted text other) : flattened other = flattened text := by
  refine deobfuscate_inserted (h.map fun z hz => ?_)
  rw [flat_eq_self (T := .basic) (neutral_zeroWidth hz).not_space]
  exact hz

theorem map_flat_begins {w rest : Str} {left : Str} (hw : ∀ c ∈ w, c ≠ ' ' ∧ c ≠ '\n')
    (h : left.map flat = w ++ rest) : ∃ tail, left = w ++ tail ∧ tail.map flat = rest := by
  obtain ⟨w',tail,rfl,hw',htail⟩ := List.map_eq_append_iff.mp h
  refine ⟨tail, ?_, htail⟩
  have heq : w'.map flat = w'.map id := by
    refine List.map_congr_left fun c hc => ?_
    exact (flat_eq rfl (hw _ (hw' ▸ List.mem_map_of_mem hc))).symm
  rw [← hw', heq, List.map_id]

theorem slashes_flat (h : "//".toList <:+: text.map flat) : "//".toList <:+: text := by
  obtain ⟨u,v,heq⟩ := h
  rw [List.append_assoc] at heq
  obtain ⟨left,right,rfl,_,hright⟩ := List.map_eq_append_iff.mp heq.symm
  obtain ⟨tail,rfl,_⟩ := map_flat_begins (forall_mem_of_all (by decide)) hright
  exact ⟨left, tail, by rw [List.append_assoc]⟩

theorem encloses_flat {startMark endMark : Str} (hstart : ∀ c ∈ startMark, c ≠ ' ' ∧ c ≠ '\n')
    (hend : ∀ c ∈ endMark, c ≠ ' ' ∧ c ≠ '\n') (h : Encloses startMark endMark (text.map flat)) :
    Encloses startMark endMark text := by
  obtain ⟨u,v,w,heq⟩ := h
  obtain ⟨left,right,rfl,_,hright⟩ := List.map_eq_append_iff.mp heq
  obtain ⟨tail,rfl,htail⟩ := map_flat_begins hstart hright
  obtain ⟨middle,last,rfl,_,hlast⟩ := List.map_eq_append_iff.mp htail
  obtain ⟨tail,rfl,_⟩ := map_flat_begins hend hlast
  exact ⟨left, middle, tail, rfl⟩

end Flat

section Late

variable {T : CharTables} {text : Str}

theorem strip_solid (h : SolidEnds T text) : T.strip text = text := by
  rw [Unicode.strip_eq_rdropWhile_of_head h.1, List.rdropWhile_eq_self_iff]
  intro hne hlast
  rw [h.2 _ (List.getLast?_eq_some_getLast hne)] at hlast
  cases hlast

theorem stripDelimited_eq_self {startMark endMark : Str} (fuel : Nat) (h : ¬Encloses startMark endMark text) :
    stripDelimited startMark endMark fuel text = text := by
  cases fuel with
  | zero => rfl
  | succ fuel =>
    rw [stripDelimited]
    split
    · rfl
    · next before rest hopen =>
      split
      · rfl
      · next between after hclose =>
        refine absurd ⟨before, between, after, ?_⟩ h
        rw [(splitOnce_eq_some hopen).1, (splitOnce_eq_some hclose).1, List.append_assoc, List.append_assoc]

theorem lineComment_quiet {before : Option Char} (h : ¬"//".toList <:+: text) : Quiet lineComment before text := by
  induction text generalizing before with
  | nil => trivial
  | cons c rest ih =>
    refine ⟨?_, ih fun hinside => h (hinside.trans (List.suffix_cons c rest).isInfix)⟩
    rw [lineComment]
    split
    · rfl
    · rw [literal, if_neg fun hbegins => h hbegins.isInfix]
      rfl

theorem stripComments_eq_self (hslashes : ¬"//".toList <:+: text) (hhtml : ¬Encloses "<!--".toList "-->".toList text)
    (hblock : ¬Encloses "/*".toList "*/".toList text) : stripComments text = text := by
  rw [stripComments, stripDelimited_eq_self _ hhtml, stripDelimited_eq_self _ hblock]
  exact (lineComment_quiet hslashes).sub

theorem fusedWhitespace_solid (hends : SolidEnds T text) : fusedWhitespace T text = text.map flat := by
  rw [fusedWhitespace_flat]
  refine strip_solid ⟨fun c hc => ?_, fun c hc => ?_⟩
  · rw [List.head?_map] at hc
    obtain ⟨d,hd,rfl⟩ := Option.map_eq_some_iff.mp hc
    rw [space_flat]
    exact hends.1 d hd
  · rw [List.getLast?_map] at hc
    obtain ⟨d,hd,rfl⟩ := Option.map_eq_some_iff.mp hc
    rw [space_flat]
    exact hends.2 d hd

theorem late_inert (hends : SolidEnds T text) (hslashes : ¬"//".toList <:+: text)
    (hhtml : ¬Encloses "<!--".toList "-->".toList text) (hblock : ¬Encloses "/*".toList "*/".toList text) :
    deobfuscateMarkdown (stripComments (fusedWhitespace T text)) = flattened text := by
  rw [fusedWhitespace_solid hends, stripComments_eq_self (mt slashes_flat hslashes)
    (mt (encloses_flat (forall_mem_of_all (by decide)) (forall_mem_of_all (by decide))) hhtml)
    (mt (encloses_flat (forall_mem_of_all (by decide)) (forall_mem_of_all (by decide))) hblock)]
  rfl

end Late

section Placeholders

theorem isDigit_of_mem_decimal {n : Nat} {c : Char} (h : c ∈ decimal n) : isDigit c = true := by
  obtain ⟨d,ds,heq,hdigits,_⟩ := decimal_spec n
  exact hdigits c (heq ▸ h)

theorem nul_not_mem_decimal (n : Nat) : nul ∉ decimal n := fun h => by
  have hdigit := isDigit_of_mem_decimal h
  exact absurd hdigit (by decide)

theorem sealed_placeholder {name : String} (hname : nul ∉ name.toList) (idx : Nat) :
    Sealed nul [name.toList] (placeholder name idx) := by
  refine ⟨name.toList, List.mem_singleton_self _, decimal idx, rfl, fun h => ?_⟩
  rcases List.mem_append.mp h with h | h
  · exact hname h
  · exact nul_not_mem_decimal idx h

theorem placeholder_injective {name : String} {idx idx' : Nat} (h : placeholder name idx = placeholder name idx') :
    idx = idx' := by
  rw [placeholder, placeholder] at h
  have hbody := (List.append_inj' h rfl).1
  exact decimal_injective (List.append_cancel_left (List.cons.inj hbody).2)

theorem nodup_numbered (name : String) (originals : List Str) : ((numbered name originals).map Prod.fst).Nodup := by
  have hmap : (numbered name originals).map Prod.fst = (originals.zipIdx.map Prod.snd).map (placeholder name) := by
    rw [numbered, List.map_map, List.map_map]
    rfl
  rw [hmap, List.zipIdx_map_snd]
  exact List.Nodup.map (fun _ _ => placeholder_injective) (List.nodup_range' 1)

theorem mem_numbered_placeholder {name : String} {originals : List Str} {pair : Str × Str}
    (h : pair ∈ numbered name originals) : ∃ idx, pair.1 = placeholder name idx := by
  obtain ⟨⟨original,idx⟩,_,rfl⟩ := List.mem_map.mp h
  exact ⟨idx, rfl⟩

end Placeholders

section Middle

variable {T : CharTables} {text : Str}

theorem readUnits_solid {w : Str} (h : ∀ c ∈ w, T.space c = false) : readUnits T w = ([], w) := by
  refine readUnits_eq_nil fun s c tail hw => ?_
  rw [h s (by simp [hw])]
  exact Bool.false_ne_true

theorem letters_solid {w : Str} (h : ∀ c ∈ w, T.space c = false) (before : Option Char) :
    Quiet (spacedSingleChar T) before w := by
  induction w generalizing before with
  | nil => trivial
  | cons c w ih =>
    refine ⟨spacedSingleChar_eq_none_iff.mpr ?_, ih (fun d hd => h d (List.mem_cons_of_mem _ hd)) _⟩
    simp [readUnits_solid fun d hd => h d (List.mem_cons_of_mem _ hd)]

theorem blanks_solid {w : Str} (h : ∀ c ∈ w, T.space c = false) (before : Option Char) :
    Quiet (blanksAt T) before w := by
  induction w generalizing before with
  | nil => trivial
  | cons c w ih =>
    refine ⟨?_, ih (fun d hd => h d (List.mem_cons_of_mem _ hd)) _⟩
    simp [blanksAt, h c]

theorem separators_plain {w : Str} (h : ∀ c ∈ w, isSeparator c = false) (before : Option Char) :
    Quiet (separatorAt T) before w := by
  induction w generalizing before with
  | nil => trivial
  | cons c w ih =>
    refine ⟨separatorAt_eq_none_iff.mpr ?_, ih (fun d hd => h d (List.mem_cons_of_mem _ hd)) _⟩
    simp [h c]

theorem quiet_placeholder_body {idx : Nat} {body : Str} (h : placeholder "LLMTOKEN" idx = nul :: body ++ [nul]) :
    ∀ c ∈ body, T.space c = false ∧ isSeparator c = false := by
  have hbody : "LLMTOKEN".toList ++ decimal idx = body :=
    (List.cons.inj (List.append_inj' h rfl).1).2
  intro c hc
  rw [← hbody] at hc
  have hplain : ∀ {d : Char}, d.toNat < 128 → asciiSpaces.contains d.toNat = false → isSeparator d = false →
      T.space d = false ∧ isSeparator d = false := fun hascii hnot hseparator => ⟨space_of_ascii hascii hnot, hseparator⟩
  rcases List.mem_append.mp hc with hletter | hdigit
  · have hletters : ∀ d ∈ "LLMTOKEN".toList,
        d.toNat < 128 ∧ asciiSpaces.contains d.toNat = false ∧ isSeparator d = false := forall_mem_of_all (by decide)
    obtain ⟨hascii,hnot,hseparator⟩ := hletters c hletter
    exact hplain hascii hnot hseparator
  · have hdigits : ∀ n < 58, 48 ≤ n → asciiSpaces.contains n = false ∧ isSeparator (Char.ofNat n) = false := by decide
    have hrange := isDigit_of_mem_decimal hdigit
    rw [isDigit, Bool.and_eq_true, decide_eq_true_eq, decide_eq_true_eq] at hrange
    obtain ⟨hnot,hseparator⟩ := hdigits c.toNat (by omega) hrange.1
    rw [Char.ofNat_toNat] at hseparator
    exact hplain (by omega) hnot hseparator

def markerPairs (text : Str) : List (Str × Str) :=
  if "<|".toList <:+: text then numbered "LLMTOKEN" (finditer llmTokenMarker text) else []

theorem mem_markerPairs {pair : Str × Str} (h : pair ∈ markerPairs text) :
    (∃ idx, pair.1 = placeholder "LLMTOKEN" idx) ∧ pair.2 ∈ finditer llmTokenMarker text := by
  rw [markerPairs] at h
  split at h
  · exact ⟨mem_numbered_placeholder h, (mem_numbered h).2⟩
  · cases h

theorem protect_quiet {matchAt : Matcher Str} (hsevers : Severs matchAt nul) {pairs : List (Str × Str)}
    (hpairs : ∀ pair ∈ pairs, pair.2 ≠ [] ∧ (∃ word, Sealed nul [word] pair.1) ∧
      ∀ body, pair.1 = nul :: body ++ [nul] → Quiet matchAt none body)
    (hquiet : Quiet matchAt none text) : Quiet matchAt none (protect pairs text) := by
  induction pairs generalizing text with
  | nil => exact hquiet
  | cons pair pairs ih =>
    obtain ⟨hne,⟨word,hsealed⟩,hbody⟩ := hpairs pair List.mem_cons_self
    refine ih (fun other hother => hpairs other (List.mem_cons_of_mem _ hother)) ?_
    have hsealed : ∀ other ∈ [(pair.1, pair.2)], Sealed nul [word] other.1 := by
      intro other hother
      rw [List.mem_singleton.mp hother]
      exact hsealed
    refine (masked_replaceStr hne pair.1 text).quiet hsevers hsealed ?_ hquiet
    intro other hother
    rw [List.mem_singleton.mp hother]
    exact hbody

theorem markerPairs_severed (T : CharTables) (text : Str) {matchAt : Matcher Str} (hbody : ∀ body : Str, (∀ c ∈ body, T.space c = false ∧
    isSeparator c = false) → Quiet matchAt none body) {pair : Str × Str} (h : pair ∈ markerPairs text) :
    pair.2 ≠ [] ∧ (∃ word, Sealed nul [word] pair.1) ∧ ∀ body, pair.1 = nul :: body ++ [nul] → Quiet matchAt none body := by
  obtain ⟨⟨idx,hidx⟩,hfound⟩ := mem_markerPairs h
  rw [hidx]
  refine ⟨?_, ⟨_, sealed_placeholder (by decide) idx⟩, fun body heq => hbody body (quiet_placeholder_body heq)⟩
  obtain ⟨_,_,_,_,_,hmatch⟩ := mem_finditer.mp hfound
  obtain ⟨c,rest,heq,_⟩ := (llmTokenMarker_firm (T := T) _ _ _ _ hmatch).2.1
  rw [heq]
  exact List.cons_ne_nil _ _

theorem spacedAt_quiet {before : Option Char} (h : Quiet (spacedSingleChar T) before text) :
    Quiet (spacedAt T) before text := by
  induction text generalizing before with
  | nil => trivial
  | cons c rest ih =>
    refine ⟨?_, ih h.2⟩
    rw [spacedAt, h.1]
    rfl

theorem collapse_quiet (hletters : Quiet (spacedSingleChar T) none text) (hblanks : Quiet (blanksAt T) none text) :
    collapseSpacedText T text = text := by
  rw [collapseSpacedText, show sub (spacedAt T) text = text from (spacedAt_quiet hletters).sub]
  exact hblanks.sub

theorem spaceSeparators_quiet (h : Quiet (separatorAt T) none text) : spaceSeparators T text = text := by
  rw [spaceSeparators, show finditer (separatorAt T) text = [] from h.finditer, if_pos rfl]

theorem digitDotDigitAt_parts {rest : Str} (h : digitDotDigitAt T rest = true) :
    ∃ a b tail, rest = a :: '.' :: b :: tail ∧ isDecimal T a = true ∧ isDecimal T b = true := by
  rw [digitDotDigitAt.eq_def] at h
  split at h
  · next a b tail =>
    obtain ⟨ha,hb⟩ := Bool.and_eq_true_iff.mp h
    exact ⟨a, b, tail, rfl, ha, hb⟩
  · cases h

theorem not_dotted_of_quiet (h : Quiet (separatorAt T) none text) : ¬text.tails.any (digitDotDigitAt T) = true := by
  rw [List.any_eq_true]
  rintro ⟨rest,hmem,hdots⟩
  obtain ⟨u,rfl⟩ := (List.mem_tails _ _).mp hmem
  obtain ⟨a,b,tail,rfl,ha,hb⟩ := digitDotDigitAt_parts hdots
  have hquiet := Quiet.of_append h
  exact separatorAt_eq_none_iff.mp hquiet.2.1 ⟨T.word_of_digit a ha, rfl, T.word_of_digit b hb⟩

theorem placeholders_inert (h : Inert T text) : placeholders T text = markerPairs text := by
  have hurl : ¬"://".toList <:+: text := fun hinside =>
    h.slashes (List.IsInfix.trans ⟨[':'], [], rfl⟩ hinside)
  have hip := not_dotted_of_quiet h.separators
  rw [placeholders, if_neg hurl, if_neg hip, List.append_nil, List.append_nil, markerPairs]

theorem middle_inert (h : Inert T text) : collapseSeparatorPunctuation T (collapseSpacedText T text) =
    restore (markerPairs text) (protect (markerPairs text) text) := by
  have hseparators := protect_quiet (severs_separatorAt neutral_nul)
    (fun _ => markerPairs_severed T text fun _ hbody => separators_plain (fun c hc => (hbody c hc).2) none) h.separators
  have hletters := protect_quiet (severs_spacedSingleChar neutral_nul)
    (fun _ => markerPairs_severed T text fun _ hbody => letters_solid (fun c hc => (hbody c hc).1) none) h.letters
  have hblanks := protect_quiet (severs_blanksAt neutral_nul)
    (fun _ => markerPairs_severed T text fun _ hbody => blanks_solid (fun c hc => (hbody c hc).1) none) h.blanks
  rw [collapse_quiet h.letters h.blanks, collapseSeparatorPunctuation, placeholders_inert h, spaceSeparators_quiet hseparators, collapse_quiet hletters hblanks]

def MarkersRestored (T : CharTables) (text : Str) : Prop :=
  deobfuscateMarkdown (stripComments (fusedWhitespace T (restore (markerPairs text) (protect (markerPairs text) text)))) =
    flattened text

theorem normalize_inert {nfkc : Str → Str} (hnfkc : nfkc text = text) (h : Inert T text) :
    normalize T nfkc text = flattened text ↔ MarkersRestored T text := by
  rw [normalize, hnfkc, MarkersRestored, middle_inert h]

theorem marker_clear {original : Str} (h : original ∈ finditer llmTokenMarker text)
    (hfree : ¬"LLMTOKEN".toList <:+: text) (idx : Nat) :
    original ≠ [] ∧ Clear original (placeholder "LLMTOKEN" idx) := by
  obtain ⟨passed,rest,after,hreached,_,hmatch⟩ := mem_finditer.mp h
  have htext : passed ++ rest = text := hreached.append
  obtain ⟨hrest,⟨c,tail,horiginal,_⟩,_⟩ := llmTokenMarker_firm (T := .basic) _ _ _ _ hmatch
  obtain ⟨opened,_,hmatch⟩ := Option.bind_eq_some_iff.mp hmatch
  obtain ⟨behind,_,hmatch⟩ := Option.bind_eq_some_iff.mp hmatch
  split at hmatch
  · cases hmatch
  · obtain ⟨hshape,_⟩ := Prod.mk.inj (Option.some.inj hmatch)
    have hne : original ≠ [] := by
      rw [horiginal]
      exact List.cons_ne_nil _ _
    have hnone : ∀ {d : Char}, d ∉ "LLMTOKEN".toList → isDigit d = false → d ≠ nul →
        d ∉ placeholder "LLMTOKEN" idx := by
      intro d hletter hdigit hnul hmem
      rcases List.mem_append.mp hmem with hmem | hmem
      · rcases List.mem_cons.mp hmem with hmem | hmem
        · exact hnul hmem
        · rcases List.mem_append.mp hmem with hmem | hmem
          · exact hletter hmem
          · rw [isDigit_of_mem_decimal hmem] at hdigit
            cases hdigit
      · exact hnul (List.mem_singleton.mp hmem)
    refine ⟨hne, clear_of_ends hne ?_ ?_ ?_⟩
    · intro d hd
      rw [← hshape] at hd
      cases hd
      exact hnone (by decide) (by decide) (by decide)
    · intro d hd
      rw [← hshape, List.getLast?_append_of_ne_nil _ (by decide)] at hd
      cases hd
      exact hnone (by decide) (by decide) (by decide)
    · intro hinside
      refine hfree (List.IsInfix.trans ⟨[nul], decimal idx ++ [nul], ?_⟩ (hinside.trans ⟨passed, after, ?_⟩))
      · simp [placeholder]
      · rw [List.append_assoc, ← hrest, htext]

theorem markersRestored_of_free (h : Inert T text) (hfree : ¬"LLMTOKEN".toList <:+: text) : MarkersRestored T text := by
  have hprotected : Masked (markerPairs text) text (protect (markerPairs text) text) := by
    refine masked_protect (fun pair hpair => ⟨?_, fun other hother => ?_⟩) (List.Subset.refl _) (masked_refl _ text)
    · exact (marker_clear (mem_markerPairs hpair).2 hfree 0).1
    · obtain ⟨idx,hidx⟩ := (mem_markerPairs hother).1
      rw [hidx]
      exact ⟨List.cons_ne_nil _ _, (marker_clear (mem_markerPairs hpair).2 hfree idx).2⟩
  have hrestored : restore (markerPairs text) (protect (markerPairs text) text) = text := by
    have hsealed : ∀ pair ∈ markerPairs text, Sealed nul ["LLMTOKEN".toList] pair.1 := by
      intro pair hpair
      obtain ⟨idx,hidx⟩ := (mem_markerPairs hpair).1
      rw [hidx]
      exact sealed_placeholder (by decide) idx
    refine restored hsealed ?_ (fun word hword => ?_) hprotected
    · rw [markerPairs]
      split
      · exact nodup_numbered _ _
      · exact List.nodup_nil
    · rw [List.mem_singleton.mp hword]
      exact hfree
  rw [MarkersRestored, hrestored]
  exact late_inert h.ends h.slashes h.html h.block

end Middle

end PicoSentry.Watch.Normalizer
