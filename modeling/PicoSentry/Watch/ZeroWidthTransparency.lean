import PicoSentry.Watch.ZeroWidthInsertion

namespace PicoSentry.Watch.Normalizer

open Foundation Masking

section Calm

variable {T : CharTables} {z : Char}

theorem infix_severed {w x y : Str} {n : Char} (hn : n ∉ w) (h : w <:+: x ++ n :: y) : w <:+: x ∨ w <:+: y := by
  obtain ⟨a,b,heq⟩ := h
  rw [List.append_assoc] at heq
  rcases List.append_eq_append_iff.mp heq with ⟨e,rfl,hrest⟩ | ⟨e,rfl,hrest⟩
  · rcases List.append_eq_append_iff.mp hrest with ⟨f,rfl,_⟩ | ⟨f,rfl,hcut⟩
    · exact .inl ⟨a, f, List.append_assoc _ _ _⟩
    · cases f with
      | nil =>
        rw [List.append_nil]
        exact .inl ⟨a, [], by rw [List.append_nil]⟩
      | cons c f =>
        obtain ⟨rfl,_⟩ := List.cons.inj hcut
        exact absurd (List.mem_append_right _ List.mem_cons_self) hn
  · cases e with
    | nil =>
      cases w with
      | nil => exact .inl List.nil_infix
      | cons c w =>
        obtain ⟨rfl,_⟩ := List.cons.inj hrest
        exact absurd List.mem_cons_self hn
    | cons c e =>
      obtain ⟨_,rfl⟩ := List.cons.inj hrest
      exact .inr ⟨e, b, List.append_assoc _ _ _⟩

def Free (patterns : List Str) (text : Str) : Prop := ∀ pattern ∈ patterns, ¬pattern <:+: text

instance (patterns : List Str) (text : Str) : Decidable (Free patterns text) :=
  inferInstanceAs (Decidable (∀ pattern ∈ patterns, ¬pattern <:+: text))

theorem free_severed {patterns : List Str} (hz : ∀ pattern ∈ patterns, z ∉ pattern) {w rest : Str}
    (hw : Free patterns w) (hrest : Free patterns rest) : Free patterns (w ++ z :: rest) := by
  intro pattern hmem hinside
  rcases infix_severed (hz pattern hmem) hinside with hinside | hinside
  · exact hw pattern hmem hinside
  · exact hrest pattern hmem hinside

theorem free_short {patterns : List Str} {n : Nat} (hlong : ∀ pattern ∈ patterns, n < pattern.length) {w : Str}
    (hw : w.length ≤ n) : Free patterns w := by
  intro pattern hmem hinside
  have hle := hinside.length_le
  have hlt := hlong pattern hmem
  omega

def markPatterns : List Str := ["<|".toList, "://".toList]

def commentPatterns : List Str := ["//".toList, "<!--".toList, "/*".toList]

structure Calm (T : CharTables) (before : Option Char) (text : Str) : Prop where
  letters : Quiet (spacedSingleChar T) before text
  blanks : Quiet (blanksAt T) before text
  separators : Quiet (separatorAt T) before text
  marks : Free markPatterns text

theorem calm_nil (before : Option Char) : Calm T before [] :=
  ⟨trivial, trivial, trivial, free_short (n := 0) (by decide) (Nat.le_refl 0)⟩

theorem calm_single (before : Option Char) (c : Char) : Calm T before [c] := by
  refine ⟨⟨spacedSingleChar_eq_none_iff.mpr fun hmatch => ?_, trivial⟩, ⟨?_, trivial⟩,
    ⟨separatorAt_eq_none_iff.mpr fun hmatch => ?_, trivial⟩, free_short (n := 1) (by decide) (Nat.le_refl 1)⟩
  · simp [readUnits] at hmatch
  · rw [blanksAt, if_pos ((List.takeWhile_prefix _).length_le.trans_lt (by simp))]
  · simp at hmatch

theorem calm_marks {w : Str} (hw : w.all (fun c => decide (c.toNat < 128) && !asciiWord c &&
    !asciiSpaces.contains c.toNat) = true) (hfree : Free markPatterns w) {before : Option Char}
    (hbefore : before.any T.word = false) : Calm T before w := by
  have hall : ∀ c ∈ w, T.word c = false ∧ T.space c = false := by
    intro c hc
    have hsign := List.all_eq_true.mp hw c hc
    rw [Bool.and_eq_true, Bool.and_eq_true, decide_eq_true_eq, Bool.not_eq_true', Bool.not_eq_true'] at hsign
    exact ⟨(T.word_ascii c hsign.1.1).trans hsign.1.2, space_of_ascii hsign.1.1 hsign.2⟩
  refine ⟨letters_solid (fun c hc => (hall c hc).2) before, blanks_solid (fun c hc => (hall c hc).2) before, ?_, hfree⟩
  clear hw hfree
  induction w generalizing before with
  | nil => trivial
  | cons c w ih =>
    refine ⟨separatorAt_eq_none_iff.mpr (by simp [hbefore]), ih ?_ fun d hd => hall d (List.mem_cons_of_mem _ hd)⟩
    exact (hall c List.mem_cons_self).1

theorem zeroWidth_not_mem {pattern : Str} (hz : isZeroWidth z = true) (hascii : ∀ c ∈ pattern, isZeroWidth c = false) :
    z ∉ pattern := fun hmem => by
  rw [hascii z hmem] at hz
  cases hz

theorem not_mem_patterns (hz : isZeroWidth z = true) {patterns : List Str}
    (hvisible : patterns.all (fun pattern => pattern.all fun c => !isZeroWidth c) = true) :
    ∀ pattern ∈ patterns, z ∉ pattern := by
  intro pattern hmem
  refine zeroWidth_not_mem hz fun c hc => ?_
  have hall := List.all_eq_true.mp (List.all_eq_true.mp hvisible pattern hmem) c hc
  simpa using hall

theorem Calm.severed (hz : isZeroWidth z = true) {before : Option Char} {w rest : Str} (hw : Calm T before w)
    (hrest : Calm T (some z) rest) : Calm T before (w ++ z :: rest) where
  letters := hw.letters.severed (severs_spacedSingleChar (neutral_zeroWidth hz)) hrest.letters
  blanks := hw.blanks.severed (severs_blanksAt (neutral_zeroWidth hz)) hrest.blanks
  separators := hw.separators.severed (severs_separatorAt (neutral_zeroWidth hz)) hrest.separators
  marks := free_severed (not_mem_patterns hz (by decide)) hw.marks hrest.marks

theorem Calm.scattered (hz : isZeroWidth z = true) {rest : Str} (hrest : Calm T (some z) rest) (text : Str) :
    Calm T (some z) (scattered z text ++ rest) := by
  induction text with
  | nil => exact hrest
  | cons c text ih => exact (calm_single (some z) c).severed hz ih

theorem Calm.placeholders {text : Str} (h : Calm T none text) : placeholders T text = [] := by
  have hllm : ¬"<|".toList <:+: text := h.marks _ (by decide)
  have hurl : ¬"://".toList <:+: text := h.marks _ (by decide)
  have hip : ¬text.tails.any (digitDotDigitAt T) = true := not_dotted_of_quiet h.separators
  rw [Normalizer.placeholders, if_neg hllm, if_neg hurl, if_neg hip]
  rfl

theorem collapse_calm {text : Str} (h : Calm T none text) : collapseSeparatorPunctuation T text = text := by
  rw [collapseSeparatorPunctuation, h.placeholders]
  exact (congrArg (collapseSpacedText T) (spaceSeparators_quiet h.separators)).trans (collapse_quiet h.letters h.blanks)

end Calm

section Windows

variable {T : CharTables} {nfkc : Str → Str} {text : Str}

def zwsp : Char := Char.ofNat 0x200B

theorem zwsp_zeroWidth : isZeroWidth zwsp = true := by decide

def around (u w v : Str) : Str := zwsp :: (scattered zwsp u ++ (w ++ zwsp :: scattered zwsp v))

theorem inserted_scattered (text : Str) : Inserted text (scattered zwsp text) := by
  induction text with
  | nil => exact .nil
  | cons c text ih => exact (ih.insert zwsp_zeroWidth).keep c

theorem Inserted.around {w w' : Str} (h : Inserted w w') (u v : Str) : Inserted (u ++ (w ++ v)) (around u w' v) :=
  ((inserted_scattered u).append (h.append ((inserted_scattered v).insert zwsp_zeroWidth))).insert zwsp_zeroWidth

theorem inserted_around (u w v : Str) : Inserted (u ++ (w ++ v)) (around u w v) := (inserted_refl w).around u v

theorem quiet_around {matchAt : Matcher Str} (hsevers : Severs matchAt zwsp) (hone : ∀ c, matchAt none [c] = none)
    (u v : Str) {w : Str} (hw : Quiet matchAt none w) : Quiet matchAt none (around u w v) := by
  have hback : Quiet matchAt (some zwsp) (scattered zwsp v) := by
    have hscattered := @quiet_scattered _ _ _ hsevers hone v [] trivial
    rwa [List.append_nil] at hscattered
  exact ⟨hsevers.first _ _, quiet_scattered hsevers hone u ((hw.behind hsevers).severed hsevers hback)⟩

theorem sub_around {matchAt : Matcher Str} (hsevers : Severs matchAt zwsp) (hone : ∀ c, matchAt none [c] = none)
    (u v : Str) {w x : Str} (hw : subFrom matchAt (some zwsp) 0 (w ++ zwsp :: scattered zwsp v) =
      x ++ subFrom matchAt (some zwsp) 0 (zwsp :: scattered zwsp v)) :
    sub matchAt (around u w v) = around u x v := by
  have hback : Quiet matchAt (some zwsp) (zwsp :: scattered zwsp v) := by
    have hscattered := @quiet_scattered _ _ _ hsevers hone v [] trivial
    rw [List.append_nil] at hscattered
    exact ⟨hsevers.first _ _, hscattered⟩
  rw [around, sub, subFrom_none (hsevers.first _ _), subFrom_scattered hsevers hone, hw, hback.sub, around]

theorem free_scattered {patterns : List Str} (hlong : ∀ pattern ∈ patterns, 1 < pattern.length)
    (hvisible : ∀ pattern ∈ patterns, zwsp ∉ pattern) {rest : Str} (hrest : Free patterns rest) (text : Str) :
    Free patterns (scattered zwsp text ++ rest) := by
  induction text with
  | nil => exact hrest
  | cons c text ih => exact free_severed hvisible (free_short hlong (w := [c]) (Nat.le_refl 1)) ih

theorem free_around {patterns : List Str} (hlong : ∀ pattern ∈ patterns, 1 < pattern.length)
    (hvisible : ∀ pattern ∈ patterns, zwsp ∉ pattern) (u v : Str) {w : Str} (hw : Free patterns w) :
    Free patterns (around u w v) := by
  have hnil : Free patterns [] := free_short hlong (Nat.zero_le 1)
  have hback : Free patterns (scattered zwsp v) := by
    have hscattered := free_scattered hlong hvisible hnil v
    rwa [List.append_nil] at hscattered
  exact free_severed hvisible hnil (free_scattered hlong hvisible (free_severed hvisible hw hback) u)

theorem calm_around (u v : Str) {w : Str} (hw : Calm T none w) : Calm T none (around u w v) where
  letters := quiet_around (severs_spacedSingleChar (neutral_zeroWidth zwsp_zeroWidth))
    (fun c => (calm_single none c).letters.1) u v hw.letters
  blanks := quiet_around (severs_blanksAt (neutral_zeroWidth zwsp_zeroWidth))
    (fun c => (calm_single (T := T) none c).blanks.1) u v hw.blanks
  separators := quiet_around (severs_separatorAt (neutral_zeroWidth zwsp_zeroWidth))
    (fun c => (calm_single none c).separators.1) u v hw.separators
  marks := free_around (by decide) (not_mem_patterns zwsp_zeroWidth (by decide)) u v hw.marks

theorem getLast?_scattered (text : Str) : (zwsp :: scattered zwsp text).getLast? = some zwsp := by
  induction text with
  | nil => rfl
  | cons c text ih => rw [scattered_cons, List.getLast?_cons_cons, List.getLast?_cons_cons, ih]

theorem map_flat_scattered (text : Str) : (scattered zwsp text).map flat = scattered zwsp (text.map flat) := by
  induction text with
  | nil => rfl
  | cons c text ih =>
    rw [scattered_cons, List.map_cons, List.map_cons, ih, List.map_cons, scattered_cons, show flat zwsp = zwsp by decide]

theorem map_flat_around (u w v : Str) : (around u w v).map flat = around (u.map flat) (w.map flat) (v.map flat) := by
  simp [around, map_flat_scattered, show flat zwsp = zwsp by decide]

theorem space_zwsp : T.space zwsp = false := (neutral_zeroWidth zwsp_zeroWidth).not_space

theorem solidEnds_around (u w v : Str) : SolidEnds T (around u w v) := by
  refine ⟨fun c hc => ?_, fun c hc => ?_⟩
  · cases hc
    exact space_zwsp
  · rw [around, ← List.cons_append, ← List.append_assoc, List.getLast?_append_of_ne_nil _ (List.cons_ne_nil _ _),
      getLast?_scattered] at hc
    cases hc
    exact space_zwsp

theorem Encloses.inside {startMark endMark : Str} (h : Encloses startMark endMark text) : startMark <:+: text := by
  obtain ⟨u,v,w,rfl⟩ := h
  exact ⟨u, v ++ (endMark ++ w), List.append_assoc _ _ _⟩

theorem late_free (hends : SolidEnds T text) (hfree : Free commentPatterns text) :
    deobfuscateMarkdown (stripComments (fusedWhitespace T text)) = flattened text :=
  late_inert hends (hfree _ (by decide)) (fun h => hfree _ (by decide) h.inside) (fun h => hfree _ (by decide) h.inside)

theorem normalize_around {other : Str} (hnfkc : nfkc other = other) {u w v : Str}
    (hcollapsed : collapseSeparatorPunctuation T (collapseSpacedText T other) = around u w v)
    (hfree : Free commentPatterns w) : normalize T nfkc other = flattened (u ++ (w ++ v)) := by
  rw [normalize, hnfkc, hcollapsed, ← flattened_inserted (inserted_around u w v)]
  exact late_free (solidEnds_around u w v)
    (free_around (by decide) (not_mem_patterns zwsp_zeroWidth (by decide)) u v hfree)

theorem flattened_append (u v : Str) : flattened (u ++ v) = flattened u ++ flattened v := by
  simp [flattened, deobfuscateMarkdown]

theorem flattened_window {u w x v : Str} (h : flattened (u ++ (w ++ v)) = flattened (u ++ (x ++ v))) :
    flattened w = flattened x := by
  simpa [flattened_append] using h

theorem flattened_single {c : Char} (h : isZeroWidth (flat c) = false) : flattened [c] = [flat c] := by
  simp [flattened, deobfuscateMarkdown, h]

theorem visible_of_space {c : Char} (h : T.space c = true) : isZeroWidth c = false := by
  rw [← Bool.not_eq_true]
  intro hz
  rw [(neutral_zeroWidth hz).not_space] at h
  cases h

theorem visible_of_word {c : Char} (h : T.word c = true) : isZeroWidth c = false := by
  rw [← Bool.not_eq_true]
  intro hz
  rw [(neutral_zeroWidth hz).not_word] at h
  cases h

theorem visible_flat {c : Char} (h : isZeroWidth c = false) : isZeroWidth (flat c) = false := by
  rcases flat_cases c with hc | hc | hc
  · rw [hc, h]
  · rw [hc]
    decide
  · rw [hc]
    decide

theorem not_quiet_cases {matchAt : Matcher Str} {before : Option Char} (h : ¬Quiet matchAt before text) :
    ∃ u c rest, text = u ++ c :: rest ∧ matchAt (lastOr before u) (c :: rest) ≠ none := by
  induction text generalizing before with
  | nil => exact absurd trivial h
  | cons c text ih =>
    by_cases hc : matchAt before (c :: text) = none
    · obtain ⟨u,d,rest,rfl,hmatch⟩ := ih fun hquiet => h ⟨hc, hquiet⟩
      refine ⟨c :: u, d, rest, rfl, ?_⟩
      rw [lastOr_cons]
      exact hmatch
    · exact ⟨[], c, text, rfl, hc⟩

end Windows

section Addresses

variable {T : CharTables} {text : Str}

def longRun : Matcher Str := fun _ text =>
  if (text.takeWhile fun c => c ≠ zwsp).length < 7 then none else some ([], [])

theorem severs_longRun : Severs longRun zwsp where
  first before rest := by simp [longRun]
  behind _ _ hnone := hnone
  ahead before w y x hnone := by
    have hstop := @run_stop (fun c => c ≠ zwsp) (zwsp :: x) (fun c hc => by cases hc; simp) w
    have hshort : (w.takeWhile fun c => c ≠ zwsp).length ≤ ((w ++ y).takeWhile fun c => c ≠ zwsp).length := by
      rw [List.takeWhile_append]
      split
      · rw [List.length_append]
        omega
      · exact Nat.le_refl _
    rw [longRun] at hnone ⊢
    split at hnone
    · next hlength => rw [hstop.1, if_pos (by omega)]
    · cases hnone

theorem longRun_short {w : Str} (h : w.length < 7) (before : Option Char) : Quiet longRun before w := by
  induction w generalizing before with
  | nil => trivial
  | cons c w ih =>
    refine ⟨?_, ih (by rw [List.length_cons] at h; omega) _⟩
    rw [longRun, if_pos ((List.takeWhile_prefix _).length_le.trans_lt h)]

theorem ipAddress_quiet (h : Quiet longRun none text) : finditer (ipAddress T) text = [] := by
  refine (h.imp fun before text hnone => ?_).finditer
  cases hmatch : ipAddress T before text with
  | none => rfl
  | some found =>
    obtain ⟨x,after⟩ := found
    obtain ⟨rfl,_⟩ := ipAddress_firm _ _ _ _ hmatch
    obtain ⟨hlong,hchars⟩ := ipAddress_chars hmatch
    have hrun : ∀ c ∈ x, decide (c ≠ zwsp) = true := by
      intro c hc
      refine decide_eq_true fun he => ?_
      rcases hchars c hc with hdigit | hdot
      · rw [he] at hdigit
        have hword := T.word_of_digit _ hdigit
        rw [(neutral_zeroWidth zwsp_zeroWidth).not_word] at hword
        cases hword
      · rw [he] at hdot
        exact absurd hdot (by decide)
    rw [longRun, List.takeWhile_append_of_pos hrun, List.length_append, if_neg (by omega)] at hnone
    cases hnone

theorem placeholders_unmarked (hfree : Free markPatterns text) (hip : finditer (ipAddress T) text = []) :
    placeholders T text = [] := by
  have hllm : ¬"<|".toList <:+: text := hfree _ (by decide)
  have hurl : ¬"://".toList <:+: text := hfree _ (by decide)
  rw [placeholders, if_neg hllm, if_neg hurl, hip]
  simp [numbered]

end Addresses

section Separated

variable {T : CharTables} {text : Str}

theorem spaceSeparators_eq (text : Str) : spaceSeparators T text = sub (separatorAt T) text := by
  rw [spaceSeparators]
  split
  · next h => exact (quiet_of_findAll h).sub.symm
  · rfl

theorem word_ne {c d : Char} (hc : T.word c = true) (hd : d.toNat < 128) (hnot : asciiWord d = false) : c ≠ d := by
  rintro rfl
  rw [T.word_ascii c hd, hnot] at hc
  cases hc

theorem free_of_heads {patterns : List Str} (heads : Str)
    (hheads : patterns.all (fun pattern => pattern.head?.any fun c => heads.contains c) = true) {w : Str}
    (hw : ∀ c ∈ heads, c ∉ w) : Free patterns w := by
  intro pattern hmem hinside
  have hhead := List.all_eq_true.mp hheads pattern hmem
  cases pattern with
  | nil => cases hhead
  | cons c rest => exact hw c (List.contains_iff_mem.mp hhead) (hinside.subset List.mem_cons_self)

theorem free_triple {patterns : List Str} (heads : Str)
    (hheads : patterns.all (fun pattern => pattern.head?.any fun c => heads.contains c) = true)
    (hplain : heads.all (fun c => decide (c.toNat < 128) && !asciiWord c) = true) {a m d : Char} (ha : T.word a = true)
    (hm : m ∉ heads) (hd : T.word d = true) : Free patterns [a, m, d] := by
  refine free_of_heads heads hheads fun c hc => ?_
  have hne : ∀ {e : Char}, T.word e = true → e ≠ c := by
    intro e he
    have hall := List.all_eq_true.mp hplain c hc
    rw [Bool.and_eq_true, decide_eq_true_eq, Bool.not_eq_true'] at hall
    exact word_ne he hall.1 hall.2
  have hmc : m ≠ c := fun he => hm (he ▸ hc)
  simp [Ne.symm (hne ha), Ne.symm hmc, Ne.symm (hne hd)]

theorem separator_not_mem {p : Char} (hp : isSeparator p = true) {heads : Str}
    (hheads : heads.all (fun c => !isSeparator c) = true) : p ∉ heads := fun hmem => by
  have hnot := List.all_eq_true.mp hheads p hmem
  rw [hp] at hnot
  cases hnot

theorem space_of_isSeparator {p : Char} (hp : isSeparator p = true) : T.space p = false := by
  rw [isSeparator, Bool.or_eq_true, Bool.or_eq_true, Bool.or_eq_true, beq_iff_eq, beq_iff_eq, beq_iff_eq, beq_iff_eq] at hp
  rcases hp with ((rfl | rfl) | rfl) | rfl <;> exact space_of_ascii (by decide) (by decide)

theorem space_of_word {c : Char} (hc : T.word c = true) : T.space c = false := by
  rw [← Bool.not_eq_true]
  intro hspace
  rw [T.not_word_of_space c hspace] at hc
  cases hc

theorem quiet_spaced_triple {a d : Char} (ha : T.word a = true) (hd : T.word d = true) :
    Quiet (spacedSingleChar T) none [a, ' ', d] ∧ Quiet (blanksAt T) none [a, ' ', d] := by
  have hspace : T.space ' ' = true := by
    rw [T.space_ascii _ (by decide)]
    decide
  have hdspace := space_of_word hd
  refine ⟨⟨spacedSingleChar_eq_none_iff.mpr ?_, spacedSingleChar_eq_none_iff.mpr ?_,
    spacedSingleChar_eq_none_iff.mpr ?_, trivial⟩, ?_, ?_, ?_, trivial⟩
  · simp [readUnits, hspace, hd]
  · simp [T.not_word_of_space _ hspace]
  · simp [readUnits]
  · simp [blanksAt, space_of_word ha]
  · simp [blanksAt, hspace, hdspace]
  · simp [blanksAt, hdspace]

theorem collapse_separated {u v : Str} {a p d : Char} (ha : T.word a = true) (hp : isSeparator p = true)
    (hd : T.word d = true) :
    collapseSeparatorPunctuation T (collapseSpacedText T (around u [a, p, d] v)) = around u [a, ' ', d] v := by
  have hsevers := severs_separatorAt (T := T) (neutral_zeroWidth zwsp_zeroWidth)
  have hspaces : ∀ c ∈ [a, p, d], T.space c = false := by
    simp [space_of_word ha, space_of_isSeparator hp, space_of_word hd]
  have hletters := quiet_around (severs_spacedSingleChar (neutral_zeroWidth zwsp_zeroWidth))
    (fun c => (calm_single none c).letters.1) u v (letters_solid hspaces none)
  have hblanks := quiet_around (severs_blanksAt (neutral_zeroWidth zwsp_zeroWidth))
    (fun c => (calm_single (T := T) none c).blanks.1) u v (blanks_solid hspaces none)
  have hmarks : Free markPatterns (around u [a, p, d] v) :=
    free_around (by decide) (not_mem_patterns zwsp_zeroWidth (by decide)) u v
      (free_triple ['<', ':'] (by decide) (by decide) ha (separator_not_mem hp (by decide)) hd)
  have hone : ∀ c, longRun none [c] = none := fun c => (longRun_short (w := [c]) (by simp) none).1
  have hip := ipAddress_quiet (T := T) (quiet_around severs_longRun hone u v
    (longRun_short (w := [a, p, d]) (by simp) none))
  have hwindow : subFrom (separatorAt T) (some zwsp) 0 ([a, p, d] ++ zwsp :: scattered zwsp v) =
      [a, ' ', d] ++ subFrom (separatorAt T) (some zwsp) 0 (zwsp :: scattered zwsp v) := by
    have hfirst : separatorAt T (some zwsp) (a :: p :: d :: zwsp :: scattered zwsp v) = none :=
      separatorAt_eq_none_iff.mpr (by simp [(neutral_zeroWidth (T := T) zwsp_zeroWidth).not_word])
    have hmiddle : separatorAt T (some a) (p :: ([] ++ d :: zwsp :: scattered zwsp v)) =
        some ([' '], d :: zwsp :: scattered zwsp v) := by
      simp [separatorAt, ha, hp, hd]
    have hlast : separatorAt T (some p) (d :: zwsp :: scattered zwsp v) = none :=
      separatorAt_eq_none_iff.mpr (by simp [(neutral_zeroWidth (T := T) zwsp_zeroWidth).not_word])
    have hrest := subFrom_some hmiddle
    rw [List.nil_append, lastOr_nil] at hrest
    rw [List.cons_append, List.cons_append, List.cons_append, List.nil_append, subFrom_none hfirst, hrest,
      subFrom_none hlast, subFrom_none (hsevers.first _ _), subFrom_none (hsevers.first _ _)]
    rfl
  rw [collapse_quiet hletters hblanks, collapseSeparatorPunctuation, placeholders_unmarked hmarks hip]
  change collapseSpacedText T (spaceSeparators T (around u [a, p, d] v)) = _
  rw [spaceSeparators_eq, sub_around hsevers (fun c => (calm_single none c).separators.1) u v hwindow]
  obtain ⟨hspaced,hapart⟩ := quiet_spaced_triple ha hd
  exact collapse_quiet (quiet_around (severs_spacedSingleChar (neutral_zeroWidth zwsp_zeroWidth))
    (fun c => (calm_single none c).letters.1) u v hspaced) (quiet_around
    (severs_blanksAt (neutral_zeroWidth zwsp_zeroWidth)) (fun c => (calm_single (T := T) none c).blanks.1) u v hapart)

end Separated

section Shown

variable {T : CharTables} {text : Str}

def shown (text : Str) : Nat := (deobfuscateMarkdown text).length

theorem shown_append (u v : Str) : shown (u ++ v) = shown u + shown v := by
  simp [shown, deobfuscateMarkdown]

theorem shown_le {u v : Str} (h : u.Sublist v) : shown u ≤ shown v := (h.filter _).length_le

theorem shown_cons_pos {c : Char} (h : isZeroWidth c = false) (text : Str) : 0 < shown (c :: text) := by
  simp [shown, deobfuscateMarkdown, h]

theorem stripDelimited_sublist (startMark endMark : Str) (fuel : Nat) (text : Str) :
    (stripDelimited startMark endMark fuel text).Sublist text := by
  induction fuel generalizing text with
  | zero => exact List.Sublist.refl text
  | succ fuel ih =>
    rw [stripDelimited]
    split
    · exact List.Sublist.refl text
    · next before rest hopen =>
      split
      · exact List.Sublist.refl text
      · next between after hclose =>
        rw [(splitOnce_eq_some hopen).1, (splitOnce_eq_some hclose).1, List.append_assoc]
        refine (List.Sublist.refl before).append ?_
        exact ((ih after).trans (List.sublist_append_right _ _)).trans (List.sublist_append_right _ _)

theorem splitOnce_follows {mark : Str} (hmark : mark ≠ []) (u v : Str) :
    ∃ before rest, splitOnce mark (u ++ (mark ++ v)) = some (before, rest) ∧ v <:+ rest := by
  induction u with
  | nil =>
    cases mark with
    | nil => exact absurd rfl hmark
    | cons m mark =>
      have hbegins : m :: mark <+: m :: (mark ++ v) := List.prefix_append (m :: mark) v
      refine ⟨[], v, ?_, List.suffix_refl v⟩
      rw [List.nil_append, List.cons_append, splitOnce, if_pos hbegins, ← List.cons_append, List.drop_left]
  | cons c u ih =>
    rw [List.cons_append, splitOnce]
    split
    · refine ⟨[], _, rfl, List.suffix_of_suffix_length_le ?_ (List.drop_suffix _ _) ?_⟩
      · exact ((List.suffix_append mark v).trans (List.suffix_append u _)).trans (List.suffix_cons c _)
      · simp only [List.length_drop, List.length_cons, List.length_append]
        omega
    · obtain ⟨before,rest,hsplit,hv⟩ := ih
      rw [hsplit]
      exact ⟨c :: before, rest, rfl, hv⟩

theorem shown_flat (text : Str) : shown (text.map flat) = shown text := by
  induction text with
  | nil => rfl
  | cons c text ih =>
    rw [List.map_cons, ← List.singleton_append, ← @List.singleton_append _ c, shown_append, shown_append, ih]
    cases hc : isZeroWidth c with
    | true => rw [flat_eq_self (T := .basic) (neutral_zeroWidth hc).not_space]
    | false => simp [shown, deobfuscateMarkdown, hc, visible_flat hc]

theorem shown_inserted {other : Str} (h : Inserted text other) : shown other = shown text := by
  rw [shown, shown, deobfuscate_inserted h]

theorem mark_ne {mark : Str} (h : 0 < shown mark) : mark ≠ [] := by
  rintro rfl
  exact absurd h (by decide)

theorem stripDelimited_lt {startMark endMark : Str} (hstart : 0 < shown startMark) (hend : endMark ≠ []) {fuel : Nat}
    (hfuel : 0 < fuel) (h : Encloses startMark endMark text) : shown (stripDelimited startMark endMark fuel text) < shown text := by
  obtain ⟨u,v,w,rfl⟩ := h
  obtain ⟨fuel,rfl⟩ : ∃ k, fuel = k + 1 := ⟨fuel - 1, by omega⟩
  obtain ⟨before,rest,hopen,⟨more,rfl⟩⟩ := splitOnce_follows (mark_ne hstart) u (v ++ (endMark ++ w))
  obtain ⟨between,after,hclose,_⟩ := splitOnce_follows hend (more ++ v) w
  rw [List.append_assoc] at hclose
  have htext := (splitOnce_eq_some hopen).1
  have hrest := (splitOnce_eq_some hclose).1
  rw [stripDelimited, hopen]
  dsimp only
  rw [hclose]
  dsimp only
  have hle := shown_le (stripDelimited_sublist startMark endMark fuel after)
  rw [htext, hrest, shown_append, shown_append, shown_append, shown_append, shown_append]
  omega

theorem deleted {matchAt : Matcher Str} (hdelete : ∀ before c w x after, matchAt before (c :: (w ++ after)) =
    some (x, after) → x = [] ∧ isZeroWidth c = false) {before : Option Char} {out : Str}
    (h : Substituted matchAt before text out) :
    out.Sublist text ∧ (Quiet matchAt before text ∨ shown out < shown text) := by
  induction h with
  | nil => exact ⟨List.Sublist.refl [], .inl trivial⟩
  | @pass before c rest out hnone _ ih =>
    refine ⟨ih.1.cons_cons c, ih.2.imp (fun hquiet => ⟨hnone, hquiet⟩) fun hlt => ?_⟩
    rw [← List.singleton_append, ← @List.singleton_append _ c rest, shown_append, shown_append]
    omega
  | @exchange before c w x after out hmatch _ ih =>
    obtain ⟨rfl,hc⟩ := hdelete _ _ _ _ _ hmatch
    have hsub : out.Sublist (w ++ after) := ih.1.trans (List.sublist_append_right w after)
    refine ⟨hsub.cons c, .inr ?_⟩
    have hle := shown_le hsub
    have hpos := shown_cons_pos hc []
    rw [List.nil_append, ← @List.singleton_append _ c, shown_append]
    omega

theorem lineComment_deletes {before : Option Char} {c : Char} {w x after : Str}
    (h : lineComment before (c :: (w ++ after)) = some (x, after)) : x = [] ∧ isZeroWidth c = false := by
  rw [lineComment] at h
  split at h
  · cases h
  · obtain ⟨rest,hslashes,h⟩ := Option.bind_eq_some_iff.mp h
    split at h
    · cases h
    · obtain ⟨rfl,_⟩ := Prod.mk.inj (Option.some.inj h)
      obtain ⟨rfl,_⟩ := List.cons.inj (literal_eq_some_iff.mp hslashes)
      exact ⟨rfl, by decide⟩

theorem proper_lineComment : Proper lineComment := by
  intro before c rest x after h
  rw [lineComment] at h
  split at h
  · cases h
  · obtain ⟨tail,hslashes,h⟩ := Option.bind_eq_some_iff.mp h
    split at h
    · cases h
    · obtain ⟨_,rfl⟩ := Prod.mk.inj (Option.some.inj h)
      obtain ⟨_,rfl⟩ := List.cons.inj (literal_eq_some_iff.mp hslashes)
      exact (List.dropWhile_suffix _).trans (List.suffix_cons _ _)

theorem stripComments_le (text : Str) : shown (stripComments text) ≤ shown text := by
  rw [stripComments]
  refine (shown_le (deleted (fun _ _ _ _ _ => lineComment_deletes) (substituted_sub proper_lineComment _)).1).trans ?_
  exact (shown_le (stripDelimited_sublist _ _ _ _)).trans (shown_le (stripDelimited_sublist _ _ _ _))

theorem stripDelimited_cases (startMark endMark : Str) (hstart : 0 < shown startMark) (hend : endMark ≠ []) (text : Str) :
    stripDelimited startMark endMark text.length text = text ∧ ¬Encloses startMark endMark text ∨
      shown (stripDelimited startMark endMark text.length text) < shown text := by
  by_cases h : Encloses startMark endMark text
  · refine .inr (stripDelimited_lt hstart hend ?_ h)
    obtain ⟨u,v,w,rfl⟩ := h
    have hpos := List.length_pos_iff.mpr hend
    simp only [List.length_append]
    omega
  · exact .inl ⟨stripDelimited_eq_self _ h, h⟩

theorem shown_late (T : CharTables) (text : Str) : shown (stripComments (T.strip (text.map flat))) ≤ shown text := by
  refine (stripComments_le _).trans ((shown_le (Unicode.strip_inside _).sublist).trans ?_)
  exact (shown_flat text).le

theorem stripComments_lt (h : Encloses "<!--".toList "-->".toList text ∨ Encloses "/*".toList "*/".toList text ∨
    ¬Quiet lineComment none text) : shown (stripComments text) < shown text := by
  have hlines := fun result => deleted (fun _ _ _ _ _ => lineComment_deletes) (substituted_sub proper_lineComment result)
  have hblocks := stripDelimited_sublist "/*".toList "*/".toList
  rw [stripComments]
  rcases stripDelimited_cases "<!--".toList "-->".toList (by decide) (by decide) text with ⟨hhtml,hnohtml⟩ | hlt
  · rw [hhtml]
    rcases stripDelimited_cases "/*".toList "*/".toList (by decide) (by decide) text with ⟨hblock,hnoblock⟩ | hlt
    · rw [hblock]
      rcases (hlines text).2 with hquiet | hlt
      · rcases h with h | h | h
        · exact absurd h hnohtml
        · exact absurd h hnoblock
        · exact absurd hquiet h
      · exact hlt
    · exact (shown_le (hlines _).1).trans_lt hlt
  · exact ((shown_le (hlines _).1).trans (shown_le (hblocks _ _))).trans_lt hlt

end Shown

section Letters

variable {T : CharTables} {u v p q : Str}

def Padded (text padding : Str) : Prop := text = [] ∧ padding = [] ∨ padding = zwsp :: scattered zwsp text

theorem Padded.inserted (h : Padded u p) : Inserted u p := by
  rcases h with ⟨rfl,rfl⟩ | rfl
  · exact .nil
  · exact (inserted_scattered u).insert zwsp_zeroWidth

theorem Padded.quiet_behind {matchAt : Matcher Str} (hsevers : Severs matchAt zwsp) (hone : ∀ c, matchAt none [c] = none)
    (h : Padded v q) {before : Option Char} {w : Str} (hw : Quiet matchAt before w) : Quiet matchAt before (w ++ q) := by
  rcases h with ⟨_,rfl⟩ | rfl
  · rwa [List.append_nil]
  · have hscattered := @quiet_scattered _ _ _ hsevers hone v [] trivial
    rw [List.append_nil] at hscattered
    exact hw.severed hsevers hscattered

theorem Padded.quiet_before {matchAt : Matcher Str} (hsevers : Severs matchAt zwsp) (hone : ∀ c, matchAt none [c] = none)
    (h : Padded u p) {w : Str} (hw : Quiet matchAt none w) : Quiet matchAt none (p ++ w) := by
  rcases h with ⟨_,rfl⟩ | rfl
  · exact hw
  · exact ⟨hsevers.first _ _, quiet_scattered hsevers hone u (hw.behind hsevers)⟩

def Opens (T : CharTables) (u p opening : Str) : Prop :=
  u = [] ∧ p = [] ∧ opening = [] ∨ Padded u p ∧ ∃ e, opening = [e] ∧ T.space e = true

def Closes (T : CharTables) (v q closing : Str) : Prop :=
  v = [] ∧ q = [] ∧ closing = [] ∨
    Padded v q ∧ ∃ c, closing = [c] ∧ (T.space c || [',', '.', ';', '!', '?'].contains c) = true

variable {opening closing : Str}

theorem sub_opened {matchAt : Matcher Str} (hsevers : Severs matchAt zwsp) (hone : ∀ c, matchAt none [c] = none)
    (hspace : ∀ before e rest, T.space e = true → matchAt before (e :: rest) = none) (hopens : Opens T u p opening)
    {x y : Str} (hx : ∀ before : Option Char, before.all T.space = true → subFrom matchAt before 0 x = y) :
    sub matchAt (p ++ (opening ++ x)) = p ++ (opening ++ y) := by
  have hopened : ∀ e, T.space e = true → ∀ before, subFrom matchAt before 0 (e :: x) = e :: y := by
    intro e he before
    rw [subFrom_none (hspace before e x he), hx (some e) he]
  rcases hopens with ⟨_,rfl,rfl⟩ | ⟨hpadded,e,rfl,he⟩
  · exact hx none rfl
  · rcases hpadded with ⟨_,rfl⟩ | rfl
    · exact hopened e he none
    · rw [sub, List.cons_append, subFrom_none (hsevers.first _ _), subFrom_scattered hsevers hone]
      exact congrArg (fun rest => zwsp :: (scattered zwsp u ++ rest)) (hopened e he _)

theorem letters_short {w : Str} (h : w.length ≤ 4) (before : Option Char) : Quiet (spacedSingleChar T) before w := by
  induction w generalizing before with
  | nil => trivial
  | cons c w ih =>
    rw [List.length_cons] at h
    refine ⟨spacedSingleChar_eq_none_iff.mpr fun hmatch => ?_, ih (by omega) _⟩
    have hparts := congrArg List.length (readUnits_parts (T := T) w)
    rw [List.length_append] at hparts
    omega

theorem not_word_of_closes {c : Char} (h : (T.space c || [',', '.', ';', '!', '?'].contains c) = true) : T.word c = false := by
  rcases Bool.or_eq_true_iff.mp h with hspace | hstop
  · exact T.not_word_of_space c hspace
  · have hstops : ∀ d ∈ [',', '.', ';', '!', '?'], d.toNat < 128 ∧ asciiWord d = false := forall_mem_of_all (by decide)
    obtain ⟨hascii,hnot⟩ := hstops c (List.contains_iff_mem.mp hstop)
    rw [T.word_ascii c hascii, hnot]

theorem closes_length (h : Closes T v q closing) : closing.length ≤ 1 := by
  rcases h with ⟨_,_,rfl⟩ | ⟨_,_,rfl,_⟩ <;> simp

theorem closes_padded (h : Closes T v q closing) : Padded v q := by
  rcases h with ⟨hv,hq,_⟩ | ⟨hpadded,_⟩
  · exact .inl ⟨hv, hq⟩
  · exact hpadded

theorem closes_units (h : Closes T v q closing) :
    readUnits T (closing ++ q) = ([], closing ++ q) ∧ unitsEnd T (closing ++ q) = true := by
  rcases h with ⟨_,rfl,rfl⟩ | ⟨hpadded,c,rfl,hc⟩
  · exact ⟨rfl, rfl⟩
  · refine ⟨?_, hc⟩
    rcases hpadded with ⟨_,rfl⟩ | rfl
    · rfl
    · exact readUnits_none (by simp [(neutral_zeroWidth (T := T) zwsp_zeroWidth).not_word])

theorem lowerAt_isLower {c : Char} (h : T.isLower c = true) (before after : Str) : T.lowerAt before after c = [c] := by
  have hsigma : c ≠ 'Σ' := by
    rintro rfl
    rw [T.not_isLower_sigma] at h
    cases h
  rw [Unicode.lowerAt, if_neg hsigma, T.lower_of_isLower c h]

theorem lowerStr_isLower {w : Str} (h : ∀ c ∈ w, T.isLower c = true) : T.lowerStr w = w := by
  have hfrom : ∀ before, T.lowerFrom before w = w := by
    induction w with
    | nil => exact fun _ => rfl
    | cons c w ih =>
      intro before
      rw [Unicode.lowerFrom, lowerAt_isLower (h c List.mem_cons_self), ih fun d hd => h d (List.mem_cons_of_mem _ hd)]
      rfl
  exact hfrom []

theorem rejoin_letters {a s b s' d : Char} (ha : T.word a = true) (hs : T.space s = true) (hb : T.word b = true)
    (hs' : T.space s' = true) (hd : T.word d = true) : rejoin T [a, s, b, s', d] = [a, b, d] := by
  have hbspace := space_of_word hb
  have hdspace := space_of_word hd
  have hfirst : gapAt T none (a :: ([s] ++ [b, s', d])) = some ([a], [b, s', d]) := by
    simp [gapAt, ha, hs, hbspace, hb]
  have hsecond : ∀ before, gapAt T before (b :: ([s'] ++ [d])) = some ([b], [d]) := by
    simp [gapAt, hb, hs', hdspace, hd]
  have hthird : ∀ before, gapAt T before [d] = none := by simp [gapAt]
  have hcollapsed : sub (gapAt T) [a, s, b, s', d] = [a, b, d] := by
    rw [sub]
    exact (subFrom_some hfirst).trans (congrArg (a :: ·) ((subFrom_some (hsecond _)).trans
      (congrArg (b :: ·) (subFrom_none (hthird _)))))
  rw [rejoin, hcollapsed, if_neg (by simp)]
  split
  · next hcase =>
    have hlower : ∀ c ∈ [b, d], T.isLower c = true := by
      rw [Bool.and_eq_true, List.all_eq_true] at hcase
      intro c hc
      have hkept := hcase.2 c (by simp at hc ⊢; tauto)
      have hspace : T.space c = false := by
        rcases List.mem_pair.mp hc with rfl | rfl <;> assumption
      rwa [hspace, Bool.or_false] at hkept
    exact congrArg (a :: ·) (lowerStr_isLower hlower)
  · rfl

theorem sub_letters {a s b s' d : Char} (hopens : Opens T u p opening) (hcloses : Closes T v q closing)
    (ha : T.word a = true) (hs : T.space s = true) (hb : T.word b = true) (hs' : T.space s' = true)
    (hd : T.word d = true) : sub (spacedAt T) (p ++ (opening ++ ([a, s, b, s', d] ++ (closing ++ q)))) =
      p ++ (opening ++ ([a, b, d] ++ (closing ++ q))) := by
  have hsevers := severs_spacedSingleChar (T := T) (neutral_zeroWidth zwsp_zeroWidth)
  have hone : ∀ c, spacedSingleChar T none [c] = none := fun c => (calm_single none c).letters.1
  refine sub_opened (hsevers.map _) (fun c => Option.map_eq_none_iff.mpr (hone c))
    (fun before e rest he => Option.map_eq_none_iff.mpr ?_) hopens fun before hbefore => ?_
  · exact spacedSingleChar_eq_none_iff.mpr (by simp [T.not_word_of_space e he])
  · obtain ⟨hunits,hend⟩ := closes_units hcloses
    have hread : readUnits T ([s, b, s', d] ++ (closing ++ q)) = ([s, b, s', d], closing ++ q) := by
      simp [readUnits, hs, hb, hs', hd, hunits]
    have hmatch : spacedAt T before (a :: ([s, b, s', d] ++ (closing ++ q))) = some ([a, b, d], closing ++ q) := by
      have hspaced : spacedSingleChar T before (a :: ([s, b, s', d] ++ (closing ++ q))) =
          some ([a, s, b, s', d], closing ++ q) := by
        rw [spacedSingleChar, hread, hbefore, ha]
        dsimp only
        rw [hend]
        rfl
      rw [spacedAt, hspaced, Option.map_some, rejoin_letters ha hs hb hs' hd]
    have hquiet : Quiet (spacedSingleChar T) (some d) (closing ++ q) :=
      (closes_padded hcloses).quiet_behind hsevers hone (letters_short ((closes_length hcloses).trans (by omega)) _)
    exact (subFrom_some hmatch).trans (congrArg ([a, b, d] ++ ·) (spacedAt_quiet hquiet).sub)

theorem opens_padded (h : Opens T u p opening) : Padded u p := by
  rcases h with ⟨hu,hp,_⟩ | ⟨hpadded,_⟩
  · exact .inl ⟨hu, hp⟩
  · exact hpadded

theorem opens_length (h : Opens T u p opening) : opening.length ≤ 1 := by
  rcases h with ⟨_,_,rfl⟩ | ⟨_,_,rfl,_⟩ <;> simp

theorem quiet_padded {matchAt : Matcher Str} (hsevers : Severs matchAt zwsp) (hone : ∀ c, matchAt none [c] = none)
    (hopens : Opens T u p opening) (hcloses : Closes T v q closing) {w : Str}
    (hw : Quiet matchAt none (opening ++ (w ++ closing))) :
    Quiet matchAt none (p ++ (opening ++ (w ++ (closing ++ q)))) := by
  have hpadded := (closes_padded hcloses).quiet_behind hsevers hone hw
  rw [List.append_assoc, List.append_assoc] at hpadded
  exact (opens_padded hopens).quiet_before hsevers hone hpadded

theorem letters_window {a x d : Char} (hopens : Opens T u p opening) (hcloses : Closes T v q closing) :
    Quiet (spacedSingleChar T) none (opening ++ ([a, x, d] ++ closing)) := by
  have hshort : ([a, x, d] ++ closing).length ≤ 4 := by
    have hlength := closes_length hcloses
    rw [List.length_append]
    exact Nat.add_le_add_left hlength 3
  rcases hopens with ⟨_,_,rfl⟩ | ⟨_,e,rfl,he⟩
  · exact letters_short hshort none
  · exact ⟨spacedSingleChar_eq_none_iff.mpr (by simp [T.not_word_of_space e he]), letters_short hshort _⟩

theorem blanksAt_apart {before : Option Char} {c : Char} {rest : Str}
    (h : T.space c = false ∨ ∀ d, rest.head? = some d → T.space d = false) : blanksAt T before (c :: rest) = none := by
  rw [blanksAt, if_pos]
  rcases h with hc | hrest
  · rw [List.takeWhile_cons_of_neg (by simp [hc])]
    exact Nat.zero_lt_two
  · have hstop := (@run_stop T.space rest hrest [c]).1
    rw [List.singleton_append] at hstop
    rw [hstop]
    exact (List.takeWhile_prefix _).length_le.trans_lt Nat.one_lt_two

theorem blanks_window {a x d : Char} (ha : T.space a = false) (hd : T.space d = false) (hopens : Opens T u p opening)
    (hcloses : Closes T v q closing) : Quiet (blanksAt T) none (opening ++ ([a, x, d] ++ closing)) := by
  have hclosing : Quiet (blanksAt T) (some d) closing := by
    rcases hcloses with ⟨_,_,rfl⟩ | ⟨_,c,rfl,_⟩
    · trivial
    · exact ⟨blanksAt_apart (.inr fun _ hc => by cases hc), trivial⟩
  have hwindow : ∀ before, Quiet (blanksAt T) before ([a, x, d] ++ closing) := fun before =>
    ⟨blanksAt_apart (.inl ha), blanksAt_apart (.inr fun _ hc => by cases hc; exact hd), blanksAt_apart (.inl hd), hclosing⟩
  rcases hopens with ⟨_,_,rfl⟩ | ⟨_,e,rfl,_⟩
  · exact hwindow none
  · exact ⟨blanksAt_apart (.inr fun _ hc => by cases hc; exact ha), hwindow _⟩

theorem free_padded {patterns : List Str} (hlong : ∀ pattern ∈ patterns, 1 < pattern.length)
    (hvisible : ∀ pattern ∈ patterns, zwsp ∉ pattern) (hu : Padded u p) (hv : Padded v q) {w : Str}
    (hw : Free patterns w) : Free patterns (p ++ (w ++ q)) := by
  have hnil : Free patterns [] := free_short hlong (Nat.zero_le 1)
  have hback : Free patterns (w ++ q) := by
    rcases hv with ⟨_,rfl⟩ | rfl
    · rwa [List.append_nil]
    · have hscattered := free_scattered hlong hvisible hnil v
      rw [List.append_nil] at hscattered
      exact free_severed hvisible hw hscattered
  rcases hu with ⟨_,rfl⟩ | rfl
  · exact hback
  · exact free_severed hvisible hnil (free_scattered hlong hvisible hback u)

theorem marks_window {a b d : Char} (hopens : Opens T u p opening) (hcloses : Closes T v q closing) (ha : T.word a = true)
    (hb : T.word b = true) (hd : T.word d = true) :
    Free markPatterns (p ++ (opening ++ ([a, b, d] ++ (closing ++ q)))) := by
  have hsigns : ∀ c ∈ ['<', ':'], c.toNat < 128 ∧ asciiWord c = false ∧ asciiSpaces.contains c.toNat = false ∧
      [',', '.', ';', '!', '?'].contains c = false := forall_mem_of_all (by decide)
  have hwindow : Free markPatterns (opening ++ ([a, b, d] ++ closing)) := by
    refine free_of_heads ['<', ':'] (by decide) fun c hc hmem => ?_
    obtain ⟨hascii,hword,hspace,hstop⟩ := hsigns c hc
    replace hword : T.word c = false := (T.word_ascii c hascii).trans hword
    replace hspace : T.space c = false := space_of_ascii hascii hspace
    rcases List.mem_append.mp hmem with hmem | hmem
    · rcases hopens with ⟨_,_,rfl⟩ | ⟨_,e,rfl,he⟩
      · cases hmem
      · rw [← List.mem_singleton.mp hmem, hspace] at he
        cases he
    · rcases List.mem_append.mp hmem with hmem | hmem
      · have hne : ∀ {e : Char}, T.word e = true → c ≠ e := by
          rintro e he rfl
          rw [hword] at he
          cases he
        simp [hne ha, hne hb, hne hd] at hmem
      · rcases hcloses with ⟨_,_,rfl⟩ | ⟨_,e,rfl,he⟩
        · cases hmem
        · rw [← List.mem_singleton.mp hmem, hspace, hstop] at he
          cases he
  have hpadded := free_padded (by decide) (not_mem_patterns zwsp_zeroWidth (by decide)) (opens_padded hopens)
    (closes_padded hcloses) hwindow
  rwa [List.append_assoc, List.append_assoc] at hpadded

theorem not_word_behind (h : Closes T v q closing) : (closing ++ q).head?.any T.word = false := by
  rcases h with ⟨_,rfl,rfl⟩ | ⟨_,c,rfl,hc⟩
  · rfl
  · exact not_word_of_closes hc

theorem sub_separator {a b d : Char} (hopens : Opens T u p opening) (hcloses : Closes T v q closing)
    (ha : T.word a = true) (hd : T.word d = true) :
    sub (separatorAt T) (p ++ (opening ++ ([a, b, d] ++ (closing ++ q)))) =
      p ++ (opening ++ ([a, if isSeparator b then ' ' else b, d] ++ (closing ++ q))) := by
  have hsevers := severs_separatorAt (T := T) (neutral_zeroWidth zwsp_zeroWidth)
  have hone : ∀ c, separatorAt T none [c] = none := fun c => (calm_single none c).separators.1
  refine sub_opened hsevers hone (fun before e rest he => separatorAt_eq_none_iff.mpr ?_) hopens fun before hbefore => ?_
  · rintro ⟨_,hseparator,_⟩
    rw [space_of_isSeparator hseparator] at he
    cases he
  · have hfirst : separatorAt T before (a :: b :: d :: (closing ++ q)) = none := by
      refine separatorAt_eq_none_iff.mpr fun hmatch => ?_
      cases before with
      | none => cases hmatch.1
      | some e =>
        have hword : T.word e = true := hmatch.1
        rw [T.not_word_of_space e hbefore] at hword
        cases hword
    have hlast : ∀ before, separatorAt T before (d :: (closing ++ q)) = none := by
      refine fun _ => separatorAt_eq_none_iff.mpr fun hmatch => ?_
      rw [not_word_behind hcloses] at hmatch
      exact Bool.false_ne_true hmatch.2.2
    have hclosing : Quiet (separatorAt T) (some d) (closing ++ q) := by
      refine (closes_padded hcloses).quiet_behind hsevers hone ?_
      rcases hcloses with ⟨_,_,rfl⟩ | ⟨_,c,rfl,_⟩
      · trivial
      · exact ⟨separatorAt_eq_none_iff.mpr (by simp), trivial⟩
    have hrest : ∀ before, subFrom (separatorAt T) before 0 (d :: (closing ++ q)) = d :: (closing ++ q) := by
      intro before
      rw [subFrom_none (hlast before), hclosing.sub]
    rw [List.cons_append, List.cons_append, List.cons_append, List.nil_append, subFrom_none hfirst]
    split
    · next hseparator =>
      have hmatch : separatorAt T (some a) (b :: ([] ++ d :: (closing ++ q))) = some ([' '], d :: (closing ++ q)) := by
        simp [separatorAt, ha, hseparator, hd]
      exact congrArg (a :: ·) ((subFrom_some hmatch).trans (congrArg (' ' :: ·) (hrest _)))
    · next hseparator =>
      have hnone : separatorAt T (some a) (b :: d :: (closing ++ q)) = none :=
        separatorAt_eq_none_iff.mpr fun hmatch => hseparator hmatch.2.1
      rw [subFrom_none hnone, hrest]
      rfl

theorem collapse_letters {a s b s' d : Char} (hopens : Opens T u p opening) (hcloses : Closes T v q closing)
    (ha : T.word a = true) (hs : T.space s = true) (hb : T.word b = true) (hs' : T.space s' = true)
    (hd : T.word d = true) : collapseSeparatorPunctuation T
        (collapseSpacedText T (p ++ (opening ++ ([a, s, b, s', d] ++ (closing ++ q))))) =
      p ++ (opening ++ ([a, if isSeparator b then ' ' else b, d] ++ (closing ++ q))) := by
  have hz := neutral_zeroWidth (T := T) zwsp_zeroWidth
  have hblanks : ∀ x, Quiet (blanksAt T) none (p ++ (opening ++ ([a, x, d] ++ (closing ++ q)))) := fun x =>
    quiet_padded (severs_blanksAt hz) (fun c => (calm_single (T := T) none c).blanks.1) hopens hcloses
      (blanks_window (space_of_word ha) (space_of_word hd) hopens hcloses)
  have hletters : ∀ x, Quiet (spacedSingleChar T) none (p ++ (opening ++ ([a, x, d] ++ (closing ++ q)))) := fun x =>
    quiet_padded (severs_spacedSingleChar hz) (fun c => (calm_single none c).letters.1) hopens hcloses
      (letters_window hopens hcloses)
  have hshort : (opening ++ ([a, b, d] ++ closing)).length < 7 := by
    have hopening := opens_length hopens
    have hclosing := closes_length hcloses
    simp only [List.length_append, List.length_cons, List.length_nil]
    omega
  have hip := ipAddress_quiet (T := T) (quiet_padded severs_longRun
    (fun c => (longRun_short (w := [c]) (by simp) none).1) hopens hcloses (longRun_short hshort none))
  have hcollapsed : collapseSpacedText T (p ++ (opening ++ ([a, s, b, s', d] ++ (closing ++ q)))) =
      p ++ (opening ++ ([a, b, d] ++ (closing ++ q))) := by
    rw [collapseSpacedText, sub_letters hopens hcloses ha hs hb hs' hd]
    exact (hblanks b).sub
  rw [hcollapsed, collapseSeparatorPunctuation, placeholders_unmarked (marks_window hopens hcloses ha hb hd) hip]
  refine Eq.trans ?_ (collapse_quiet (hletters _) (hblanks _))
  exact congrArg (collapseSpacedText T) ((spaceSeparators_eq _).trans (sub_separator hopens hcloses ha hd))

theorem opens_of_all {front : Str} (h : (lastOr none front).all T.space = true) :
    ∃ u p opening, front = u ++ opening ∧ Opens T u p opening := by
  rcases List.eq_nil_or_concat front with rfl | ⟨u,e,rfl⟩
  · exact ⟨[], [], [], rfl, .inl ⟨rfl, rfl, rfl⟩⟩
  · refine ⟨u, zwsp :: scattered zwsp u, [e], List.concat_eq_append, .inr ⟨.inr rfl, e, rfl, ?_⟩⟩
    simpa [lastOr] using h

theorem readUnits_unit {w : Str} (h : (readUnits T w).1 ≠ []) : ∃ s c tail, w = s :: c :: tail ∧ T.space s = true ∧
    T.word c = true ∧ readUnits T w = (s :: c :: (readUnits T tail).1, (readUnits T tail).2) := by
  rw [readUnits.eq_def] at h
  split at h
  · next s c tail =>
    split at h
    · next hunit =>
      obtain ⟨hs,hc⟩ := Bool.and_eq_true_iff.mp hunit
      exact ⟨s, c, tail, rfl, hs, hc, by rw [readUnits, if_pos hunit]⟩
    · exact absurd rfl h
  · exact absurd rfl h

theorem closes_of_units {rest : Str} (h : unitsEnd T (readUnits T rest).2 = true ∧ 4 ≤ (readUnits T rest).1.length ∨
    6 ≤ (readUnits T rest).1.length) : ∃ s b s' d closing v q, rest = [s, b, s', d] ++ (closing ++ v) ∧
      (T.space s = true ∧ T.word b = true ∧ T.space s' = true ∧ T.word d = true) ∧ Closes T v q closing := by
  have hlong : 4 ≤ (readUnits T rest).1.length := by omega
  obtain ⟨s,b,tail,rfl,hs,hb,hread⟩ := readUnits_unit fun hnil => by
    rw [hnil] at hlong
    cases hlong
  rw [hread] at h hlong
  obtain ⟨s',d,after,rfl,hs',hd,hmore⟩ := readUnits_unit fun hnil => by
    rw [hnil, List.length_cons, List.length_cons, List.length_nil] at hlong
    omega
  rw [hmore] at h
  have hends : after = [] ∨ ∃ c v, after = c :: v ∧ (T.space c || [',', '.', ';', '!', '?'].contains c) = true := by
    by_cases hunits : (readUnits T after).1 = []
    · have hparts := readUnits_parts (T := T) after
      rw [hunits, List.nil_append] at hparts
      rw [hunits, hparts] at h
      rcases h with ⟨hend,_⟩ | hlong
      · cases after with
        | nil => exact .inl rfl
        | cons c v => exact .inr ⟨c, v, rfl, hend⟩
      · simp at hlong
    · obtain ⟨c,_,_,rfl,hc,_⟩ := readUnits_unit hunits
      exact .inr ⟨c, _, rfl, by rw [hc, Bool.true_or]⟩
  rcases hends with rfl | ⟨c,v,rfl,hc⟩
  · exact ⟨s, b, s', d, [], [], [], rfl, ⟨hs, hb, hs', hd⟩, .inl ⟨rfl, rfl, rfl⟩⟩
  · exact ⟨s, b, s', d, [c], v, zwsp :: scattered zwsp v, rfl, ⟨hs, hb, hs', hd⟩, .inr ⟨.inr rfl, c, rfl, hc⟩⟩

end Letters

section Necessary

variable {T : CharTables} {nfkc : Str → Str} {text : Str}

theorem normalize_everywhere (hnfkc : ∀ other, Inserted text other → nfkc other = other) :
    ∃ other, Inserted text other ∧ normalize T nfkc other = flattened text := by
  have hinserted : Inserted text (around text [] []) := by
    have haround := inserted_around text [] []
    rwa [List.append_nil, List.append_nil] at haround
  have hcalm : Calm T none (around text [] []) := calm_around text [] (calm_nil none)
  have hcollapsed : collapseSeparatorPunctuation T (collapseSpacedText T (around text [] [])) = around text [] [] := by
    rw [collapse_quiet hcalm.letters hcalm.blanks, collapse_calm hcalm]
  have hnormalized := normalize_around (hnfkc _ hinserted) hcollapsed (free_short (by decide) (Nat.zero_le 1))
  rw [List.append_nil, List.append_nil] at hnormalized
  exact ⟨_, hinserted, hnormalized⟩

variable (hnfkc : ∀ other, Inserted text other → nfkc other = other)
  (hflat : ∀ other, Inserted text other → normalize T nfkc other = flattened text)

include hnfkc hflat

theorem shown_normalized {other : Str} (h : Inserted text other) : shown text =
    shown (stripComments (fusedWhitespace T (collapseSeparatorPunctuation T (collapseSpacedText T other)))) := by
  have hlength := congrArg List.length (hflat other h)
  rw [normalize, hnfkc other h] at hlength
  rw [← shown_flat text]
  exact hlength.symm

theorem shown_calm {other : Str} (h : Inserted text other) (hcalm : Calm T none other) :
    shown text = shown (stripComments (T.strip (other.map flat))) := by
  have hshown := shown_normalized hnfkc hflat h
  rwa [collapse_quiet hcalm.letters hcalm.blanks, collapse_calm hcalm, fusedWhitespace_flat] at hshown

theorem shown_around {other u w v : Str} (h : Inserted text other) (hother : other = around u w v) (hcalm : Calm T none w) :
    shown (stripComments (other.map flat)) = shown (other.map flat) := by
  subst hother
  have hshown := shown_calm hnfkc hflat h (calm_around u v hcalm)
  rw [← fusedWhitespace_flat, fusedWhitespace_solid (solidEnds_around u w v)] at hshown
  rw [← hshown, shown_flat, shown_inserted h]

theorem shown_strip {front back : Str} {c : Char} (hc : T.space c = true) (h : Inserted text (front ++ c :: back))
    (hcalm : Calm T none (front ++ c :: back)) (hends : front = [] ∨ back = []) : False := by
  have hshown := shown_calm hnfkc hflat h hcalm
  have hstrip : T.strip ((front ++ c :: back).map flat) = T.strip ((front ++ back).map flat) := by
    have hspaces : ∀ d ∈ [flat c], T.space d = true := by simp [space_flat, hc]
    rcases hends with rfl | rfl
    · exact Unicode.strip_spaces_append hspaces (back.map flat)
    · rw [List.map_append, List.append_nil]
      exact Unicode.strip_append_spaces hspaces (front.map flat)
  have hle := shown_late T (front ++ back)
  have hpos := shown_cons_pos (visible_of_space hc) []
  rw [hstrip, ← shown_inserted h, ← List.singleton_append, shown_append, shown_append] at hshown
  rw [shown_append] at hle
  omega

theorem ends_solid : SolidEnds T text := by
  have hz := zwsp_zeroWidth
  have hscattered : ∀ rest, Calm T (some zwsp) (scattered zwsp rest) := by
    intro rest
    have hcalm := (calm_nil (T := T) (some zwsp)).scattered hz rest
    rwa [List.append_nil] at hcalm
  refine ⟨fun c hc => ?_, fun c hc => ?_⟩
  · obtain ⟨rest,rfl⟩ := List.head?_eq_some_iff.mp hc
    rw [← Bool.not_eq_true]
    intro hspace
    have hinserted : Inserted (c :: rest) ([] ++ c :: zwsp :: scattered zwsp rest) :=
      ((inserted_scattered rest).insert hz).keep c
    exact shown_strip hnfkc hflat hspace hinserted ((calm_single none c).severed hz (hscattered rest)) (.inl rfl)
  · obtain ⟨front,rfl⟩ := List.getLast?_eq_some_iff.mp hc
    rw [← Bool.not_eq_true]
    intro hspace
    have hinserted : Inserted (front ++ [c]) ((zwsp :: scattered zwsp front) ++ c :: []) :=
      ((inserted_scattered front).insert hz).append (inserted_refl [c])
    refine shown_strip hnfkc hflat hspace hinserted ?_ (.inr rfl)
    exact (calm_nil none).severed hz ((calm_single (some zwsp) c).scattered hz front)

theorem no_slashes : ¬"//".toList <:+: text := by
  rintro ⟨u,v,rfl⟩
  rw [List.append_assoc] at hnfkc hflat
  have hshown := shown_around hnfkc hflat (inserted_around u "//".toList v) rfl (calm_marks (by decide) (by decide) rfl)
  refine absurd hshown (stripComments_lt (.inr (.inr fun hquiet => ?_))).ne
  have hmatch : ∀ rest, lineComment (some zwsp) ("//".toList ++ zwsp :: rest) ≠ none := by
    intro rest
    rw [lineComment, literal_append]
    exact Option.some_ne_none _
  rw [map_flat_around, around, ← List.cons_append, show "//".toList.map flat = "//".toList by decide] at hquiet
  have hnone := (Quiet.of_append hquiet).1
  rw [lastOr, getLast?_scattered, Option.some_or] at hnone
  exact hmatch _ hnone

theorem not_encloses {startMark endMark : Str} (hmarks : (startMark, endMark) = ("<!--".toList, "-->".toList) ∨
    (startMark, endMark) = ("/*".toList, "*/".toList)) : ¬Encloses startMark endMark text := by
  have hcalm : ∀ before : Option Char, before.any T.word = false → Calm T before startMark ∧ Calm T before endMark := by
    intro before hbefore
    rcases hmarks with heq | heq <;> cases heq <;>
      exact ⟨calm_marks (by decide) (by decide) hbefore, calm_marks (by decide) (by decide) hbefore⟩
  rintro ⟨u,v,w,rfl⟩
  have hz := zwsp_zeroWidth
  have hinserted : Inserted (startMark ++ (v ++ endMark)) (startMark ++ zwsp :: (scattered zwsp v ++ endMark)) :=
    (inserted_refl startMark).append (((inserted_scattered v).append (inserted_refl endMark)).insert hz)
  have htext : u ++ (startMark ++ (v ++ (endMark ++ w))) = u ++ (startMark ++ (v ++ endMark) ++ w) := by
    simp only [List.append_assoc]
  rw [htext] at hnfkc hflat
  have hwindow := (hcalm none rfl).1.severed hz
    (((hcalm (some zwsp) (neutral_zeroWidth hz).not_word).2).scattered hz v)
  have hshown := shown_around hnfkc hflat (hinserted.around u w) rfl hwindow
  have hencloses : Encloses startMark endMark
      ((around u (startMark ++ zwsp :: (scattered zwsp v ++ endMark)) w).map flat) := by
    refine ⟨zwsp :: scattered zwsp (u.map flat), zwsp :: scattered zwsp (v.map flat), zwsp :: scattered zwsp (w.map flat), ?_⟩
    have hfixed : startMark.map flat = startMark ∧ endMark.map flat = endMark := by
      rcases hmarks with heq | heq <;> cases heq <;> decide
    simp [around, map_flat_scattered, hfixed, show flat zwsp = zwsp by decide]
  rcases hmarks with heq | heq <;> cases heq
  · exact absurd hshown (stripComments_lt (.inl hencloses)).ne
  · exact absurd hshown (stripComments_lt (.inr (.inl hencloses))).ne

theorem blanks_quiet : Quiet (blanksAt T) none text := by
  by_contra hnot
  obtain ⟨u,a,rest,rfl,hmatch⟩ := not_quiet_cases hnot
  rw [blanksAt] at hmatch
  split at hmatch
  · exact hmatch rfl
  · next hrun =>
    cases rest with
    | nil => exact hrun ((List.takeWhile_prefix _).length_le.trans_lt (by simp))
    | cons b v =>
      have ha : T.space a = true := by
        by_contra ha
        rw [List.takeWhile_cons_of_neg ha] at hrun
        exact hrun (by decide)
      have hb : T.space b = true := by
        by_contra hb
        rw [List.takeWhile_cons_of_pos ha, List.takeWhile_cons_of_neg hb] at hrun
        exact hrun (by simp)
      have hinserted : Inserted (u ++ a :: b :: v) (around u [a, b] v) := inserted_around u [a, b] v
      have hmatch : blanksAt T (some zwsp) (a :: ([b] ++ zwsp :: scattered zwsp v)) =
          some ([' '], zwsp :: scattered zwsp v) := by
        rw [List.singleton_append, blanksAt, List.takeWhile_cons_of_pos ha, List.takeWhile_cons_of_pos hb,
          List.dropWhile_cons_of_pos ha, List.dropWhile_cons_of_pos hb,
          List.dropWhile_cons_of_neg (by simp [space_zwsp]), if_neg (by simp)]
      have hletters : Quiet (spacedSingleChar T) none [a, b] :=
        ⟨spacedSingleChar_eq_none_iff.mpr (by simp [T.not_word_of_space a ha]),
          spacedSingleChar_eq_none_iff.mpr (by simp [T.not_word_of_space b hb]), trivial⟩
      have hspaced := quiet_around (severs_spacedSingleChar (neutral_zeroWidth zwsp_zeroWidth))
        (fun c => (calm_single none c).letters.1) u v hletters
      have hcollapsed : collapseSpacedText T (around u [a, b] v) = around u [' '] v := by
        rw [collapseSpacedText, show sub (spacedAt T) (around u [a, b] v) = around u [a, b] v from
          (spacedAt_quiet hspaced).sub]
        exact sub_around (severs_blanksAt (neutral_zeroWidth zwsp_zeroWidth))
          (fun c => (calm_single (T := T) none c).blanks.1) u v (subFrom_some hmatch)
      have hnormalized := normalize_around (hnfkc _ hinserted)
        ((congrArg (collapseSeparatorPunctuation T) hcollapsed).trans
          (collapse_calm (calm_around u v (calm_single none ' ')))) (free_short (by decide) (Nat.le_refl 1))
      rw [hflat _ hinserted] at hnormalized
      have hclash := congrArg List.length (@flattened_window u [a, b] [' '] v hnormalized)
      rw [← List.singleton_append, flattened_append, flattened_single (visible_flat (visible_of_space ha)),
        flattened_single (visible_flat (visible_of_space hb)), flattened_single (by decide)] at hclash
      cases hclash

theorem letters_quiet : Quiet (spacedSingleChar T) none text := by
  by_contra hnot
  obtain ⟨front,a,rest,rfl,hmatch⟩ := not_quiet_cases hnot
  rw [ne_eq, spacedSingleChar_eq_none_iff, not_not] at hmatch
  obtain ⟨hbefore,ha,hunits⟩ := hmatch
  obtain ⟨u,p,opening,rfl,hopens⟩ := opens_of_all hbefore
  obtain ⟨s,b,s',d,closing,v,q,rfl,⟨hs,hb,hs',hd⟩,hcloses⟩ := closes_of_units hunits
  have hinserted : Inserted (u ++ opening ++ a :: ([s, b, s', d] ++ (closing ++ v)))
      (p ++ (opening ++ ([a, s, b, s', d] ++ (closing ++ q)))) := by
    rw [List.append_assoc]
    exact (opens_padded hopens).inserted.append ((inserted_refl opening).append ((inserted_refl [a, s, b, s', d]).append
      ((inserted_refl closing).append (closes_padded hcloses).inserted)))
  have hshown := shown_normalized hnfkc hflat hinserted
  rw [collapse_letters hopens hcloses ha hs hb hs' hd, fusedWhitespace_flat, ← shown_inserted hinserted] at hshown
  have hle := hshown.le.trans (shown_late T _)
  simp only [shown_append] at hle
  have hfive : shown [a, s, b, s', d] = 5 := by
    simp [shown, deobfuscateMarkdown, visible_of_word ha, visible_of_space hs, visible_of_word hb, visible_of_space hs',
      visible_of_word hd]
  have hthree : shown [a, if isSeparator b then ' ' else b, d] ≤ 3 := List.length_filter_le _ _
  omega

theorem separators_quiet : Quiet (separatorAt T) none text := by
  by_contra hnot
  obtain ⟨front,p,rest,rfl,hmatch⟩ := not_quiet_cases hnot
  rw [ne_eq, separatorAt_eq_none_iff, not_not] at hmatch
  obtain ⟨hfront,hp,hrest⟩ := hmatch
  rcases List.eq_nil_or_concat front with rfl | ⟨u,a,rfl⟩
  · cases hfront
  · cases rest with
    | nil => cases hrest
    | cons d v =>
      have ha : T.word a = true := by simpa [lastOr] using hfront
      have hsplit : u.concat a ++ p :: d :: v = u ++ ([a, p, d] ++ v) := by simp
      rw [hsplit] at hnfkc hflat
      have hinserted := inserted_around u [a, p, d] v
      have hnormalized := normalize_around (hnfkc _ hinserted) (collapse_separated ha hp hrest)
        (free_triple ['/', '<'] (by decide) (by decide) ha (by decide) hrest)
      rw [hflat _ hinserted] at hnormalized
      have hclash := @flattened_window [a] [p] [' '] [d] (flattened_window hnormalized)
      have hpflat : flat p = p := flat_eq_self (space_of_isSeparator (T := T) hp)
      have hvisible : isZeroWidth (flat p) = false := by
        rw [hpflat, ← Bool.not_eq_true]
        intro hz
        rw [(neutral_zeroWidth (T := T) hz).not_separator] at hp
        cases hp
      rw [flattened_single hvisible, flattened_single (by decide), hpflat] at hclash
      rw [(List.cons.inj hclash).1] at hp
      exact absurd hp (by decide)

theorem inert_of_flat : Inert T text where
  letters := letters_quiet hnfkc hflat
  blanks := blanks_quiet hnfkc hflat
  separators := separators_quiet hnfkc hflat
  ends := ends_solid hnfkc hflat
  slashes := no_slashes hnfkc hflat
  html := not_encloses hnfkc hflat (.inl rfl)
  block := not_encloses hnfkc hflat (.inr rfl)

end Necessary

section Transparent

theorem markersRestored_of_unmarked {T : CharTables} {text : Str} (h : Inert T text) (hmarks : ¬"<|".toList <:+: text) :
    MarkersRestored T text := by
  rw [MarkersRestored, markerPairs, if_neg hmarks]
  exact late_inert h.ends h.slashes h.html h.block

theorem zero_width_transparent_iff (T : CharTables) (nfkc : Str → Str) (text : Str)
    (hnfkc : ∀ other, Inserted text other → nfkc other = other) :
    ((∀ other, Inserted text other → normalize T nfkc other = normalize T nfkc text) ↔
      Inert T text ∧ ∀ other, Inserted text other → MarkersRestored T other) ∧
    (¬"LLMTOKEN".toList <:+: text ∨ ¬"<|".toList <:+: text →
      ((∀ other, Inserted text other → normalize T nfkc other = normalize T nfkc text) ↔ Inert T text)) := by
  have hiff : (∀ other, Inserted text other → normalize T nfkc other = normalize T nfkc text) ↔
      Inert T text ∧ ∀ other, Inserted text other → MarkersRestored T other := by
    constructor
    · intro htransparent
      obtain ⟨everywhere,hinserted,hflat⟩ := normalize_everywhere (T := T) hnfkc
      rw [htransparent everywhere hinserted] at hflat
      have hinert : Inert T text := inert_of_flat hnfkc fun other hother => (htransparent other hother).trans hflat
      refine ⟨hinert, fun other hother => (normalize_inert (hnfkc other hother) (hother.inert hinert)).mp ?_⟩
      rw [htransparent other hother, hflat, flattened_inserted hother]
    · rintro ⟨hinert,hrestored⟩ other hother
      have hself := inserted_refl text
      rw [(normalize_inert (hnfkc other hother) (hother.inert hinert)).mpr (hrestored other hother),
        (normalize_inert (hnfkc text hself) hinert).mpr (hrestored text hself), flattened_inserted hother]
  refine ⟨hiff, fun hplain => hiff.trans ⟨And.left, fun hinert => ⟨hinert, fun other hother => ?_⟩⟩⟩
  rcases hplain with hplain | hplain
  · exact markersRestored_of_free (hother.inert hinert)
      fun hinside => hplain (hother.inside (forall_mem_of_all (by decide)) hinside)
  · exact markersRestored_of_unmarked (hother.inert hinert)
      fun hinside => hplain (hother.inside (forall_mem_of_all (by decide)) hinside)

theorem hi_transparent : normalize .basic id ['h', zwsp, 'i'] = "hi".toList := by
  have hfirst : ∀ c, "hi".toList.head? = some c → CharTables.basic.space c = false := by
    rintro c ⟨⟩
    decide
  have hlast : ∀ c, "hi".toList.getLast? = some c → CharTables.basic.space c = false := by
    rintro c ⟨⟩
    decide
  have hinert : Inert .basic "hi".toList :=
    { letters := ⟨rfl, rfl, trivial⟩
      blanks := ⟨rfl, rfl, trivial⟩
      separators := ⟨rfl, rfl, trivial⟩
      ends := ⟨hfirst,hlast⟩
      slashes := by decide
      html := fun h => absurd h.inside (by decide)
      block := fun h => absurd h.inside (by decide) }
  have hinserted : Inserted "hi".toList ['h', zwsp, 'i'] := .keep _ (.insert zwsp_zeroWidth (inserted_refl _))
  exact ((zero_width_transparent_iff .basic id "hi".toList fun _ _ => rfl).2 (.inl (by decide))).mpr hinert _ hinserted

-- A zero-width space in front of the dot saves it.
theorem dot_behind_zero_width : ¬∀ (T : CharTables) (nfkc : Str → Str) (text other : Str), nfkc text = text →
    nfkc other = other → Inserted text other → normalize T nfkc other = normalize T nfkc text := by
  intro htransparent
  have hinserted : Inserted "a.b".toList ['a', zwsp, '.', 'b'] :=
    .keep _ (.insert zwsp_zeroWidth (inserted_refl _))
  have hsame := htransparent .basic id _ _ rfl rfl hinserted
  exact absurd hsame (by decide +kernel)

end Transparent

end PicoSentry.Watch.Normalizer
