import PicoSentry.Watch.Normalizer

namespace PicoSentry.Watch.Normalizer

open Foundation

section Blanks

variable {T : CharTables}

theorem proper_blanksAt : Proper (blanksAt T) := by
  intro _ c rest x after h
  rw [blanksAt] at h
  split at h
  · cases h
  · next hrun =>
    cases h
    cases hc : T.space c with
    | true =>
      rw [List.dropWhile_cons_of_pos hc]
      exact List.dropWhile_suffix _
    | false =>
      rw [List.takeWhile_cons_of_neg (by simp [hc])] at hrun
      exact absurd (Nat.zero_lt_two) hrun

theorem not_blank_dropWhile (text : Str) : ¬Blank T.space (text.dropWhile T.space) := by
  rintro ⟨c,hhead,hc⟩
  have hnot := List.head?_dropWhile_not T.space text
  rw [hhead] at hnot
  exact Bool.false_ne_true (hnot.symm.trans hc)

theorem apart_blanks {before : Option Char} {text out : Str} (h : Substituted (blanksAt T) before text out) :
    Apart T.space out ∧ (Blank T.space out → Blank T.space text) := by
  induction h with
  | nil => exact ⟨.nil, id⟩
  | @pass before c rest out hnone _ ih =>
    obtain ⟨hout,hhead⟩ := ih
    refine ⟨hout.cons fun hblank => ?_, id⟩
    obtain ⟨d,hd,hspace⟩ := hhead hblank
    rw [← Bool.not_eq_true]
    intro hc
    cases rest with
    | nil => cases hd
    | cons e rest =>
      cases hd
      rw [blanksAt, List.takeWhile_cons_of_pos hc, List.takeWhile_cons_of_pos hspace, if_neg (by simp)] at hnone
      cases hnone
  | @exchange before c w x after out hmatch _ ih =>
    obtain ⟨hout,hhead⟩ := ih
    rw [blanksAt] at hmatch
    split at hmatch
    · cases hmatch
    · next hrun =>
      obtain ⟨rfl,hafter⟩ := Prod.mk.inj (Option.some.inj hmatch)
      refine ⟨hout.cons fun hblank => ?_, fun _ => ⟨c, rfl, ?_⟩⟩
      · have hrest := hhead hblank
        rw [← hafter] at hrest
        exact absurd hrest (not_blank_dropWhile _)
      · by_contra hc
        rw [List.takeWhile_cons_of_neg hc] at hrun
        exact hrun Nat.zero_lt_two

theorem apart_collapseSpacedText (text : Str) : Apart T.space (collapseSpacedText T text) :=
  (apart_blanks (substituted_sub proper_blanksAt _)).1

end Blanks

section Originals

variable {T : CharTables}

theorem space_of_ascii {c : Char} (hascii : c.toNat < 128) (hnot : asciiSpaces.contains c.toNat = false) :
    T.space c = false := by
  rw [T.space_ascii c hascii, hnot]

theorem space_of_isDecimal {c : Char} (h : isDecimal T c = true) : T.space c = false := by
  rw [← Bool.not_eq_true]
  intro hspace
  have hword := T.word_of_digit c h
  rw [T.not_word_of_space c hspace] at hword
  cases hword

theorem readOctet_parts {text ds after : Str} (h : readOctet T text = some (ds, after)) :
    text = ds ++ after ∧ ds ≠ [] ∧ ∀ c ∈ ds, isDecimal T c = true := by
  rw [readOctet] at h
  split at h
  · cases h
  · next hne =>
    obtain ⟨rfl,rfl⟩ := Prod.mk.inj (Option.some.inj h)
    have hbegins : (text.takeWhile (isDecimal T)).take 3 <+: text :=
      (List.take_prefix _ _).trans (List.takeWhile_prefix _)
    exact ⟨(List.prefix_iff_eq_append.mp hbegins).symm, hne, fun c hc => List.mem_takeWhile_imp (List.mem_of_mem_take hc)⟩

theorem readOctets_parts {n : Nat} {text x after : Str} (h : readOctets T (n + 1) text = some (x, after)) :
    text = x ++ after ∧ ∃ c rest, x = c :: rest ∧ isDecimal T c = true := by
  induction n generalizing text x with
  | zero =>
    obtain ⟨⟨octet,behind⟩,hoctet,h⟩ := Option.bind_eq_some_iff.mp h
    obtain ⟨rest,hdot,h⟩ := Option.bind_eq_some_iff.mp h
    obtain ⟨rfl,rfl⟩ := Prod.mk.inj (Option.some.inj h)
    obtain ⟨rfl,hne,hdigits⟩ := readOctet_parts hoctet
    dsimp only at hdot
    rw [literal_eq_some_iff.mp hdot, List.append_assoc]
    obtain ⟨c,octet,rfl⟩ := List.exists_cons_of_ne_nil hne
    exact ⟨rfl, c, _, rfl, hdigits c List.mem_cons_self⟩
  | succ n ih =>
    obtain ⟨⟨octet,behind⟩,hoctet,h⟩ := Option.bind_eq_some_iff.mp h
    obtain ⟨rest,hdot,h⟩ := Option.bind_eq_some_iff.mp h
    obtain ⟨⟨octets,left⟩,hoctets,h⟩ := Option.bind_eq_some_iff.mp h
    obtain ⟨rfl,rfl⟩ := Prod.mk.inj (Option.some.inj h)
    obtain ⟨rfl,hne,hdigits⟩ := readOctet_parts hoctet
    dsimp only at hdot
    rw [literal_eq_some_iff.mp hdot, (ih hoctets).1, List.append_assoc]
    obtain ⟨c,octet,rfl⟩ := List.exists_cons_of_ne_nil hne
    exact ⟨rfl, c, _, rfl, hdigits c List.mem_cons_self⟩

theorem readOctets_chars {n : Nat} {text x after : Str} (h : readOctets T n text = some (x, after)) :
    2 * n ≤ x.length ∧ ∀ c ∈ x, isDecimal T c = true ∨ c = '.' := by
  induction n generalizing text x with
  | zero =>
    obtain ⟨rfl,_⟩ := Prod.mk.inj (Option.some.inj h)
    exact ⟨Nat.zero_le _, by simp⟩
  | succ n ih =>
    obtain ⟨⟨octet,behind⟩,hoctet,h⟩ := Option.bind_eq_some_iff.mp h
    obtain ⟨rest,_,h⟩ := Option.bind_eq_some_iff.mp h
    obtain ⟨⟨octets,left⟩,hoctets,h⟩ := Option.bind_eq_some_iff.mp h
    obtain ⟨rfl,rfl⟩ := Prod.mk.inj (Option.some.inj h)
    obtain ⟨_,hne,hdigits⟩ := readOctet_parts hoctet
    obtain ⟨hlong,hchars⟩ := ih hoctets
    have hpos := List.length_pos_iff.mpr hne
    refine ⟨?_, fun c hc => ?_⟩
    · simp only [List.length_append, List.length_cons]
      omega
    · rcases List.mem_append.mp hc with hc | hc
      · exact .inl (hdigits c hc)
      · rcases List.mem_cons.mp hc with rfl | hc
        · exact .inr rfl
        · exact hchars c hc

theorem ipAddress_chars {before : Option Char} {text x after : Str} (h : ipAddress T before text = some (x, after)) :
    7 ≤ x.length ∧ ∀ c ∈ x, isDecimal T c = true ∨ c = '.' := by
  rw [ipAddress] at h
  split at h
  · cases h
  · obtain ⟨⟨octets,behind⟩,hoctets,h⟩ := Option.bind_eq_some_iff.mp h
    obtain ⟨⟨octet,left⟩,hoctet,h⟩ := Option.bind_eq_some_iff.mp h
    dsimp only at hoctet h
    split at h
    · cases h
    · obtain ⟨rfl,rfl⟩ := Prod.mk.inj (Option.some.inj h)
      obtain ⟨hlong,hchars⟩ := readOctets_chars hoctets
      obtain ⟨_,hne,hdigits⟩ := readOctet_parts hoctet
      have hpos := List.length_pos_iff.mpr hne
      refine ⟨?_, fun c hc => ?_⟩
      · rw [List.length_append]
        omega
      · exact (List.mem_append.mp hc).elim (hchars c) fun hc => .inl (hdigits c hc)

def FindsFirm (T : CharTables) (matchAt : Matcher Str) : Prop :=
  ∀ before text x after, matchAt before text = some (x, after) → text = x ++ after ∧ Firm T.space x

theorem ipAddress_firm : FindsFirm T (ipAddress T) := by
  intro before text x after h
  rw [ipAddress] at h
  split at h
  · cases h
  · obtain ⟨⟨octets,behind⟩,hoctets,h⟩ := Option.bind_eq_some_iff.mp h
    obtain ⟨⟨octet,left⟩,hoctet,h⟩ := Option.bind_eq_some_iff.mp h
    dsimp only at hoctet h
    split at h
    · cases h
    · obtain ⟨rfl,rfl⟩ := Prod.mk.inj (Option.some.inj h)
      obtain ⟨rfl,c,rest,rfl,hc⟩ := readOctets_parts hoctets
      obtain ⟨rfl,hne,hdigits⟩ := readOctet_parts hoctet
      refine ⟨(List.append_assoc _ _ _).symm, ⟨c, rest ++ octet, rfl, space_of_isDecimal hc⟩, fun d hd => ?_⟩
      rw [List.getLast?_append_of_ne_nil _ hne] at hd
      exact space_of_isDecimal (hdigits d (List.mem_of_getLast? hd))

theorem llmTokenMarker_firm : FindsFirm T llmTokenMarker := by
  intro before text x after h
  obtain ⟨rest,hopen,h⟩ := Option.bind_eq_some_iff.mp h
  obtain ⟨behind,hclose,h⟩ := Option.bind_eq_some_iff.mp h
  split at h
  · cases h
  · obtain ⟨rfl,rfl⟩ := Prod.mk.inj (Option.some.inj h)
    refine ⟨?_, ⟨'<', _, rfl, space_of_ascii (by decide) (by decide)⟩, fun d hd => ?_⟩
    · rw [literal_eq_some_iff.mp hopen, List.append_assoc, List.append_assoc, ← literal_eq_some_iff.mp hclose,
        List.takeWhile_append_dropWhile]
    · rw [List.getLast?_append_of_ne_nil _ (by decide)] at hd
      cases hd
      exact space_of_ascii (by decide) (by decide)

theorem urlScheme_firm : FindsFirm T urlScheme := by
  intro before text x after h
  obtain ⟨scheme,hmem,h⟩ := List.exists_of_findSome?_eq_some h
  obtain ⟨rest,hrest,h⟩ := Option.bind_eq_some_iff.mp h
  obtain ⟨rfl,rfl⟩ := Prod.mk.inj (Option.some.inj h)
  have hletters : ∀ scheme ∈ urlSchemes, scheme.head?.any (fun c =>
      decide (c.toNat < 128) && !asciiSpaces.contains c.toNat) = true := by decide
  have hhead := hletters scheme hmem
  refine ⟨literal_eq_some_iff.mp hrest, ?_, fun d hd => ?_⟩
  · cases scheme with
    | nil => cases hhead
    | cons c scheme =>
      obtain ⟨hascii,hnot⟩ := Bool.and_eq_true_iff.mp hhead
      exact ⟨c, _, rfl, space_of_ascii (of_decide_eq_true hascii) (by simpa using hnot)⟩
  · rw [List.getLast?_append_of_ne_nil _ (by decide)] at hd
    cases hd
    exact space_of_ascii (by decide) (by decide)

end Originals

section Restored

variable {T : CharTables} {text : Str}

theorem mem_numbered {name : String} {originals : List Str} {pair : Str × Str} (h : pair ∈ numbered name originals) :
    pair.1 ≠ [] ∧ pair.2 ∈ originals := by
  obtain ⟨⟨original,idx⟩,hmem,rfl⟩ := List.mem_map.mp h
  exact ⟨List.cons_ne_nil _ _, List.fst_mem_of_mem_zipIdx hmem⟩

theorem found_original {matchAt : Matcher Str} (hfirm : FindsFirm T matchAt) (happart : Apart T.space text) {x : Str}
    (h : x ∈ finditer matchAt text) : Apart T.space x ∧ Firm T.space x := by
  obtain ⟨passed,rest,after,hreached,_,hmatch⟩ := mem_finditer.mp h
  obtain ⟨hrest,hx⟩ := hfirm _ _ _ _ hmatch
  have htext : passed ++ rest = text := hreached.append
  rw [← htext, hrest] at happart
  exact ⟨List.IsChain.left_of_append (List.IsChain.right_of_append happart), hx⟩

theorem placeholders_firm (happart : Apart T.space text) {pair : Str × Str} (h : pair ∈ placeholders T text) :
    pair.1 ≠ [] ∧ Apart T.space pair.2 ∧ Firm T.space pair.2 := by
  rw [placeholders, List.mem_append, List.mem_append] at h
  rcases h with h | h | h
  · split at h
    · exact (mem_numbered h).imp_right (found_original llmTokenMarker_firm happart)
    · cases h
  · split at h
    · exact (mem_numbered h).imp_right (found_original ipAddress_firm happart)
    · cases h
  · split at h
    · exact (mem_numbered h).imp_right (found_original urlScheme_firm happart)
    · cases h

theorem apart_restore {pairs : List (Str × Str)} (happart : Apart T.space text)
    (hpairs : ∀ pair ∈ pairs, pair.1 ≠ [] ∧ Apart T.space pair.2 ∧ Firm T.space pair.2) :
    Apart T.space (restore pairs text) := by
  induction pairs generalizing text with
  | nil => exact happart
  | cons pair pairs ih =>
    obtain ⟨hne,hfirm⟩ := hpairs pair List.mem_cons_self
    refine ih (happart.substituted ?_ (substituted_sub (proper_replacing hne pair.2) text)).1
      fun pair hpair => hpairs pair (List.mem_cons_of_mem _ hpair)
    intro _ rest x after hmatch
    obtain ⟨_,_,heq⟩ := Option.map_eq_some_iff.mp hmatch
    obtain ⟨rfl,_⟩ := Prod.mk.inj heq
    exact hfirm

theorem apart_collapseSeparatorPunctuation (happart : Apart T.space text) :
    Apart T.space (collapseSeparatorPunctuation T text) :=
  apart_restore (apart_collapseSpacedText _) fun _ => placeholders_firm happart

end Restored

section Whitespace

variable {T : CharTables}

theorem wsToSpace_of_space {c : Char} (hc : T.space c = true) (hne : c ≠ '\n') : wsToSpace c = ' ' := by
  rw [T.space_exact, List.contains_iff_mem] at hc
  have hcodes : ∀ n ∈ whitespaceCodes, n = 0x0A ∨ wsExceptNl.contains n = true := by decide
  rcases hcodes _ hc with hnl | hmem
  · refine absurd ?_ hne
    rw [← Char.ofNat_toNat c, hnl]
  · rw [wsToSpace, if_pos hmem]

theorem wsToSpace_eq_self {c : Char} (h : T.space c = false ∨ c = '\n') : wsToSpace c = c := by
  rw [wsToSpace, if_neg]
  rcases h with hc | rfl
  · intro hmem
    have hcodes : ∀ n ∈ wsExceptNl, whitespaceCodes.contains n = true := by decide
    rw [T.space_exact, hcodes _ (List.contains_iff_mem.mp hmem)] at hc
    cases hc
  · decide

theorem space_wsToSpace (c : Char) : T.space (wsToSpace c) = T.space c := by
  cases hc : T.space c with
  | false => rw [wsToSpace_eq_self (.inl hc), hc]
  | true =>
    by_cases hne : c = '\n'
    · rw [wsToSpace_eq_self (T := T) (.inr hne), hc]
    · rw [wsToSpace_of_space hc hne, T.space_ascii _ (by decide)]
      decide

theorem replaceStr_char (a b : Char) (text : Str) :
    replaceStr [a] [b] text = text.map fun c => if c = a then b else c := by
  have hfrom : ∀ before : Option Char, subFrom (replacing [a] [b]) before 0 text =
      text.map fun c => if c = a then b else c := by
    induction text with
    | nil => exact fun _ => rfl
    | cons c rest ih =>
      intro before
      by_cases hc : c = a
      · have hmatch : replacing [a] [b] before (c :: ([] ++ rest)) = some ([b], rest) := by
          rw [replacing, List.nil_append, literal_eq_some_iff.mpr (by rw [hc]; rfl)]
          rfl
        rw [List.map_cons, if_pos hc, ← ih (some c)]
        exact subFrom_some hmatch
      · have hmatch : replacing [a] [b] before (c :: rest) = none := by
          rw [replacing, literal, if_neg]
          · rfl
          · rintro ⟨tail,htail⟩
            exact hc (List.cons.inj htail).1.symm
        rw [subFrom_none hmatch, ih, List.map_cons, if_neg hc]
  exact hfrom none

theorem space_lineFeed : T.space '\n' = true := by
  rw [T.space_ascii _ (by decide)]
  decide

theorem space_carriageReturn : T.space '\r' = true := by
  rw [T.space_ascii _ (by decide)]
  decide

theorem crlf_quiet {before : Option Char} {text : Str} (happart : Apart T.space text) :
    Quiet (replacing ['\r', '\n'] ['\n']) before text := by
  induction text generalizing before with
  | nil => trivial
  | cons c rest ih =>
    refine ⟨?_, ih happart.tail⟩
    rw [replacing, literal, if_neg]
    · rfl
    · rintro ⟨tail,htail⟩
      obtain ⟨rfl,rfl⟩ := List.cons.inj htail
      have hcr := happart.head ⟨'\n', rfl, space_lineFeed⟩
      rw [space_carriageReturn] at hcr
      cases hcr

theorem apart_map {f : Char → Char} (hf : ∀ c, T.space (f c) = T.space c) {text : Str} (h : Apart T.space text) :
    Apart T.space (text.map f) := by
  refine (List.isChain_map f).mpr (h.imp fun a b hnot => ?_)
  rw [hf, hf]
  exact hnot

theorem subFrom_lineBlanks {before : Option Char} {text : Str} (happart : Apart T.space text) :
    subFrom (lineBlanksAt T) before 0 text = text.map wsToSpace := by
  induction text generalizing before with
  | nil => rfl
  | cons c rest ih =>
    by_cases hc : T.space c = true ∧ c ≠ '\n'
    · have hrun : (c :: rest).takeWhile (fun d => T.space d && d ≠ '\n') = [c] := by
        rw [List.takeWhile_cons_of_pos (by simp [hc])]
        cases rest with
        | nil => rfl
        | cons d rest =>
          have hd : T.space d = false := by
            rw [← Bool.not_eq_true]
            intro hspace
            have hnot := happart.head ⟨d, rfl, hspace⟩
            rw [hc.1] at hnot
            cases hnot
          rw [List.takeWhile_cons_of_neg (by simp [hd])]
      have hmatch : lineBlanksAt T before (c :: ([] ++ rest)) = some ([' '], rest) := by
        rw [List.nil_append, lineBlanksAt, hrun]
        rfl
      rw [List.map_cons, wsToSpace_of_space hc.1 hc.2, ← ih happart.tail]
      exact subFrom_some hmatch
    · have hmatch : lineBlanksAt T before (c :: rest) = none := by
        rw [lineBlanksAt, List.takeWhile_cons_of_neg (by simpa using hc)]
        rfl
      have hkept : T.space c = false ∨ c = '\n' := by
        rw [not_and_or, Bool.not_eq_true, not_not] at hc
        exact hc
      rw [subFrom_none hmatch, ih happart.tail, List.map_cons, wsToSpace_eq_self hkept]

theorem newlines_quiet {before : Option Char} {text : Str} (happart : Apart T.space text) :
    Quiet newlinesAt before text := by
  induction text generalizing before with
  | nil => trivial
  | cons c rest ih =>
    refine ⟨?_, ih happart.tail⟩
    rw [newlinesAt, if_pos]
    by_contra hlong
    cases rest with
    | nil => exact hlong ((List.takeWhile_prefix _).length_le.trans_lt (by simp))
    | cons d rest =>
      by_cases hc : c = '\n'
      · by_cases hd : d = '\n'
        · rw [hc, hd] at happart
          have hnl := happart.head ⟨'\n', rfl, space_lineFeed⟩
          rw [space_lineFeed] at hnl
          cases hnl
        · rw [List.takeWhile_cons_of_pos (by simpa using hc), List.takeWhile_cons_of_neg (by simpa using hd)] at hlong
          exact hlong (by simp)
      · rw [List.takeWhile_cons_of_neg (by simpa using hc)] at hlong
        exact hlong (by decide)

theorem fusedWhitespace_eq {text : Str} (happart : Apart T.space text) :
    fusedWhitespace T text = normalizeWhitespace T text := by
  have hreturns : ∀ c, T.space (if c = '\r' then '\n' else c) = T.space c := by
    intro c
    split
    · next hc => rw [hc, space_lineFeed, space_carriageReturn]
    · rfl
  have hlines : Apart T.space (replaceStr ['\r'] ['\n'] text) := by
    rw [replaceStr_char]
    exact apart_map hreturns happart
  rw [fusedWhitespace, normalizeWhitespace, show replaceStr ['\r', '\n'] ['\n'] text = text from (crlf_quiet happart).sub]
  rw [show sub (lineBlanksAt T) (replaceStr ['\r'] ['\n'] text) = (replaceStr ['\r'] ['\n'] text).map wsToSpace from
    subFrom_lineBlanks hlines]
  rw [show sub newlinesAt ((replaceStr ['\r'] ['\n'] text).map wsToSpace) =
    (replaceStr ['\r'] ['\n'] text).map wsToSpace from (newlines_quiet (apart_map space_wsToSpace hlines)).sub]

theorem fused_whitespace_exact (T : CharTables) (nfkc : Str → Str) (text : Str) :
    Apart T.space (collapseSeparatorPunctuation T (collapseSpacedText T (nfkc text))) ∧
      fusedWhitespace T (collapseSeparatorPunctuation T (collapseSpacedText T (nfkc text))) =
        normalizeWhitespace T (collapseSeparatorPunctuation T (collapseSpacedText T (nfkc text))) := by
  have happart := apart_collapseSeparatorPunctuation (apart_collapseSpacedText (T := T) (nfkc text))
  exact ⟨happart, fusedWhitespace_eq happart⟩

end Whitespace

end PicoSentry.Watch.Normalizer
