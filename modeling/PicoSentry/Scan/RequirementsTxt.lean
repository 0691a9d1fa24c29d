import PicoSentry.Foundation.Cut
import PicoSentry.Scan.Models
import PicoSentry.Scan.PolicyEngine

namespace PicoSentry.Scan.RequirementsTxt

open Foundation
open Models (splitLines)
open PolicyEngine (pep503Normalize)

section Lines

variable (U : Unicode)

def isIgnored (line : Str) : Bool := line = [] || ['#'].isPrefixOf line || ['-'].isPrefixOf line

def cutComment (opening line : Str) : Str :=
  match splitOnce opening line with
  | some (before, _) => U.strip before
  | none => line

def withoutComment (line : Str) : Str := cutComment U "  #".toList (cutComment U " #".toList line)

end Lines

section LockParser

variable (U : Unicode)

structure LockEntry where
  name : Str
  version : Str
  extras : List Str
  marker : Str
  specifier : Str

def separators : List Str := ["===", ">=", "<=", "!=", "~=", "==", ">", "<"].map String.toList

def opensExtras : Str → Bool
  | '[' :: rest => rest.takeWhile (· ≠ ']') ≠ [] && rest.contains ']'
  | _ => false

-- The first brackets that hold something: the text before them and their content.
def extrasMatch : Str → Option (Str × Str)
  | [] => none
  | c :: rest =>
    if opensExtras (c :: rest) then some ([], rest.takeWhile (· ≠ ']'))
    else (extrasMatch rest).map fun parts => (c :: parts.1, parts.2)

-- The text before the version, the version and the separator; without one the whole raw line is the name.
def versionParts (rawLine line : Str) : Str × Str × Str :=
  match separators.find? (· <:+: line) with
  | none => (U.strip rawLine, [], [])
  | some sep =>
    match splitOnce sep rawLine with
    | some (name, version) => (U.strip name, U.strip version, sep)
    | none => (U.strip rawLine, [], [])

def markerParts (line : Str) : Str × Str :=
  match splitOnce [';'] line with
  | some (line, marker) => (line, U.strip marker)
  | none => (line, [])

def lockEntry (rawLine : Str) : Option LockEntry :=
  let line := U.strip rawLine
  if isIgnored line then none
  else
    let (line, marker) := markerParts U (withoutComment U line)
    let (namePart, version, specifier) := versionParts U rawLine line
    let (name, extras) :=
      match extrasMatch namePart with
      | some (before, extras) => (U.strip before, (extras.splitOn ',').map U.strip)
      | none => (namePart, [])
    if name = [] then none
    else some {
      name := name
      version := if version = [] then ['*'] else version
      extras := extras
      marker := marker
      specifier := specifier }

-- No text: the file is missing or cannot be read.
def parseRequirementsTxt (file : Option Str) : List LockEntry :=
  match file with
  | none => []
  | some text => (splitLines [] text).filterMap (lockEntry U)

end LockParser

section PipParser

variable (U : Unicode)

def skippedPrefixes : List Str :=
  ["git+", "hg+", "svn+", "bzr+", "http://", "https://", "ftp://", "-r ", "-c "].map String.toList

def isSkipped (req : Str) : Bool := skippedPrefixes.any fun start => start.isPrefixOf req

def versionMarks : List Char := ['>', '<', '=', '~', '!', ';', '\n']

-- The first piece of the text split at a bracket and the blanks around it.
def beforeBracket (req : Str) : Str :=
  if '[' ∈ req then (req.takeWhile (· ≠ '[')).rdropWhile U.space else req

def extractPipPackageName (req : Str) : Option Str :=
  let req := U.strip req
  if req = [] then none
  else if isSkipped req then none
  else if [';'].isPrefixOf req then none
  else
    let namePart := U.strip ((beforeBracket U req).takeWhile (· ∉ versionMarks))
    if namePart = [] ∨ [';'].isPrefixOf namePart then none else some namePart

def requirementOfLine (rawLine : Str) : Option (Str × Str) :=
  let line := U.strip rawLine
  if isIgnored line then none
  else
    let line := withoutComment U line
    if "--".toList.isPrefixOf line then none
    else
      match extractPipPackageName U line with
      | none => none
      | some name =>
        let versionSpec := U.strip (line.drop name.length)
        if '[' ∈ name ∧ ']' ∈ line then some (name.takeWhile (· ≠ '['), versionSpec) else some (name, versionSpec)

def parseRequirementsFile (file : Option Str) : List (Str × Str) :=
  match file with
  | none => []
  | some text => (splitLines [] text).filterMap (requirementOfLine U)

end PipParser

section Normalized

variable {U : Unicode}

-- The characters that end a name; the second list adds those that open a comment.
def marks : List Char := ['[', '>', '<', '=', '~', '!', ';']

def syntaxChars : List Char := ' ' :: '#' :: marks

def commentOpening : Str := [' ', '#']

-- Lower-casing leaves the syntax of a line as it is: no letter lowers to it or to nothing.
structure LowersApart (U : Unicode) : Prop where
  ne_nil : ∀ c, U.lower c ≠ []
  apart : ∀ c, 128 ≤ c.toNat → ∀ d ∈ U.lower c, d ∉ syntaxChars

theorem syntaxChars_plain : ∀ c ∈ syntaxChars, c.toNat < 128 ∧ c.toLower = c ∧ c ≠ '-' ∧ c ≠ '_' ∧ c ≠ '.' :=
  forall_mem_of_all (by decide)

theorem toLower_syntaxChar {c : Char} (hc : c.toNat < 128) (h : c.toLower ∈ syntaxChars) : c ∈ syntaxChars := by
  have hall : ∀ n < 128, (Char.ofNat n).toLower ∈ syntaxChars → Char.ofNat n ∈ syntaxChars := by decide
  rw [← Char.ofNat_toNat c] at h ⊢
  exact hall _ hc h

theorem lowerAt_syntaxChar {c : Char} (hc : c ∈ syntaxChars) (before after : Str) : U.lowerAt before after c = [c] := by
  obtain ⟨hascii,hlower,_⟩ := syntaxChars_plain c hc
  rw [Unicode.lowerAt_ascii hascii, hlower]

theorem lowerAt_apart (hU : LowersApart U) {c : Char} (hc : c ∉ syntaxChars) (before after : Str) :
    U.lowerAt before after c ≠ [] ∧ ∀ d ∈ U.lowerAt before after c, d ∉ syntaxChars := by
  by_cases hascii : c.toNat < 128
  · rw [Unicode.lowerAt_ascii hascii]
    refine ⟨List.cons_ne_nil _ _, fun d hd hmem => hc ?_⟩
    obtain rfl := List.mem_singleton.mp hd
    exact toLower_syntaxChar hascii hmem
  · rw [Unicode.lowerAt]
    split
    · split
      · exact ⟨List.cons_ne_nil _ _, forall_mem_of_all (by decide)⟩
      · exact ⟨List.cons_ne_nil _ _, forall_mem_of_all (by decide)⟩
    · exact ⟨hU.ne_nil c, hU.apart c (by omega)⟩

theorem prefix_pair_iff {x y c : Char} {s : Str} : [x, y] <+: c :: s ↔ x = c ∧ s.head? = some y := by
  rw [List.cons_prefix_cons]
  cases s with
  | nil => simp
  | cons d s => simp [List.cons_prefix_cons, eq_comm]

theorem infix_pair_append {x y : Char} {s t : Str} (hs : x ∉ s) : [x, y] <:+: s ++ t ↔ [x, y] <:+: t := by
  induction s with
  | nil => rfl
  | cons c s ih =>
    rw [List.mem_cons, not_or] at hs
    rw [List.cons_append, List.infix_cons_iff, ih hs.2, prefix_pair_iff]
    simp [hs.1]

theorem infix_pair_skip {x y c : Char} (hc : x ≠ c) (s : Str) : [x, y] <:+: c :: s ↔ [x, y] <:+: s :=
  infix_pair_append (s := [c]) (by simpa using hc)

theorem infix_pair_cons {x y c : Char} {s t : Str} (hhead : t.head? = some y ↔ s.head? = some y)
    (h : [x, y] <:+: t ↔ [x, y] <:+: s) : [x, y] <:+: c :: t ↔ [x, y] <:+: c :: s := by
  rw [List.infix_cons_iff, List.infix_cons_iff, prefix_pair_iff, prefix_pair_iff, hhead, h]

theorem head_lowerFrom (hU : LowersApart U) {y : Char} (hy : y ∈ syntaxChars) (before s : Str) :
    (U.lowerFrom before s).head? = some y ↔ s.head? = some y := by
  cases s with
  | nil => rfl
  | cons c s =>
    rw [Unicode.lowerFrom]
    by_cases hc : c ∈ syntaxChars
    · rw [lowerAt_syntaxChar hc]
      rfl
    · obtain ⟨hne,hapart⟩ := lowerAt_apart hU hc before s
      obtain ⟨d,rest,hd⟩ := List.exists_cons_of_ne_nil hne
      rw [hd] at hapart ⊢
      refine iff_of_false ?_ ?_
      · rintro ⟨⟩
        exact hapart _ List.mem_cons_self hy
      · rintro ⟨⟩
        exact hc hy

theorem infix_lowerFrom (hU : LowersApart U) {x y : Char} (hx : x ∈ syntaxChars) (hy : y ∈ syntaxChars)
    (before s : Str) : [x, y] <:+: U.lowerFrom before s ↔ [x, y] <:+: s := by
  induction s generalizing before with
  | nil => rfl
  | cons c s ih =>
    rw [Unicode.lowerFrom]
    by_cases hc : c ∈ syntaxChars
    · rw [lowerAt_syntaxChar hc]
      exact infix_pair_cons (head_lowerFrom hU hy _ s) (ih _)
    · have hapart := (lowerAt_apart hU hc before s).2
      have hne : x ≠ c := fun heq => hc (heq ▸ hx)
      rw [infix_pair_append fun hmem => hapart x hmem hx, ih, infix_pair_skip hne]

theorem mem_lowerFrom (hU : LowersApart U) {x : Char} (hx : x ∈ syntaxChars) (before s : Str) :
    x ∈ U.lowerFrom before s ↔ x ∈ s := by
  induction s generalizing before with
  | nil => rfl
  | cons c s ih =>
    rw [Unicode.lowerFrom, List.mem_append, List.mem_cons, ih]
    refine or_congr_left ?_
    by_cases hc : c ∈ syntaxChars
    · rw [lowerAt_syntaxChar hc, List.mem_singleton]
    · exact iff_of_false (fun hmem => (lowerAt_apart hU hc before s).2 x hmem hx) fun heq => hc (heq ▸ hx)

theorem head_collapse {y : Char} (hy : y ∈ syntaxChars) (s : Str) :
    (collapseSeparators false s).head? = some y ↔ s.head? = some y := by
  obtain ⟨_,_,hdash,hline,hdot⟩ := syntaxChars_plain y hy
  cases s with
  | nil => rfl
  | cons c s =>
    rw [collapseSeparators]
    split
    · next hc => rcases hc with rfl | rfl | rfl <;> simp [hdash.symm, hline.symm, hdot.symm]
    · rfl

theorem infix_collapse {x y : Char} (hx : x ∈ syntaxChars) (hy : y ∈ syntaxChars) (inRun : Bool) (s : Str) :
    [x, y] <:+: collapseSeparators inRun s ↔ [x, y] <:+: s := by
  obtain ⟨_,_,hdash,hline,hdot⟩ := syntaxChars_plain x hx
  induction s generalizing inRun with
  | nil => rfl
  | cons c s ih =>
    rw [collapseSeparators]
    split
    · next hc =>
      have hne : x ≠ c := by rcases hc with rfl | rfl | rfl <;> assumption
      rw [infix_pair_skip hne]
      split
      · exact ih true
      · exact (infix_pair_skip hdash _).trans (ih true)
    · exact infix_pair_cons (head_collapse hy s) (ih false)

theorem mem_collapse {x : Char} (hx : x ∈ syntaxChars) (inRun : Bool) (s : Str) :
    x ∈ collapseSeparators inRun s ↔ x ∈ s := by
  obtain ⟨_,_,hdash,hline,hdot⟩ := syntaxChars_plain x hx
  induction s generalizing inRun with
  | nil => rfl
  | cons c s ih =>
    rw [collapseSeparators]
    split
    · next hc =>
      have hne : x ≠ c := by rcases hc with rfl | rfl | rfl <;> assumption
      split
      · rw [ih, List.mem_cons, or_iff_right hne]
      · rw [List.mem_cons, List.mem_cons, or_iff_right hdash, or_iff_right hne, ih]
    · rw [List.mem_cons, List.mem_cons, ih]

def Marked (name : Str) : Prop := (∃ c ∈ marks, c ∈ name) ∨ commentOpening <:+: name

theorem marked_normalize (hU : LowersApart U) (name : Str) : Marked (pep503Normalize U name) ↔ Marked name := by
  have hmem : ∀ c ∈ marks, (c ∈ pep503Normalize U name ↔ c ∈ name) := by
    intro c hc
    have hchar : c ∈ syntaxChars := List.mem_cons_of_mem _ (List.mem_cons_of_mem _ hc)
    exact (mem_lowerFrom hU hchar [] _).trans (mem_collapse hchar false name)
  have hinside : commentOpening <:+: pep503Normalize U name ↔ commentOpening <:+: name :=
    (infix_lowerFrom hU (by decide) (by decide) [] _).trans (infix_collapse (by decide) (by decide) false name)
  rw [Marked, Marked, hinside]
  exact or_congr_left (exists_congr fun c => and_congr_right fun hc => hmem c hc)

theorem normalize_ne_nil (hU : LowersApart U) {name : Str} (h : name ≠ []) : pep503Normalize U name ≠ [] := by
  obtain ⟨c,rest,rfl⟩ := List.exists_cons_of_ne_nil h
  have hcollapse : collapseSeparators false (c :: rest) ≠ [] := by
    rw [collapseSeparators]
    split <;> simp
  obtain ⟨d,tail,hd⟩ := List.exists_cons_of_ne_nil hcollapse
  rw [pep503Normalize, hd, Unicode.lowerStr, Unicode.lowerFrom]
  by_cases hchar : d ∈ syntaxChars
  · rw [lowerAt_syntaxChar hchar]
    simp
  · simp [(lowerAt_apart hU hchar [] tail).1]

theorem lowersApart_basic : LowersApart .basic where
  ne_nil c := by
    simp only [Unicode.basic]
    split_ifs <;> simp
  apart c hc d hd := by
    simp only [Unicode.basic] at hd
    split_ifs at hd
    · exact forall_mem_of_all (p := (· ∉ syntaxChars)) (by decide) d hd
    · exact forall_mem_of_all (p := (· ∉ syntaxChars)) (by decide) d hd
    · intro hmem
      obtain rfl := List.mem_singleton.mp hd
      have hlower : c.toLower = c := by
        unfold Char.toLower
        rw [dif_neg]
        rintro ⟨_,hle⟩
        have hle : c.toNat ≤ 90 := hle
        omega
      have hascii := (syntaxChars_plain _ (hlower ▸ hmem)).1
      omega

end Normalized

section Head

variable (U : Unicode)

def notMark (c : Char) : Bool := c ∉ marks

def nameSpan (text : Str) : Str := text.takeWhile notMark

def requirementLine (rawLine : Str) : Str := withoutComment U (U.strip rawLine)

def versionSeparator (line : Str) : Option Str := separators.find? (· <:+: line.takeWhile (· ≠ ';'))

-- The text before the version separator; a line without one is its head, marker and comment included.
def head (rawLine : Str) : Str :=
  match versionSeparator (requirementLine U rawLine) with
  | none => U.strip rawLine
  | some sep => U.strip (((splitOnce sep rawLine).map Prod.fst).getD rawLine)

def nameText (rawLine : Str) : Str := U.strip (nameSpan (requirementLine U rawLine))

def Requirement (rawLine : Str) : Prop := isIgnored (U.strip rawLine) = false

structure PlainHead (rawLine : Str) : Prop where
  comment : ¬commentOpening <:+: nameSpan (head U rawLine)
  extras : (head U rawLine).dropWhile notMark = [] ∨ opensExtras ((head U rawLine).dropWhile notMark) = true

def Url (rawLine : Str) : Prop := isSkipped (requirementLine U rawLine) = true

variable {U} {rawLine line : Str}

theorem not_marked_strip_nameSpan {text : Str} (h : ¬commentOpening <:+: text) :
    ¬Marked (U.strip (nameSpan text)) := by
  rintro (⟨c,hc,hmem⟩ | hinside)
  · have hnot := List.mem_takeWhile_imp ((U.strip_inside _).subset hmem)
    simp [notMark, hc] at hnot
  · exact h ((hinside.trans (U.strip_inside _)).trans (List.takeWhile_prefix _).isInfix)

theorem cutComment_of_absent {opening : Str} (hne : opening ≠ []) (h : ¬opening <:+: line) :
    cutComment U opening line = line := by
  rw [cutComment, (splitOnce_eq_none_iff hne).mpr h]

theorem cutComment_cases (line : Str) : cutComment U commentOpening line = line ∧ ¬commentOpening <:+: line ∨
    ∃ before after, line = before ++ commentOpening ++ after ∧ ¬commentOpening <:+: before ∧
      cutComment U commentOpening line = U.strip before := by
  cases hsplit : splitOnce commentOpening line with
  | none =>
    have hnot := (splitOnce_eq_none_iff (by decide)).mp hsplit
    exact .inl ⟨cutComment_of_absent (by decide) hnot, hnot⟩
  | some parts =>
    obtain ⟨hline,hbefore⟩ := splitOnce_eq_some hsplit
    exact .inr ⟨parts.1, parts.2, hline, hbefore (by decide), by rw [cutComment, hsplit]⟩

theorem no_comment_cutComment (line : Str) : ¬commentOpening <:+: cutComment U commentOpening line := by
  rcases cutComment_cases (U := U) line with ⟨heq,hnot⟩ | ⟨before,after,-,hnot,heq⟩
  · rw [heq]
    exact hnot
  · rw [heq]
    exact fun h => hnot (h.trans (U.strip_inside before))

theorem withoutComment_eq (line : Str) : withoutComment U line = cutComment U commentOpening line := by
  refine cutComment_of_absent (by decide) fun h => no_comment_cutComment line (List.IsInfix.trans ?_ h)
  exact ⟨[' '], [], rfl⟩

theorem mark_not_space : ∀ c ∈ marks, U.space c = false := by
  intro c hc
  have hplain : ∀ c ∈ marks, c.toNat < 128 ∧ asciiSpaces.contains c.toNat = false :=
    forall_mem_of_all (by decide)
  rw [U.space_ascii c (hplain c hc).1]
  exact (hplain c hc).2

theorem notMark_of_space (c : Char) (hc : U.space c = true) : notMark c = true := by
  by_contra hmark
  have hmem : c ∈ marks := by simpa [notMark] using hmark
  rw [mark_not_space c hmem] at hc
  cases hc

theorem nameSpan_append {text rest : Str} (h : ∃ c ∈ text, c ∈ marks) : nameSpan (text ++ rest) = nameSpan text := by
  obtain ⟨c,hc,hmark⟩ := h
  rw [nameSpan, List.takeWhile_append, if_neg]
  · rfl
  · intro hlength
    have hall := List.takeWhile_eq_self_iff.mp ((List.takeWhile_prefix notMark).eq_of_length hlength)
    simpa [notMark, hmark] using hall c hc

theorem nameSpan_append_mark {text rest : Str} {c : Char} (hc : c ∈ marks) :
    nameSpan (text ++ c :: rest) = nameSpan text := by
  by_cases hmarked : ∃ d ∈ text, d ∈ marks
  · exact nameSpan_append hmarked
  · have hall : ∀ d ∈ text, notMark d = true := fun d hd => by simpa [notMark] using fun hm => hmarked ⟨d, hd, hm⟩
    rw [nameSpan, nameSpan, (run_cons hall (by simpa [notMark] using hc)).1, List.takeWhile_eq_self_iff.mpr hall]

theorem strip_nameSpan_strip (text : Str) : U.strip (nameSpan (U.strip text)) = U.strip (nameSpan text) :=
  Unicode.strip_takeWhile notMark_of_space text

theorem strip_nameSpan_requirementLine (rawLine : Str)
    (h : ¬commentOpening <:+: nameSpan (U.strip rawLine) ∨ ∃ c ∈ requirementLine U rawLine, c ∈ marks) :
    nameText U rawLine = U.strip (nameSpan (U.strip rawLine)) := by
  rw [nameText]
  rw [requirementLine, withoutComment_eq] at h ⊢
  rcases cutComment_cases (U := U) (U.strip rawLine) with ⟨heq,-⟩ | ⟨before,after,hline,-,heq⟩
  · rw [heq]
  · rw [heq, strip_nameSpan_strip]
    rw [heq] at h
    have hmarked : ∃ c ∈ before, c ∈ marks := by
      rcases h with hcomment | ⟨c,hc,hmark⟩
      · by_contra hnot
        have hopening : ∀ d ∈ commentOpening, notMark d = true := forall_mem_of_all (by decide)
        have hall : ∀ d ∈ before ++ commentOpening, notMark d = true := by
          intro d hd
          rcases List.mem_append.mp hd with hd | hd
          · simpa [notMark] using fun hm => hnot ⟨d, hd, hm⟩
          · exact hopening d hd
        refine hcomment ?_
        rw [hline, nameSpan, List.takeWhile_append_of_pos hall]
        exact (List.infix_append_right).trans List.infix_append_left
      · exact ⟨c, (U.strip_inside before).subset hc, hmark⟩
    rw [hline, List.append_assoc, nameSpan_append hmarked]

theorem separators_mark : ∀ sep ∈ separators, ∃ c rest, sep = c :: rest ∧ c ∈ marks := by
  have hheads : ∀ sep ∈ separators, sep.head?.any (marks.contains ·) = true := by decide
  intro sep hsep
  obtain ⟨c,hhead,hc⟩ := Option.any_eq_true _ _ |>.mp (hheads sep hsep)
  rw [List.contains_iff_mem] at hc
  obtain ⟨rest,hrest⟩ := List.head?_eq_some_iff.mp hhead
  exact ⟨c, rest, hrest, hc⟩

theorem head_of_none (h : versionSeparator (requirementLine U rawLine) = none) :
    head U rawLine = U.strip rawLine := by
  rw [head, h]

theorem head_of_some {sep : Str} (h : versionSeparator (requirementLine U rawLine) = some sep) :
    (∃ c ∈ requirementLine U rawLine, c ∈ marks) ∧ ∃ before after, splitOnce sep rawLine = some (before, after) ∧
      head U rawLine = U.strip before ∧ nameSpan rawLine = nameSpan before := by
  obtain ⟨c,rest,rfl,hc⟩ := separators_mark sep (List.mem_of_find?_eq_some h)
  have hinside : c :: rest <:+: (requirementLine U rawLine).takeWhile (· ≠ ';') := by
    simpa using List.find?_some h
  have hline : c :: rest <:+: requirementLine U rawLine := hinside.trans (List.takeWhile_prefix _).isInfix
  have hraw : requirementLine U rawLine <:+: rawLine := by
    rw [requirementLine, withoutComment_eq]
    refine List.IsInfix.trans ?_ (U.strip_inside rawLine)
    rcases cutComment_cases (U := U) (U.strip rawLine) with ⟨heq,-⟩ | ⟨before,after,hcut,-,heq⟩
    · rw [heq]
    · rw [heq, hcut, List.append_assoc]
      exact (U.strip_inside before).trans List.infix_append_left
  refine ⟨⟨c, hline.subset List.mem_cons_self, hc⟩, ?_⟩
  cases hsplit : splitOnce (c :: rest) rawLine with
  | none => exact absurd (hline.trans hraw) ((splitOnce_eq_none_iff (List.cons_ne_nil _ _)).mp hsplit)
  | some parts =>
    refine ⟨parts.1, parts.2, rfl, by simp [head, h, hsplit], ?_⟩
    have hparts := (splitOnce_eq_some hsplit).1
    rw [List.append_assoc, List.cons_append] at hparts
    rw [hparts, nameSpan_append_mark hc]

theorem head_eq_strip (rawLine : Str) : ∃ text, head U rawLine = U.strip text ∧ text <:+: rawLine := by
  cases hsep : versionSeparator (requirementLine U rawLine) with
  | none => exact ⟨rawLine, head_of_none hsep, List.infix_rfl⟩
  | some sep =>
    obtain ⟨-,before,after,hsplit,hhead,-⟩ := head_of_some hsep
    refine ⟨before, hhead, ?_⟩
    rw [(splitOnce_eq_some hsplit).1, List.append_assoc]
    exact List.infix_append_left

theorem nameText_eq (h : PlainHead U rawLine) : nameText U rawLine = U.strip (nameSpan (head U rawLine)) := by
  cases hsep : versionSeparator (requirementLine U rawLine) with
  | none =>
    have hcomment := h.comment
    rw [head_of_none hsep] at hcomment ⊢
    exact strip_nameSpan_requirementLine rawLine (.inl hcomment)
  | some sep =>
    obtain ⟨hmark,before,after,_,hhead,hspan⟩ := head_of_some hsep
    rw [strip_nameSpan_requirementLine rawLine (.inr hmark), hhead, strip_nameSpan_strip, strip_nameSpan_strip, hspan]

end Head

section LockName

variable {U : Unicode} {rawLine : Str}

def cutExtras (U : Unicode) (namePart : Str) : Str :=
  match extrasMatch namePart with
  | some (before, _) => U.strip before
  | none => namePart

theorem markerParts_eq (line : Str) : (markerParts U line).1 = line.takeWhile (· ≠ ';') := by
  have hall : ∀ {text : Str}, ¬[';'] <:+: text → ∀ c ∈ text, decide (c ≠ ';') = true := by
    intro text hnot c hc
    rw [decide_eq_true_iff]
    rintro rfl
    exact hnot ((List.singleton_infix_iff _ _).mpr hc)
  rw [markerParts]
  cases hsplit : splitOnce [';'] line with
  | none => exact (List.takeWhile_eq_self_iff.mpr (hall ((splitOnce_eq_none_iff (by decide)).mp hsplit))).symm
  | some parts =>
    obtain ⟨hline,hbefore⟩ := splitOnce_eq_some hsplit
    conv_rhs => rw [hline, List.append_assoc]
    exact (run_cons (hall (hbefore (by decide))) (by decide)).1.symm

theorem versionParts_eq (rawLine : Str) :
    (versionParts U rawLine ((requirementLine U rawLine).takeWhile (· ≠ ';'))).1 = head U rawLine := by
  rw [versionParts]
  cases hsep : versionSeparator (requirementLine U rawLine) with
  | none =>
    rw [show separators.find? _ = none from hsep]
    exact (head_of_none hsep).symm
  | some sep =>
    obtain ⟨-,before,after,hsplit,hhead,-⟩ := head_of_some hsep
    rw [show separators.find? _ = some sep from hsep, hhead]
    dsimp only
    rw [hsplit]

theorem lockEntry_name (h : Requirement U rawLine) : (lockEntry U rawLine).map LockEntry.name =
    if cutExtras U (head U rawLine) = [] then none else some (cutExtras U (head U rawLine)) := by
  have hhead := versionParts_eq (U := U) rawLine
  rw [← markerParts_eq, requirementLine] at hhead
  rw [lockEntry, cutExtras, ← hhead]
  dsimp only
  rw [h, if_neg Bool.false_ne_true]
  cases extrasMatch (versionParts U rawLine (markerParts U (withoutComment U (U.strip rawLine))).1).1 with
  | none =>
    dsimp only
    split <;> rfl
  | some parts =>
    dsimp only
    split <;> rfl

theorem extrasMatch_append {before : Str} (hbefore : ∀ c ∈ before, c ≠ '[') (text : Str) :
    extrasMatch (before ++ text) = (extrasMatch text).map fun parts => (before ++ parts.1, parts.2) := by
  induction before with
  | nil => simp
  | cons c before ih =>
    obtain ⟨hc,hbefore⟩ := List.forall_mem_cons.mp hbefore
    have hopens : opensExtras (c :: (before ++ text)) = false := by
      rw [opensExtras]
      rintro _ ⟨⟩
      exact hc rfl
    rw [List.cons_append, extrasMatch, hopens, if_neg Bool.false_ne_true, ih hbefore, Option.map_map]
    rfl

theorem extrasMatch_opens {text : Str} (h : opensExtras text = true) : ∃ extras, extrasMatch text = some ([], extras) := by
  cases text with
  | nil => cases h
  | cons c rest => exact ⟨_, by rw [extrasMatch, if_pos h]⟩

theorem extrasMatch_begins {text before extras : Str} (h : extrasMatch text = some (before, extras)) : before <+: text := by
  induction text generalizing before with
  | nil => cases h
  | cons c rest ih =>
    rw [extrasMatch] at h
    split at h
    · cases h
      exact List.nil_prefix
    · obtain ⟨parts,hparts,heq⟩ := Option.map_eq_some_iff.mp h
      cases heq
      exact List.cons_prefix_cons.mpr ⟨rfl, ih hparts⟩

theorem nameSpan_no_bracket (text : Str) : ∀ c ∈ nameSpan text, c ≠ '[' := by
  rintro c hc rfl
  exact absurd (List.mem_takeWhile_imp hc) (by decide)

theorem cutExtras_plain (h : PlainHead U rawLine) :
    cutExtras U (head U rawLine) = U.strip (nameSpan (head U rawLine)) := by
  have hparts := extrasMatch_append (nameSpan_no_bracket (head U rawLine)) ((head U rawLine).dropWhile notMark)
  rw [nameSpan, List.takeWhile_append_dropWhile] at hparts
  rw [cutExtras, hparts]
  rcases h.extras with hnil | hopens
  · obtain ⟨text,htext,-⟩ := head_eq_strip (U := U) rawLine
    rw [hnil, nameSpan, List.takeWhile_eq_self_iff.mpr (List.dropWhile_eq_nil_iff.mp hnil), htext]
    exact (Unicode.strip_strip text).symm
  · obtain ⟨extras,hextras⟩ := extrasMatch_opens hopens
    rw [hextras]
    simp [nameSpan]

theorem cutExtras_parts (rawLine : Str) : ∃ text, cutExtras U (head U rawLine) = U.strip text ∧
    text <+: head U rawLine ∧ nameSpan (head U rawLine) <+: text ∧
      ((head U rawLine).dropWhile notMark ≠ [] → opensExtras ((head U rawLine).dropWhile notMark) = false →
        ∃ c ∈ marks, c ∈ text) := by
  obtain ⟨source,hsource,-⟩ := head_eq_strip (U := U) rawLine
  have hsplit : nameSpan (head U rawLine) ++ (head U rawLine).dropWhile notMark = head U rawLine :=
    List.takeWhile_append_dropWhile
  have hparts := extrasMatch_append (nameSpan_no_bracket (head U rawLine)) ((head U rawLine).dropWhile notMark)
  have hmark : ∀ c rest, (head U rawLine).dropWhile notMark = c :: rest → c ∈ marks := by
    intro c rest hrest
    have hhead := List.head?_dropWhile_not notMark (head U rawLine)
    rw [hrest] at hhead
    simpa [notMark] using hhead
  rw [hsplit] at hparts
  rw [cutExtras, hparts]
  cases hmatch : extrasMatch ((head U rawLine).dropWhile notMark) with
  | none =>
    refine ⟨head U rawLine, ?_, List.prefix_rfl, List.takeWhile_prefix _, fun hne _ => ?_⟩
    · change head U rawLine = _
      rw [hsource, Unicode.strip_strip]
    · obtain ⟨c,rest,hrest⟩ := List.exists_cons_of_ne_nil hne
      refine ⟨c, hmark c rest hrest, ?_⟩
      rw [← hsplit, hrest]
      simp
  | some parts =>
    refine ⟨nameSpan (head U rawLine) ++ parts.1, rfl, ?_, List.prefix_append _ _, fun hne hopens => ?_⟩
    · conv_rhs => rw [← hsplit]
      exact (List.prefix_append_right_inj _).mpr (extrasMatch_begins hmatch)
    · obtain ⟨c,rest,hrest⟩ := List.exists_cons_of_ne_nil hne
      refine ⟨c, hmark c rest hrest, ?_⟩
      rw [hrest, extrasMatch, ← hrest, hopens, if_neg Bool.false_ne_true] at hmatch
      obtain ⟨inner,-,rfl⟩ := Option.map_eq_some_iff.mp hmatch
      simp

theorem marked_of_not_plain (h : ¬PlainHead U rawLine) : Marked (cutExtras U (head U rawLine)) := by
  obtain ⟨text,hname,hbegins,hspan,hmark⟩ := cutExtras_parts (U := U) rawLine
  rw [hname]
  by_cases hcomment : commentOpening <:+: nameSpan (head U rawLine)
  · obtain ⟨source,hsource,-⟩ := head_eq_strip (U := U) rawLine
    have hhead : ∀ c, text.head? = some c → U.space c = false := by
      intro c hc
      obtain ⟨rest,rfl⟩ := List.head?_eq_some_iff.mp hc
      obtain ⟨tail,htail⟩ := hbegins
      rw [hsource] at htail
      exact Unicode.space_head_strip htail.symm
    have hspace : U.space '#' = false := by
      rw [U.space_ascii _ (by decide)]
      decide
    have hopening : [' '] ++ ['#'] <:+: text := hcomment.trans hspan.isInfix
    exact .inr (Unicode.infix_strip hspace hhead hopening)
  · have hextras : ¬((head U rawLine).dropWhile notMark = [] ∨ opensExtras ((head U rawLine).dropWhile notMark) = true) :=
      fun hextras => h ⟨hcomment, hextras⟩
    rw [not_or, Bool.not_eq_true] at hextras
    obtain ⟨c,hc,hmem⟩ := hmark hextras.1 hextras.2
    exact .inl ⟨c, hc, (Unicode.mem_strip (mark_not_space c hc)).mpr hmem⟩

end LockName

section PipName

variable {U : Unicode} {rawLine : Str}

theorem takeWhile_eq_of_forall {p q : Char → Bool} {text : Str} (h : ∀ c ∈ text, p c = q c) :
    text.takeWhile p = text.takeWhile q := by
  induction text with
  | nil => rfl
  | cons c text ih =>
    obtain ⟨hc,htext⟩ := List.forall_mem_cons.mp h
    rw [List.takeWhile_cons, List.takeWhile_cons, hc, ih htext]

theorem strip_requirementLine (rawLine : Str) : U.strip (requirementLine U rawLine) = requirementLine U rawLine := by
  rw [requirementLine, withoutComment_eq]
  rcases cutComment_cases (U := U) (U.strip rawLine) with ⟨heq,-⟩ | ⟨before,after,-,-,heq⟩
  · rw [heq, Unicode.strip_strip]
  · rw [heq, Unicode.strip_strip]

theorem requirementLine_begins (rawLine : Str) : requirementLine U rawLine <+: U.strip rawLine := by
  rw [requirementLine, withoutComment_eq]
  rcases cutComment_cases (U := U) (U.strip rawLine) with ⟨heq,-⟩ | ⟨before,after,hcut,-,heq⟩
  · rw [heq]
  · have hhead : ∀ c, before.head? = some c → U.space c = false := by
      intro c hc
      obtain ⟨rest,rfl⟩ := List.head?_eq_some_iff.mp hc
      exact Unicode.space_head_strip hcut
    rw [heq, hcut, List.append_assoc]
    exact (Unicode.strip_begins hhead).trans (List.prefix_append _ _)

theorem requirementLine_head (h : Requirement U rawLine) {c : Char} (hc : (requirementLine U rawLine).head? = some c) :
    c ≠ '-' := by
  rintro rfl
  obtain ⟨rest,hrest⟩ := List.head?_eq_some_iff.mp hc
  obtain ⟨tail,htail⟩ := requirementLine_begins (U := U) rawLine
  rw [hrest] at htail
  rw [Requirement, ← htail, isIgnored] at h
  simp at h

theorem strip_beforeBracket (hline : '\n' ∉ requirementLine U rawLine) :
    U.strip ((beforeBracket U (requirementLine U rawLine)).takeWhile (· ∉ versionMarks)) = nameText U rawLine := by
  have hspan : ((requirementLine U rawLine).takeWhile (· ≠ '[')).takeWhile (· ∉ versionMarks) =
      nameSpan (requirementLine U rawLine) := by
    rw [List.takeWhile_takeWhile, nameSpan]
    refine takeWhile_eq_of_forall fun c hc => ?_
    have hnewline : c ≠ '\n' := fun heq => hline (heq ▸ hc)
    simp only [notMark, marks, versionMarks, List.mem_cons, List.not_mem_nil, or_false, hnewline]
    by_cases hbracket : c = '[' <;> simp [hbracket]
  rw [nameText, ← hspan, beforeBracket]
  split
  · have hparts := List.rdropWhile_append_rtakeWhile (p := U.space)
      (l := (requirementLine U rawLine).takeWhile (· ≠ '['))
    conv_rhs => rw [← hparts]
    exact (Unicode.strip_takeWhile_append _ _ fun c hc => List.mem_rtakeWhile_imp hc).symm
  · next hbracket =>
    have hall : ∀ c ∈ requirementLine U rawLine, decide (c ≠ '[') = true := by
      intro c hc
      rw [decide_eq_true_iff]
      rintro rfl
      exact hbracket hc
    rw [List.takeWhile_eq_self_iff.mpr hall]

theorem not_marked_nameText (rawLine : Str) : ¬Marked (nameText U rawLine) := by
  refine not_marked_strip_nameSpan ?_
  rw [requirementLine, withoutComment_eq]
  exact no_comment_cutComment _

theorem mark_not_mem_nameText {c : Char} (hc : c ∈ marks) : c ∉ nameText U rawLine :=
  fun hmem => not_marked_nameText rawLine (.inl ⟨c, hc, hmem⟩)

theorem nameText_of_semicolon (h : [';'].isPrefixOf (requirementLine U rawLine) = true) : nameText U rawLine = [] := by
  obtain ⟨rest,hrest⟩ := List.isPrefixOf_iff_prefix.mp h
  rw [nameText, ← hrest]
  rfl

theorem extractPipPackageName_none (h : isSkipped (requirementLine U rawLine) = true) :
    extractPipPackageName U (requirementLine U rawLine) = none := by
  rw [extractPipPackageName, strip_requirementLine]
  dsimp only
  rw [h]
  split <;> rfl

theorem extractPipPackageName_eq (hline : '\n' ∉ requirementLine U rawLine)
    (h : isSkipped (requirementLine U rawLine) = false) : extractPipPackageName U (requirementLine U rawLine) =
      if nameText U rawLine = [] then none else some (nameText U rawLine) := by
  have hsemicolon : [';'].isPrefixOf (nameText U rawLine) = false := by
    rw [← Bool.not_eq_true, List.isPrefixOf_iff_prefix]
    exact fun h => mark_not_mem_nameText (by decide) (h.subset List.mem_cons_self)
  rw [extractPipPackageName, strip_requirementLine]
  dsimp only
  rw [strip_beforeBracket hline, hsemicolon, h]
  split
  · next hnil =>
    rw [if_pos]
    rw [nameText, hnil]
    rfl
  · rw [if_neg Bool.false_ne_true]
    split
    · next hstart => rw [if_pos (nameText_of_semicolon hstart)]
    · simp

theorem requirement_name (h : Requirement U rawLine) (hline : '\n' ∉ rawLine) :
    (requirementOfLine U rawLine).map Prod.fst =
      if isSkipped (requirementLine U rawLine) = true ∨ nameText U rawLine = [] then none
      else some (nameText U rawLine) := by
  have hnewline : '\n' ∉ requirementLine U rawLine := fun hmem =>
    hline ((U.strip_inside rawLine).subset ((requirementLine_begins rawLine).subset hmem))
  have hoption : "--".toList.isPrefixOf (requirementLine U rawLine) = false := by
    rw [← Bool.not_eq_true, List.isPrefixOf_iff_prefix]
    rintro ⟨rest,hrest⟩
    exact requirementLine_head h (c := '-') (by rw [← hrest]; rfl) rfl
  have hbracket : '[' ∉ nameText U rawLine := mark_not_mem_nameText (by decide)
  rw [requirementOfLine, h]
  dsimp only
  rw [if_neg Bool.false_ne_true, ← requirementLine, hoption, if_neg Bool.false_ne_true]
  cases hskip : isSkipped (requirementLine U rawLine) with
  | true =>
    rw [extractPipPackageName_none hskip, if_pos (.inl rfl)]
    rfl
  | false =>
    rw [extractPipPackageName_eq hnewline hskip]
    by_cases hnil : nameText U rawLine = []
    · rw [if_pos hnil, if_pos (.inr hnil)]
      rfl
    · rw [if_neg hnil, if_neg (by simpa using hnil)]
      simp [hbracket]

end PipName

section Agreement

variable {U : Unicode} {rawLine text : Str}

theorem not_boundary_of_mem_splitLines {line : Str} (hline : ∀ c ∈ line, c.toNat ∉ Models.lineBoundaries) {piece : Str}
    (h : piece ∈ splitLines line text) : ∀ c ∈ piece, c.toNat ∉ Models.lineBoundaries := by
  fun_induction splitLines line text with
  | case1 => cases h
  | case2 line _ =>
    obtain rfl := List.mem_singleton.mp h
    exact hline
  | case3 line rest ih =>
    rcases List.mem_cons.mp h with rfl | h
    · exact hline
    · exact ih (by simp) h
  | case4 line c rest _ _ ih =>
    rcases List.mem_cons.mp h with rfl | h
    · exact hline
    · exact ih (by simp) h
  | case5 line c rest _ hc ih =>
    refine ih ?_ h
    intro d hd
    rcases List.mem_append.mp hd with hd | hd
    · exact hline d hd
    · exact List.mem_singleton.mp hd ▸ hc

theorem newline_not_mem_splitLines (h : rawLine ∈ splitLines [] text) : '\n' ∉ rawLine :=
  fun hmem => not_boundary_of_mem_splitLines (by simp) h '\n' hmem (by decide)

def lockNames (U : Unicode) (file : Option Str) : List Str :=
  (parseRequirementsTxt U file).map fun entry => pep503Normalize U entry.name

def fileNames (U : Unicode) (file : Option Str) : List Str :=
  (parseRequirementsFile U file).map fun result => pep503Normalize U result.1

def SameNames (U : Unicode) (file : Option Str) : Prop := ∀ name, name ∈ lockNames U file ↔ name ∈ fileNames U file

def RequirementOf (U : Unicode) (text rawLine : Str) : Prop := rawLine ∈ splitLines [] text ∧ Requirement U rawLine

structure LinesAgree (U : Unicode) (text : Str) : Prop where
  plain : ∀ rawLine, RequirementOf U text rawLine → PlainHead U rawLine
  url : ∀ rawLine, RequirementOf U text rawLine → Url U rawLine → ∃ other, RequirementOf U text other ∧
    ¬Url U other ∧ pep503Normalize U (nameText U other) = pep503Normalize U (nameText U rawLine)

theorem lockEntry_ignored (h : ¬Requirement U rawLine) : lockEntry U rawLine = none := by
  rw [Requirement, Bool.not_eq_false] at h
  rw [lockEntry, h]
  rfl

theorem requirementOfLine_ignored (h : ¬Requirement U rawLine) : requirementOfLine U rawLine = none := by
  rw [Requirement, Bool.not_eq_false] at h
  rw [requirementOfLine, h]
  rfl

theorem mem_lockNames {name : Str} : name ∈ lockNames U (some text) ↔ ∃ rawLine, RequirementOf U text rawLine ∧
    cutExtras U (head U rawLine) ≠ [] ∧ pep503Normalize U (cutExtras U (head U rawLine)) = name := by
  rw [lockNames, parseRequirementsTxt]
  simp only [List.mem_map, List.mem_filterMap]
  constructor
  · rintro ⟨entry,⟨rawLine,hmem,hentry⟩,rfl⟩
    have hreq : Requirement U rawLine := by
      by_contra hnot
      rw [lockEntry_ignored hnot] at hentry
      cases hentry
    have hname := lockEntry_name hreq
    rw [hentry] at hname
    split at hname
    · cases hname
    · next hne =>
      refine ⟨rawLine, ⟨hmem, hreq⟩, hne, ?_⟩
      rw [← Option.some.inj hname]
  · rintro ⟨rawLine,⟨hmem,hreq⟩,hne,rfl⟩
    have hname := lockEntry_name hreq
    rw [if_neg hne, Option.map_eq_some_iff] at hname
    obtain ⟨entry,hentry,heq⟩ := hname
    exact ⟨entry, ⟨rawLine, hmem, hentry⟩, by rw [heq]⟩

theorem mem_fileNames {name : Str} : name ∈ fileNames U (some text) ↔ ∃ rawLine, RequirementOf U text rawLine ∧
    ¬Url U rawLine ∧ nameText U rawLine ≠ [] ∧ pep503Normalize U (nameText U rawLine) = name := by
  rw [fileNames, parseRequirementsFile]
  simp only [List.mem_map, List.mem_filterMap]
  constructor
  · rintro ⟨result,⟨rawLine,hmem,hresult⟩,rfl⟩
    have hreq : Requirement U rawLine := by
      by_contra hnot
      rw [requirementOfLine_ignored hnot] at hresult
      cases hresult
    have hname := requirement_name hreq (newline_not_mem_splitLines hmem)
    rw [hresult] at hname
    split at hname
    · cases hname
    · next hnot =>
      rw [not_or] at hnot
      refine ⟨rawLine, ⟨hmem, hreq⟩, hnot.1, hnot.2, ?_⟩
      rw [← Option.some.inj hname]
  · rintro ⟨rawLine,⟨hmem,hreq⟩,hurl,hne,rfl⟩
    have hname := (requirement_name hreq (newline_not_mem_splitLines hmem)).trans (if_neg (not_or.mpr ⟨hurl, hne⟩))
    rw [Option.map_eq_some_iff] at hname
    obtain ⟨result,hresult,heq⟩ := hname
    exact ⟨result, ⟨rawLine, hmem, hresult⟩, by rw [heq]⟩

theorem nameText_ne_nil_of_url (h : Requirement U rawLine) (hurl : Url U rawLine) : nameText U rawLine ≠ [] := by
  have hheads : ∀ start ∈ skippedPrefixes, start.head?.any (['-', 'g', 'h', 's', 'b', 'f'].contains ·) = true := by
    decide
  have hletters : ∀ c ∈ ['g', 'h', 's', 'b', 'f'], c.toNat < 128 ∧ asciiSpaces.contains c.toNat = false ∧
    notMark c = true := forall_mem_of_all (by decide)
  obtain ⟨start,hmem,hbegins⟩ := List.any_eq_true.mp hurl
  obtain ⟨c,hhead,hc⟩ := Option.any_eq_true _ _ |>.mp (hheads start hmem)
  rw [List.contains_iff_mem] at hc
  obtain ⟨rest,rfl⟩ := List.head?_eq_some_iff.mp hhead
  obtain ⟨tail,htail⟩ := List.isPrefixOf_iff_prefix.mp hbegins
  have hdash : c ≠ '-' := requirementLine_head h (by rw [← htail]; rfl)
  obtain ⟨hascii,hspace,hmark⟩ := hletters c ((List.mem_cons.mp hc).resolve_left hdash)
  have hspace : U.space c = false := (U.space_ascii c hascii).trans hspace
  intro hnil
  have hmem : c ∈ nameText U rawLine := by
    rw [nameText, Unicode.mem_strip hspace, ← htail, nameSpan, List.cons_append, List.takeWhile_cons_of_pos hmark]
    exact List.mem_cons_self
  rw [hnil] at hmem
  exact absurd hmem List.not_mem_nil

theorem same_names_iff (U : Unicode) (hU : LowersApart U) (file : Option Str) :
    SameNames U file ↔ ∀ text, file = some text → LinesAgree U text := by
  cases file with
  | none => exact iff_of_true (fun _ => Iff.rfl) (fun _ h => by cases h)
  | some text =>
    simp only [Option.some.injEq, forall_eq']
    constructor
    · intro h
      have hplain : ∀ rawLine, RequirementOf U text rawLine → PlainHead U rawLine := by
        intro rawLine hreq
        by_contra hnot
        have hmarked := marked_of_not_plain hnot
        have hne : cutExtras U (head U rawLine) ≠ [] := by
          intro hnil
          rw [hnil] at hmarked
          exact absurd hmarked (by simp [Marked, commentOpening])
        obtain ⟨other,-,-,-,heq⟩ := mem_fileNames.mp ((h _).mp (mem_lockNames.mpr ⟨rawLine, hreq, hne, rfl⟩))
        rw [← marked_normalize hU, ← heq, marked_normalize hU] at hmarked
        exact not_marked_nameText other hmarked
      refine ⟨hplain, fun rawLine hreq hurl => ?_⟩
      have hname := (cutExtras_plain (hplain rawLine hreq)).trans (nameText_eq (hplain rawLine hreq)).symm
      have hne := nameText_ne_nil_of_url hreq.2 hurl
      have hlock := mem_lockNames.mpr ⟨rawLine, hreq, hname ▸ hne, rfl⟩
      obtain ⟨other,hother,hnot,-,heq⟩ := mem_fileNames.mp ((h _).mp hlock)
      exact ⟨other, hother, hnot, heq.trans (by rw [hname])⟩
    · intro h name
      rw [mem_lockNames, mem_fileNames]
      have hname : ∀ rawLine, RequirementOf U text rawLine → cutExtras U (head U rawLine) = nameText U rawLine :=
        fun rawLine hreq => (cutExtras_plain (h.plain rawLine hreq)).trans (nameText_eq (h.plain rawLine hreq)).symm
      constructor
      · rintro ⟨rawLine,hreq,hne,rfl⟩
        rw [hname rawLine hreq] at hne ⊢
        by_cases hurl : Url U rawLine
        · obtain ⟨other,hother,hnot,heq⟩ := h.url rawLine hreq hurl
          refine ⟨other, hother, hnot, fun hnil => normalize_ne_nil hU hne ?_, heq⟩
          rw [← heq, hnil]
          rfl
        · exact ⟨rawLine, hreq, hurl, hne, rfl⟩
      · rintro ⟨rawLine,hreq,-,hne,rfl⟩
        exact ⟨rawLine, hreq, by rw [hname rawLine hreq]; exact hne, by rw [hname rawLine hreq]⟩

def pinnedFile : Str := "requests>=2\nFlask[async]==3.0 ; python_version > '3'\n".toList

theorem same_names_pinned : SameNames .basic (some pinnedFile) := by
  refine (same_names_iff .basic lowersApart_basic _).mpr ?_
  rintro _ ⟨⟩
  have hlines : splitLines [] pinnedFile =
      ["requests>=2".toList, "Flask[async]==3.0 ; python_version > '3'".toList] := by decide
  constructor
  · rintro rawLine ⟨hmem,-⟩
    rw [hlines] at hmem
    simp only [List.mem_cons, List.not_mem_nil, or_false] at hmem
    rcases hmem with rfl | rfl
    · exact ⟨by decide, .inl (by decide)⟩
    · exact ⟨by decide, .inr (by decide)⟩
  · rintro rawLine ⟨hmem,-⟩ hurl
    rw [hlines] at hmem
    simp only [List.mem_cons, List.not_mem_nil, or_false] at hmem
    rcases hmem with rfl | rfl
    · exact absurd hurl (by rw [Url]; decide)
    · exact absurd hurl (by rw [Url]; decide)

-- Without a version the lock parser takes the comment for a part of the name.
theorem comment_becomes_name : ¬∀ (U : Unicode) (_ : LowersApart U) (file : Option Str), SameNames U file := by
  intro h
  have hsame := h .basic lowersApart_basic (some "requests  # pinned later\n".toList) "requests  # pinned later".toList
  exact absurd (hsame.mp (by decide)) (by decide)

end Agreement

end PicoSentry.Scan.RequirementsTxt
