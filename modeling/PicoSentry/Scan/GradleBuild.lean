import PicoSentry.Foundation.FindAll
import PicoSentry.Scan.Models

namespace PicoSentry.Scan.GradleBuild

open Foundation
open Models (splitLines)

section Patterns

variable (U : Unicode)

def skipSpace (s : Str) : Str := s.dropWhile U.space

def configurations : List Str :=
  ["implementation", "api", "compileOnly", "runtimeOnly", "testImplementation", "testCompileOnly",
   "testRuntimeOnly", "annotationProcessor", "compile", "testCompile", "runtime"].map String.toList

-- A text without colons that is not empty and a colon; what stands behind them.
def upToColon (s : Str) : Option (Str × Str) :=
  if s.takeWhile (· ≠ ':') = [] then none
  else
    match s.dropWhile (· ≠ ':') with
    | [] => none
    | _ :: rest => some (s.takeWhile (· ≠ ':'), rest)

structure Coordinates where
  group : Str
  artifact : Str
  version : Str
  matched : Str
  deriving DecidableEq

-- The groups of _GRADLE_DEP_SIMPLE_RE on a stripped line, and the text that it matches.
def dependencyMatch (line : Str) : Option Coordinates :=
  if line.takeWhile (!U.space ·) ∈ configurations then
    match skipSpace U (line.dropWhile (!U.space ·)) with
    | [] => none
    | c :: rest =>
      if isQuote c then do
        let (group, rest) ← upToColon rest
        let (artifact, rest) ← upToColon rest
        let (version, after) ← quoted (c :: rest)
        return { group := group, artifact := artifact, version := version
                 matched := line.take (line.length - after.length) }
      else none
  else none

-- config is the text before the first bracket of the match.
def Coordinates.tuple (found : Coordinates) : List Str :=
  [found.group, found.artifact, found.version,
   if '(' ∈ found.matched then found.matched.takeWhile (· ≠ '(') else []]

-- _GRADLE_REPO_URL_RE: maven("…") and nothing behind it.
def repoUrl (line : Str) : Option Str := do
  let rest ← literal "maven".toList line
  let rest ← literal "(".toList (skipSpace U rest)
  let (url, rest) ← quoted (skipSpace U rest)
  let rest ← literal ")".toList (skipSpace U rest)
  if skipSpace U rest = [] then return url else none

def isMavenBlock (line : Str) : Bool :=
  match literal "maven".toList line with
  | none => false
  | some rest =>
    match literal "\x7b".toList (skipSpace U rest) with
    | none => false
    | some rest => skipSpace U rest = []

def urlSetting (line : Str) : Option Str := do
  let rest ← literal "url".toList line
  if skipSpace U rest = rest then none
  else return (← quoted (skipSpace U rest)).1

def groupSetting (line : Str) : Option Str := do
  let rest ← literal "group".toList line
  if skipSpace U rest = rest then none
  else return (← quoted (skipSpace U rest)).1

-- An equals sign behind any blanks, or blanks that hold a space.
def versionSetting (line : Str) : Option Str := do
  let rest ← literal "version".toList line
  match skipSpace U rest with
  | '=' :: value => return (← quoted (skipSpace U value)).1
  | value => if ' ' ∈ rest.takeWhile U.space then return (← quoted value).1 else none

end Patterns

section Build

structure Build where
  group : Str := []
  name : Str := []
  version : Str := []
  dependencies : List (List Str) := []
  repositories : List Str := []
  hasMavenPublish : Bool := false

structure Reader where
  build : Build := {}
  inRepositories : Nat := 0
  inDependencies : Nat := 0

variable (U : Unicode)

def repositoriesHeader : Str := "repositories \x7b".toList

def dependenciesHeader : Str := "dependencies \x7b".toList

def closing : Str := ['\x7d']

def isSkipped (stripped : Str) : Bool :=
  stripped = [] || "//".toList.isPrefixOf stripped || ['#'].isPrefixOf stripped

def knownRepositories : List (Str × Str) :=
  [("mavenLocal".toList, "mavenLocal".toList),
   ("mavenCentral".toList, "https://repo1.maven.org/maven2".toList),
   ("google".toList, "https://dl.google.com/dl/android/maven2/".toList),
   ("jcenter".toList, "https://jcenter.bintray.com".toList)]

-- What a line of a repositories block adds; none for a line that the block does not take.
def repositoryLine (stripped : Str) : Option (List Str) :=
  match repoUrl U stripped with
  | some url => some [url]
  | none =>
    if isMavenBlock U stripped then some []
    else
      match urlSetting U stripped with
      | some url => some [url]
      | none => (knownRepositories.find? fun known => known.1 <:+: stripped).map fun known => [known.2]

def settingLine (build : Build) (stripped : Str) : Build :=
  if "group ".toList.isPrefixOf stripped then
    match groupSetting U stripped with
    | some group => { build with group := group }
    | none => build
  else if "version".toList.isPrefixOf stripped then
    match versionSetting U stripped with
    | some version => { build with version := version }
    | none => build
  else if "maven-publish".toList <:+: stripped ∨ "uploadArchives".toList <:+: stripped then
    { build with hasMavenPublish := true }
  else build

def dependencyLine (r : Reader) (stripped : Str) : Reader :=
  match if r.inDependencies > 0 then dependencyMatch U stripped else none with
  | some found => { r with build := { r.build with dependencies := r.build.dependencies ++ [found.tuple] } }
  | none => { r with build := settingLine U r.build stripped }

def readLine (r : Reader) (line : Str) : Reader :=
  let stripped := U.strip line
  if isSkipped stripped then r
  else if stripped = repositoriesHeader then { r with inRepositories := 1 }
  else if stripped = dependenciesHeader then { r with inDependencies := 1 }
  else if stripped = closing then
    { r with inRepositories := r.inRepositories - 1, inDependencies := r.inDependencies - 1 }
  else
    match if r.inRepositories > 0 then repositoryLine U stripped else none with
    | some urls => { r with build := { r.build with repositories := r.build.repositories ++ urls } }
    | none => dependencyLine U r stripped

def readLines (lines : List Str) : Reader := lines.foldl (readLine U) {}

def parseText (text : Str) : Build := (readLines U (splitLines [] text)).build

end Build

-- A file of a project: missing, unreadable (an OSError) or its text.
inductive SourceFile where
  | missing
  | unreadable
  | text (content : Str)

def parseGradleBuild (U : Unicode) (buildGradle buildGradleKts : SourceFile) : Option Build :=
  match if buildGradle matches .missing then buildGradleKts else buildGradle with
  | .missing => none
  | .unreadable => none
  | .text content => some (parseText U content)

section Shape

variable {U : Unicode} {line : Str} {found : Coordinates}

theorem upToColon_colon {s first rest : Str} (h : upToColon s = some (first, rest)) : ':' ∈ s := by
  rw [upToColon] at h
  split at h
  · cases h
  · cases hdrop : s.dropWhile (· ≠ ':') with
    | nil =>
      rw [hdrop] at h
      cases h
    | cons c after =>
      have hc : c = ':' := by
        have hhead := List.head?_dropWhile_not (fun c : Char => decide (c ≠ ':')) s
        rw [hdrop] at hhead
        simpa using hhead
      exact hc ▸ (List.dropWhile_sublist _).subset (hdrop ▸ List.mem_cons_self)

structure DependencyShape (U : Unicode) (line : Str) : Prop where
  head : ∃ c rest, line = c :: rest ∧ c ∈ ['i', 'a', 'c', 'r', 't']
  colon : ':' ∈ line

theorem dependencyMatch_shape (h : dependencyMatch U line = some found) : DependencyShape U line := by
  rw [dependencyMatch] at h
  split at h
  · next hword =>
    constructor
    · have hheads : ∀ word ∈ configurations, word.head?.any (['i', 'a', 'c', 'r', 't'].contains ·) = true := by decide
      obtain ⟨c,hhead,hc⟩ := Option.any_eq_true _ _ |>.mp (hheads _ hword)
      rw [List.contains_iff_mem] at hc
      cases line with
      | nil => cases hhead
      | cons first rest =>
        refine ⟨first, rest, rfl, ?_⟩
        rw [List.takeWhile_cons] at hhead
        split at hhead
        · cases hhead
          exact hc
        · cases hhead
    · split at h
      · cases h
      · next c rest hrest =>
        split at h
        · obtain ⟨⟨group,after⟩,hgroup,_⟩ := Option.bind_eq_some_iff.mp h
          have hcolon : ':' ∈ c :: rest := List.mem_cons_of_mem c (upToColon_colon hgroup)
          rw [← hrest] at hcolon
          exact (List.dropWhile_sublist _).subset ((List.dropWhile_sublist _).subset hcolon)
        · cases h
  · cases h

theorem DependencyShape.not_skipped (h : DependencyShape U line) : isSkipped line = false := by
  obtain ⟨c,rest,rfl,hc⟩ := h.head
  simp only [List.mem_cons, List.not_mem_nil, or_false] at hc
  rcases hc with rfl | rfl | rfl | rfl | rfl <;> rfl

theorem DependencyShape.ne_of_no_colon {other : Str} (h : DependencyShape U line) (hother : ':' ∉ other) :
    line ≠ other := fun heq => hother (heq ▸ h.colon)

theorem DependencyShape.literal_eq_none (h : DependencyShape U line) {first : Char}
    (hfirst : first ∉ ['i', 'a', 'c', 'r', 't']) (rest : Str) : literal (first :: rest) line = none := by
  obtain ⟨c,tail,rfl,hc⟩ := h.head
  rw [literal, if_neg]
  rw [List.cons_prefix_cons]
  rintro ⟨rfl,_⟩
  exact hfirst hc

def Known (stripped : Str) : Prop := ∃ known ∈ knownRepositories, known.1 <:+: stripped

instance decidableKnown (stripped : Str) : Decidable (Known stripped) :=
  inferInstanceAs (Decidable (∃ known ∈ knownRepositories, known.1 <:+: stripped))

theorem DependencyShape.repositoryLine_eq_none_iff (h : DependencyShape U line) :
    repositoryLine U line = none ↔ ¬Known line := by
  have hmaven : literal "maven".toList line = none := h.literal_eq_none (by decide) _
  have hurl : literal "url".toList line = none := h.literal_eq_none (by decide) _
  rw [repositoryLine, repoUrl, isMavenBlock, urlSetting, hmaven, hurl]
  simp [Known]

end Shape

section Flags

variable {U : Unicode} {header line : Str} {lines : List Str}

def InForce (U : Unicode) (header : Str) (lines : List Str) : Prop :=
  ∃ before after, lines.map U.strip = before ++ header :: after ∧ closing ∉ after

theorem not_inForce_nil : ¬InForce U header [] := by
  rintro ⟨before,after,h,_⟩
  exact absurd (congrArg List.length h) (by simp)

theorem inForce_concat (hheader : header ≠ closing) : InForce U header (lines ++ [line]) ↔
    U.strip line = header ∨ U.strip line ≠ closing ∧ InForce U header lines := by
  rw [InForce, List.map_append, List.map_singleton]
  constructor
  · rintro ⟨before,after,h,hafter⟩
    rcases List.eq_nil_or_concat after with rfl | ⟨after,last,rfl⟩
    · exact .inl (by simpa using (List.append_inj' h rfl).2)
    · rw [List.concat_eq_append] at h hafter
      rw [← List.cons_append, ← List.append_assoc] at h
      obtain ⟨hlines,hlast⟩ := List.append_inj' h rfl
      obtain rfl : U.strip line = last := by simpa using hlast
      simp only [List.mem_append, List.mem_singleton, not_or] at hafter
      exact .inr ⟨Ne.symm hafter.2, before, after, hlines, hafter.1⟩
  · rintro (rfl | ⟨hline,before,after,h,hafter⟩)
    · exact ⟨lines.map U.strip, [], rfl, List.not_mem_nil⟩
    · refine ⟨before, after ++ [U.strip line], ?_, ?_⟩
      · rw [h, List.append_assoc]
        rfl
      · simp only [List.mem_append, List.mem_singleton, not_or]
        exact ⟨hafter, Ne.symm hline⟩

theorem readLines_concat (lines : List Str) (line : Str) :
    readLines U (lines ++ [line]) = readLine U (readLines U lines) line := by
  rw [readLines, List.foldl_append]
  rfl

structure FlagOf (U : Unicode) (header : Str) (flag : Reader → Nat) : Prop where
  start : flag {} = 0
  step : ∀ r line, flag (readLine U r line) =
    if U.strip line = header then 1 else if U.strip line = closing then flag r - 1 else flag r
  header_ne : header ≠ closing

theorem FlagOf.inForce {flag : Reader → Nat} (h : FlagOf U header flag) (lines : List Str) :
    flag (readLines U lines) ≤ 1 ∧ (0 < flag (readLines U lines) ↔ InForce U header lines) := by
  induction lines using List.reverseRecOn with
  | nil =>
    rw [readLines, List.foldl_nil, h.start]
    exact ⟨by omega, iff_of_false (by omega) not_inForce_nil⟩
  | append_singleton lines line ih =>
    rw [readLines_concat, h.step, inForce_concat h.header_ne]
    split
    · next hline => exact ⟨le_rfl, iff_of_true (by omega) (.inl hline)⟩
    · next hline =>
      rw [or_iff_right hline]
      split
      · next hclosing => exact ⟨by omega, iff_of_false (by omega) fun hand => hand.1 hclosing⟩
      · next hclosing => exact ⟨ih.1, ih.2.trans (and_iff_right hclosing).symm⟩

theorem settles_dependencyLine (r : Reader) (stripped : Str) :
    (dependencyLine U r stripped).inRepositories = r.inRepositories ∧
      (dependencyLine U r stripped).inDependencies = r.inDependencies := by
  rw [dependencyLine]
  split <;> exact ⟨rfl, rfl⟩

theorem flags_readLine (r : Reader) (line : Str) :
    (readLine U r line).inRepositories = (if U.strip line = repositoriesHeader then 1
        else if U.strip line = closing then r.inRepositories - 1 else r.inRepositories) ∧
      (readLine U r line).inDependencies = (if U.strip line = dependenciesHeader then 1
        else if U.strip line = closing then r.inDependencies - 1 else r.inDependencies) := by
  have hskip : isSkipped repositoriesHeader = false ∧ isSkipped dependenciesHeader = false ∧
      isSkipped closing = false := by decide
  have hheaders : repositoriesHeader ≠ dependenciesHeader := by decide
  have hrepositories : repositoriesHeader ≠ closing := by decide
  have hdependencies : dependenciesHeader ≠ closing := by decide
  rw [readLine]
  dsimp only
  by_cases hr : U.strip line = repositoriesHeader
  · simp [hr, hskip.1, hheaders, hrepositories]
  by_cases hd : U.strip line = dependenciesHeader
  · simp [hd, hskip.2.1, hheaders.symm, hdependencies]
  by_cases hc : U.strip line = closing
  · simp [hc, hskip.2.2, hrepositories.symm, hdependencies.symm]
  simp only [if_neg hr, if_neg hd, if_neg hc]
  split
  · exact ⟨rfl, rfl⟩
  · split
    · exact ⟨rfl, rfl⟩
    · exact settles_dependencyLine r _

theorem flagOf_repositories : FlagOf U repositoriesHeader Reader.inRepositories :=
  ⟨rfl, fun r line => (flags_readLine r line).1, by decide⟩

theorem flagOf_dependencies : FlagOf U dependenciesHeader Reader.inDependencies :=
  ⟨rfl, fun r line => (flags_readLine r line).2, by decide⟩

end Flags

section Collected

variable {U : Unicode} {line : Str} {lines : List Str} {found : Coordinates}

def Reached (U : Unicode) (lines : List Str) (line : Str) : Prop :=
  InForce U dependenciesHeader lines ∧ ¬(InForce U repositoriesHeader lines ∧ Known (U.strip line))

def Collects (U : Unicode) (lines : List Str) (line : Str) (found : Coordinates) : Prop :=
  dependencyMatch U (U.strip line) = some found ∧ Reached U lines line

theorem dependencies_settingLine (build : Build) (stripped : Str) :
    (settingLine U build stripped).dependencies = build.dependencies := by
  rw [settingLine]
  split
  · split <;> rfl
  · split
    · split <;> rfl
    · split <;> rfl

theorem dependencies_of_no_match (h : dependencyMatch U (U.strip line) = none) (r : Reader) :
    (readLine U r line).build.dependencies = r.build.dependencies := by
  rw [readLine]
  dsimp only
  split
  · rfl
  · split
    · rfl
    · split
      · rfl
      · split
        · rfl
        · split
          · rfl
          · rw [dependencyLine, h, ite_self]
            exact dependencies_settingLine _ _

theorem dependencies_of_match (h : dependencyMatch U (U.strip line) = some found) (r : Reader) :
    (readLine U r line).build.dependencies = r.build.dependencies ++
      if 0 < r.inDependencies ∧ ¬(0 < r.inRepositories ∧ Known (U.strip line)) then [found.tuple] else [] := by
  have hshape := dependencyMatch_shape h
  have hrepository : (if r.inRepositories > 0 then repositoryLine U (U.strip line) else none) = none ↔
      ¬(0 < r.inRepositories ∧ Known (U.strip line)) := by
    split
    · next hpos => rw [hshape.repositoryLine_eq_none_iff, and_iff_right hpos]
    · next hpos => exact iff_of_true rfl fun hand => hpos hand.1
  rw [readLine]
  dsimp only
  rw [hshape.not_skipped, if_neg (by simp), if_neg (hshape.ne_of_no_colon (by decide)),
    if_neg (hshape.ne_of_no_colon (by decide)), if_neg (hshape.ne_of_no_colon (by decide))]
  split
  · next urls htaken =>
    have hknown := (not_congr hrepository).mp (by rw [htaken]; simp)
    rw [if_neg fun hand => hknown hand.2, List.append_nil]
  · next hfree =>
    have hknown := hrepository.mp hfree
    rw [dependencyLine, h]
    by_cases hpos : 0 < r.inDependencies
    · rw [if_pos hpos, if_pos ⟨hpos, hknown⟩]
    · rw [if_neg hpos, if_neg fun hand => hpos hand.1, List.append_nil]
      exact dependencies_settingLine _ _

theorem reached_iff : Reached U lines line ↔ 0 < (readLines U lines).inDependencies ∧
    ¬(0 < (readLines U lines).inRepositories ∧ Known (U.strip line)) := by
  rw [Reached, (flagOf_dependencies.inForce lines).2, (flagOf_repositories.inForce lines).2]

theorem dependencies_concat (lines : List Str) (h : dependencyMatch U (U.strip line) = some found) :
    (Reached U lines line → (readLines U (lines ++ [line])).build.dependencies =
        (readLines U lines).build.dependencies ++ [found.tuple]) ∧
      (¬Reached U lines line → (readLines U (lines ++ [line])).build.dependencies =
        (readLines U lines).build.dependencies) := by
  rw [readLines_concat, dependencies_of_match h, reached_iff]
  constructor
  · intro hreached
    rw [if_pos hreached]
  · intro hreached
    rw [if_neg hreached, List.append_nil]

theorem mem_dependencies_iff {tuple : List Str} : tuple ∈ (readLines U lines).build.dependencies ↔
    ∃ before line behind found, lines = before ++ line :: behind ∧ Collects U before line found ∧
      tuple = found.tuple := by
  induction lines using List.reverseRecOn with
  | nil =>
    refine iff_of_false List.not_mem_nil ?_
    rintro ⟨before,line,behind,_,h,_⟩
    exact absurd (congrArg List.length h) (by simp)
  | append_singleton lines last ih =>
    have hearlier : ∀ {found}, (∃ before line behind, lines ++ [last] = before ++ line :: behind ∧
        Collects U before line found ∧ tuple = found.tuple) ↔
        (∃ before line behind, lines = before ++ line :: behind ∧ Collects U before line found ∧
          tuple = found.tuple) ∨ Collects U lines last found ∧ tuple = found.tuple := by
      intro found
      constructor
      · rintro ⟨before,line,behind,h,hrest⟩
        rcases List.eq_nil_or_concat behind with rfl | ⟨behind,final,rfl⟩
        · obtain ⟨rfl,hlast⟩ := List.append_inj' h rfl
          obtain rfl : last = line := by simpa using hlast
          exact .inr hrest
        · rw [List.concat_eq_append, ← List.cons_append, ← List.append_assoc] at h
          exact .inl ⟨before, line, behind, (List.append_inj' h rfl).1, hrest⟩
      · rintro (⟨before,line,behind,rfl,hrest⟩ | hrest)
        · exact ⟨before, line, behind ++ [last], by simp, hrest⟩
        · exact ⟨lines, last, [], rfl, hrest⟩
    have hstep : tuple ∈ (readLines U (lines ++ [last])).build.dependencies ↔
        tuple ∈ (readLines U lines).build.dependencies ∨
          ∃ found, Collects U lines last found ∧ tuple = found.tuple := by
      cases hmatch : dependencyMatch U (U.strip last) with
      | none =>
        rw [readLines_concat, dependencies_of_no_match hmatch]
        simp [Collects, hmatch]
      | some found =>
        obtain ⟨hreached,hmissed⟩ := dependencies_concat lines hmatch
        by_cases hr : Reached U lines last
        · rw [hreached hr]
          simp [Collects, hmatch, hr]
        · rw [hmissed hr]
          simp [Collects, hr]
    rw [hstep, ih]
    constructor
    · rintro (⟨before,line,behind,found,h⟩ | ⟨found,h⟩)
      · obtain ⟨before,line,behind,h⟩ := hearlier.mpr (.inl ⟨before, line, behind, h⟩)
        exact ⟨before, line, behind, found, h⟩
      · obtain ⟨before,line,behind,h⟩ := hearlier.mpr (.inr h)
        exact ⟨before, line, behind, found, h⟩
    · rintro ⟨before,line,behind,found,h⟩
      rcases hearlier.mp ⟨before, line, behind, h⟩ with ⟨before,line,behind,h⟩ | h
      · exact .inl ⟨before, line, behind, found, h⟩
      · exact .inr ⟨found, h⟩

end Collected

section Blocks

variable (U : Unicode)

def openBlocks (blocks : List Str) (header : Str) : Str → List Str
  | [] => blocks
  | '\x7b' :: rest => openBlocks (U.strip header :: blocks) [] rest
  | '\x7d' :: rest => openBlocks blocks.tail [] rest
  | c :: rest => openBlocks blocks (header ++ [c]) rest

def blocksBehind (lines : List Str) : List Str :=
  (lines.filter fun line => !isSkipped (U.strip line)).foldl (fun blocks line => openBlocks U blocks [] line) []

def dependenciesBlock : Str := "dependencies".toList

def DirectlyInside (lines : List Str) : Prop := blocksBehind U lines = [dependenciesBlock]

def Outside (lines : List Str) : Prop := (blocksBehind U lines).getLast? ≠ some dependenciesBlock

def depthBehind : Nat → Str → Option Nat
  | depth, [] => some depth
  | depth, '\x7b' :: rest => depthBehind (depth + 1) rest
  | 0, '\x7d' :: _ => none
  | depth + 1, '\x7d' :: rest => depthBehind depth rest
  | depth, _ :: rest => depthBehind depth rest

def Balanced (text : Str) : Prop := depthBehind 0 text = some 0

def Returned (lines : List Str) (line : Str) (found : Coordinates) : Prop :=
  (readLines U (lines ++ [line])).build.dependencies = (readLines U lines).build.dependencies ++ [found.tuple]

def AtDependencyLine (text : Str) (P : List Str → Str → Coordinates → Prop) : Prop :=
  ∀ lines line behind found, splitLines [] text = lines ++ line :: behind →
    dependencyMatch U (U.strip line) = some found → P lines line found

def ExactLines (text : Str) : Prop := AtDependencyLine U text fun lines line found =>
  (DirectlyInside U lines → Returned U lines line found) ∧ (Outside U lines → ¬Returned U lines line found)

def HeadersTrackBlocks (text : Str) : Prop := AtDependencyLine U text fun lines line _ =>
  (DirectlyInside U lines → Reached U lines line) ∧ (Outside U lines → ¬Reached U lines line)

variable {U}

theorem returned_iff {lines : List Str} {line : Str} {found : Coordinates}
    (h : dependencyMatch U (U.strip line) = some found) : Returned U lines line found ↔ Reached U lines line := by
  obtain ⟨hreached,hmissed⟩ := dependencies_concat lines h
  constructor
  · intro hreturned
    by_contra hnot
    rw [Returned, hmissed hnot] at hreturned
    simp at hreturned
  · exact hreached

theorem Returned.mem {text : Str} {lines behind : List Str} {line : Str} {found : Coordinates}
    (hlines : splitLines [] text = lines ++ line :: behind) (h : dependencyMatch U (U.strip line) = some found)
    (hreturned : Returned U lines line found) : found.tuple ∈ (parseText U text).dependencies :=
  mem_dependencies_iff.mpr ⟨lines, line, behind, found, hlines, ⟨h, (returned_iff h).mp hreturned⟩, rfl⟩

theorem gradle_lines_exact_iff (U : Unicode) (text : Str) : ExactLines U text ↔ HeadersTrackBlocks U text := by
  refine forall_congr' fun lines => forall_congr' fun line => forall_congr' fun behind =>
    forall_congr' fun found => imp_congr_right fun _ => imp_congr_right fun hmatch => ?_
  dsimp only
  rw [returned_iff hmatch]

def excludingBuild : Str :=
  "dependencies \x7b\n  api 'a:b:1', \x7b\n    exclude group: 'c'\n  \x7d\n  api 'd:e:2'\n\x7d\n".toList

-- The dependency behind an exclude closure is dropped.
theorem dependency_behind_closure_dropped :
    ¬∀ (U : Unicode) (text : Str), Balanced text → ExactLines U text := by
  intro h
  have hexact := h .basic excludingBuild rfl
  have hreturned := (hexact ["dependencies \x7b".toList, "  api 'a:b:1', \x7b".toList,
    "    exclude group: 'c'".toList, "  \x7d".toList] "  api 'd:e:2'".toList ["\x7d".toList] _ (by decide) rfl).1
    (by rw [DirectlyInside]; decide)
  rw [Returned] at hreturned
  exact absurd hreturned (by decide)

end Blocks

end PicoSentry.Scan.GradleBuild
