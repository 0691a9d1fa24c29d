import Mathlib.Data.List.Dedup
import Mathlib.Data.List.Lex
import Mathlib.Data.Prod.Lex
import PicoSentry.Foundation.Dict
import PicoSentry.Foundation.Json
import PicoSentry.Foundation.SortedBy

namespace PicoSentry.Scan.VersionDiff

open Foundation

section Patterns

def networkPatterns : List Str :=
  ["http://", "https://", "ftp://", "curl ", "wget ", "fetch(", "ncat", "socat", "nc -", "ssh ",
   "scp "].map String.toList

def obfuscationPatterns : List Str :=
  ["eval(", "Function(", "exec(", "__import__(", "atob(", "Buffer.from(", "\\x", "\\u00",
   "child_process", "subprocess.", "os.system(", "os.popen(", "compile("].map String.toList

def credentialPatterns : List Str :=
  [".env", ".ssh/", ".aws/", ".npmrc", "process.env", "os.environ", ".pypirc", ".netrc", "AWS_",
   "GITHUB_TOKEN", "NPM_TOKEN"].map String.toList

end Patterns

structure ScriptChange where
  name : Str
  oldContent : Str := []
  newContent : Str := []
  deriving DecidableEq

structure PatternMatch where
  pattern : Str
  location : Str
  deriving DecidableEq

structure VersionDelta where
  addedScripts : List ScriptChange := []
  removedScripts : List ScriptChange := []
  changedScripts : List ScriptChange := []
  addedNetworkPatterns : List PatternMatch := []
  addedObfuscation : List PatternMatch := []
  addedCredentialAccess : List PatternMatch := []

abbrev Scripts := Dict Str Str

section Extraction

-- str of a value that is a str, an int (a bool is one) or a float.
def scriptText : Json → Option Str
  | .str text => some text
  | .int n => some (intText n)
  | .bool b => some (if b then "True".toList else "False".toList)
  | .float text => some text
  | _ => none

def keepScript (scripts : Scripts) (entry : Str × Json) : Scripts :=
  match scriptText entry.2 with
  | none => scripts
  | some text => scripts.set entry.1 text

def extractScripts (manifest : Dict Str Json) : Scripts :=
  match manifest.get? "scripts".toList with
  | some (.obj scripts) => scripts.toList.foldl keepScript []
  | _ => []

end Extraction

section Diff

variable (U : Unicode)

def Matches (pattern text : Str) : Prop := U.lowerStr pattern <:+: U.lowerStr text

instance decidableMatches (pattern text : Str) : Decidable (Matches U pattern text) :=
  inferInstanceAs (Decidable (_ <:+: _))

def scriptLocation (key : Str) : Str := "scripts.".toList ++ key

def scanTextForPatterns (text : Str) (patterns : List Str) (label : Str) : List PatternMatch :=
  (patterns.filter fun pattern => Matches U pattern text).map fun pattern => ⟨pattern, label⟩

def sortedNames (names : List Str) : List Str := ascending id names.dedup

def content (scripts : Scripts) (name : Str) : Str := (scripts.get? name).getD []

def joinedText (scripts : Scripts) : Str :=
  [' '].intercalate ((sortedNames scripts.keys).map (content scripts))

def newPatternMatches (old new : Scripts) (pattern : Str) : List PatternMatch :=
  if ¬Matches U pattern (joinedText new) ∨ Matches U pattern (joinedText old) then []
  else ((sortedNames new.keys).filter fun key => Matches U pattern (content new key) ∧
    (key ∉ old.keys ∨ ¬Matches U pattern (content old key))).map
      fun key => ⟨pattern, scriptLocation key⟩

def collectNewPatternMatches (old new : Scripts) (patterns : List Str) (existing : List PatternMatch) :
    List PatternMatch :=
  (patterns.flatMap (newPatternMatches U old new)).foldl
    (fun results found => if found ∈ existing ∨ found ∈ results then results else results ++ [found])
    existing

def scannedNames (old new : Scripts) : List Str :=
  (sortedNames new.keys).filter fun name => name ∉ old.keys ∨ content old name ≠ content new name

def addedMatches (old new : Scripts) (patterns : List Str) : List PatternMatch :=
  let added := (scannedNames old new).flatMap fun name =>
    scanTextForPatterns U (content new name) patterns (scriptLocation name)
  ascending (fun found => toLex (found.pattern, found.location))
    (collectNewPatternMatches U old new patterns added).dedup

def diffScripts (old new : Scripts) : VersionDelta :=
  let names := sortedNames (old.keys ++ new.keys)
  { addedScripts := (names.filter (· ∉ old.keys)).map
      fun name => { name := name, newContent := content new name }
    removedScripts := (names.filter fun name => name ∈ old.keys ∧ name ∉ new.keys).map
      fun name => { name := name, oldContent := content old name }
    changedScripts := (names.filter fun name => name ∈ old.keys ∧ name ∈ new.keys ∧
        content old name ≠ content new name).map
      fun name => { name := name, oldContent := content old name, newContent := content new name }
    addedNetworkPatterns := addedMatches U old new networkPatterns
    addedObfuscation := addedMatches U old new obfuscationPatterns
    addedCredentialAccess := addedMatches U old new credentialPatterns }

def diffManifests (old new : Dict Str Json) : VersionDelta :=
  diffScripts U (extractScripts old) (extractScripts new)

end Diff

inductive PatternFamily where
  | network
  | obfuscation
  | credentialAccess

def PatternFamily.patterns : PatternFamily → List Str
  | network => networkPatterns
  | obfuscation => obfuscationPatterns
  | credentialAccess => credentialPatterns

def VersionDelta.added (delta : VersionDelta) : PatternFamily → List PatternMatch
  | .network => delta.addedNetworkPatterns
  | .obfuscation => delta.addedObfuscation
  | .credentialAccess => delta.addedCredentialAccess

section Reports

variable {U : Unicode} {old new : Scripts} {patterns : List Str} {pattern key : Str}

theorem mem_sortedNames {names : List Str} {name : Str} : name ∈ sortedNames names ↔ name ∈ names := by
  rw [sortedNames, (perm_ascending id names.dedup).mem_iff, List.mem_dedup]

theorem scriptLocation_injective {key key' : Str} (h : scriptLocation key = scriptLocation key') :
    key = key' := List.append_cancel_left h

theorem content_of_get? {scripts : Scripts} {text : Str} (h : scripts.get? key = some text) :
    content scripts key = text := by
  rw [content, h]
  rfl

theorem get?_content {scripts : Scripts} (h : key ∈ scripts.keys) :
    scripts.get? key = some (content scripts key) := by
  obtain ⟨text,htext⟩ := Dict.exists_get?_of_mem_keys h
  rw [content_of_get? htext, htext]

theorem mem_scanTextForPatterns {text label : Str} {found : PatternMatch} :
    found ∈ scanTextForPatterns U text patterns label ↔
      found.pattern ∈ patterns ∧ Matches U found.pattern text ∧ found.location = label := by
  simp only [scanTextForPatterns, List.mem_map, List.mem_filter, decide_eq_true_eq]
  constructor
  · rintro ⟨pattern,⟨hmem,hmatches⟩,rfl⟩
    exact ⟨hmem, hmatches, rfl⟩
  · rintro ⟨hmem,hmatches,rfl⟩
    exact ⟨found.pattern, ⟨hmem, hmatches⟩, rfl⟩

theorem mem_collect_foldl {existing found results : List PatternMatch} {x : PatternMatch}
    (h : x ∈ found.foldl
      (fun results y => if y ∈ existing ∨ y ∈ results then results else results ++ [y]) results) :
    x ∈ results ∨ x ∈ found := by
  induction found generalizing results with
  | nil => exact .inl h
  | cons y found ih =>
    rw [List.foldl_cons] at h
    rcases ih h with hmem | hmem
    · split at hmem
      · exact .inl hmem
      · simp only [List.mem_append, List.mem_singleton] at hmem
        rcases hmem with hmem | rfl
        · exact .inl hmem
        · exact .inr List.mem_cons_self
    · exact .inr (List.mem_cons_of_mem y hmem)

theorem subset_collect_foldl {existing found results : List PatternMatch} :
    results ⊆ found.foldl
      (fun results y => if y ∈ existing ∨ y ∈ results then results else results ++ [y]) results := by
  induction found generalizing results with
  | nil => exact List.Subset.refl _
  | cons y found ih =>
    rw [List.foldl_cons]
    refine List.Subset.trans ?_ ih
    split
    · exact List.Subset.refl _
    · exact List.subset_append_left _ _

def Added (old new : Scripts) (key : Str) : Prop := key ∈ new.keys ∧ old.get? key ≠ new.get? key

theorem mem_scannedNames : key ∈ scannedNames old new ↔ Added old new key := by
  simp only [scannedNames, List.mem_filter, mem_sortedNames, decide_eq_true_eq, Added]
  refine and_congr_right fun hnew => ?_
  rw [get?_content hnew]
  by_cases hold : key ∈ old.keys
  · rw [get?_content hold]
    simp [hold]
  · rw [Dict.not_mem_keys_iff.mp hold]
    simp [hold]

theorem added_of_newPatternMatches {found : PatternMatch} (h : found ∈ newPatternMatches U old new pattern) :
    found.pattern = pattern ∧ ∃ key, Added old new key ∧ Matches U pattern (content new key) ∧
      found.location = scriptLocation key := by
  rw [newPatternMatches] at h
  split at h
  · cases h
  · simp only [List.mem_map, List.mem_filter, mem_sortedNames, decide_eq_true_eq] at h
    obtain ⟨key,⟨hnew,hmatches,hold⟩,rfl⟩ := h
    refine ⟨rfl, key, ⟨hnew, fun hsame => ?_⟩, hmatches, rfl⟩
    have hsome := hsame.trans (get?_content hnew)
    rcases hold with hold | hold
    · rw [Dict.not_mem_keys_iff.mp hold] at hsome
      cases hsome
    · rw [content_of_get? hsome] at hold
      exact hold hmatches

theorem mem_addedMatches {found : PatternMatch} : found ∈ addedMatches U old new patterns ↔
    found.pattern ∈ patterns ∧ ∃ key, Added old new key ∧ Matches U found.pattern (content new key) ∧
      found.location = scriptLocation key := by
  have hscanned : ∀ x, x ∈ ((scannedNames old new).flatMap fun name =>
        scanTextForPatterns U (content new name) patterns (scriptLocation name)) ↔
      x.pattern ∈ patterns ∧ ∃ key, Added old new key ∧ Matches U x.pattern (content new key) ∧
        x.location = scriptLocation key := by
    intro x
    simp only [List.mem_flatMap, mem_scannedNames, mem_scanTextForPatterns]
    constructor
    · rintro ⟨name,hadded,hmem,hmatches,hloc⟩
      exact ⟨hmem, name, hadded, hmatches, hloc⟩
    · rintro ⟨hmem,name,hadded,hmatches,hloc⟩
      exact ⟨name, hadded, hmem, hmatches, hloc⟩
  rw [addedMatches, (perm_ascending _ _).mem_iff, List.mem_dedup, collectNewPatternMatches]
  constructor
  · intro h
    rcases mem_collect_foldl h with hmem | hmem
    · exact (hscanned found).mp hmem
    · obtain ⟨pattern,hpattern,hfound⟩ := List.mem_flatMap.mp hmem
      obtain ⟨rfl,hkey⟩ := added_of_newPatternMatches hfound
      exact ⟨hpattern, hkey⟩
  · exact fun h => subset_collect_foldl ((hscanned found).mpr h)

end Reports

section Exactness

variable {U : Unicode}

def Reports (U : Unicode) (old new : Dict Str Json) (family : PatternFamily) (pattern key : Str) : Prop :=
  ⟨pattern, scriptLocation key⟩ ∈ (diffManifests U old new).added family

def HasPattern (U : Unicode) (manifest : Dict Str Json) (pattern key : Str) : Prop :=
  ∃ text, (extractScripts manifest).get? key = some text ∧ Matches U pattern text

def EditedWithPattern (U : Unicode) (old new : Dict Str Json) (pattern key : Str) : Prop :=
  HasPattern U old pattern key ∧ HasPattern U new pattern key ∧
    (extractScripts old).get? key ≠ (extractScripts new).get? key

theorem added_diffManifests (old new : Dict Str Json) (family : PatternFamily) :
    (diffManifests U old new).added family =
      addedMatches U (extractScripts old) (extractScripts new) family.patterns := by
  cases family <;> rfl

theorem reports_iff {old new : Dict Str Json} {family : PatternFamily} {pattern key : Str} :
    Reports U old new family pattern key ↔ pattern ∈ family.patterns ∧ HasPattern U new pattern key ∧
      (extractScripts old).get? key ≠ (extractScripts new).get? key := by
  rw [Reports, added_diffManifests, mem_addedMatches]
  refine and_congr_right fun _ => ?_
  constructor
  · rintro ⟨key',⟨hnew,hne⟩,hmatches,hloc⟩
    obtain rfl := scriptLocation_injective hloc
    exact ⟨⟨_, get?_content hnew, hmatches⟩, hne⟩
  · rintro ⟨⟨text,htext,hmatches⟩,hne⟩
    rw [← content_of_get? htext] at hmatches
    exact ⟨key, ⟨Dict.mem_keys_of_get? htext, hne⟩, hmatches, rfl⟩

theorem pattern_report_exact_iff (U : Unicode) (old new : Dict Str Json) (family : PatternFamily)
    (pattern key : Str) :
    (pattern ∈ family.patterns → (Reports U old new family pattern key ↔
      HasPattern U new pattern key ∧ ¬HasPattern U old pattern key)) ↔
    (pattern ∈ family.patterns → ¬EditedWithPattern U old new pattern key) := by
  refine forall_congr' fun hpattern => ?_
  rw [reports_iff, and_iff_right hpattern, EditedWithPattern]
  constructor
  · rintro hexact ⟨hold,hnew,hne⟩
    exact (hexact.mp ⟨hnew, hne⟩).2 hold
  · intro hno
    constructor
    · exact fun ⟨hnew,hne⟩ => ⟨hnew, fun hold => hno ⟨hold, hnew, hne⟩⟩
    · rintro ⟨hnew,hold⟩
      refine ⟨hnew, fun hsame => hold ?_⟩
      rw [HasPattern, hsame]
      exact hnew

def manifestWith (script : String) : Dict Str Json :=
  [("scripts".toList, .obj (.cons "postinstall".toList (.str script.toList) .nil))]

theorem edited_script_reports_old_pattern :
    ¬∀ (U : Unicode) (old new : Dict Str Json) (family : PatternFamily) (pattern key : Str),
      pattern ∈ family.patterns → (Reports U old new family pattern key ↔
        HasPattern U new pattern key ∧ ¬HasPattern U old pattern key) := by
  intro h
  have hexact := h .basic (manifestWith "curl a") (manifestWith "curl b") .network "curl ".toList
    "postinstall".toList (by decide)
  have hold : HasPattern .basic (manifestWith "curl a") "curl ".toList "postinstall".toList :=
    ⟨"curl a".toList, rfl, by decide⟩
  have hnew : HasPattern .basic (manifestWith "curl b") "curl ".toList "postinstall".toList :=
    ⟨"curl b".toList, rfl, by decide⟩
  exact (hexact.mp (reports_iff.mpr ⟨by decide, hnew, by decide⟩)).2 hold

end Exactness

end PicoSentry.Scan.VersionDiff
