import PicoSentry.Watch.RuleEngine

namespace PicoSentry.Watch.Rules

open Foundation Regex

section Float

variable (U : Unicode)

-- What safe_load makes of a weight.
inductive Value where
  | null
  | bool (b : Bool)
  | int (n : ℤ)
  | float (x : Number)
  | str (s : Str)
  | collection

inductive FloatError where
  | typeError
  | valueError
  | overflowError

def readDigits : Str → Option (List Nat × Str)
  | c :: '_' :: d :: rest =>
    match U.digit c, U.digit d with
    | some n, some _ => (readDigits (d :: rest)).map fun found => (n :: found.1, found.2)
    | some n, none => some ([n], '_' :: d :: rest)
    | none, _ => none
  | c :: rest =>
    (U.digit c).map fun n =>
      match readDigits rest with
      | some found => (n :: found.1, found.2)
      | none => ([n], rest)
  | [] => none

def digitsToNat (digits : List Nat) : Nat := digits.foldl (fun n d => 10 * n + d) 0

def readSign : Str → Bool × Str
  | '-' :: rest => (true, rest)
  | '+' :: rest => (false, rest)
  | text => (false, text)

def readExponent : Str → Option (ℤ × Str)
  | c :: rest =>
    if c = 'e' ∨ c = 'E' then
      let signed := readSign rest
      (readDigits U signed.2).map fun found =>
        (if signed.1 then -digitsToNat found.1 else digitsToNat found.1, found.2)
    else some (0, c :: rest)
  | [] => some (0, [])

-- digits, digits.digits, digits. or .digits, with an exponent or without.
def readDecimal (text : Str) : Option ℚ := do
  let (whole, rest) := (readDigits U text).getD ([], text)
  let (part, rest) :=
    match rest with
    | '.' :: after => (readDigits U after).getD ([], after)
    | _ => ([], rest)
  if whole = [] ∧ part = [] then none
  else
    let (exponent, rest) ← readExponent U rest
    if rest = [] then some ((digitsToNat (whole ++ part) : ℚ) * 10 ^ (exponent - part.length)) else none

def infinities : List Str := ["inf".toList, "infinity".toList]

def floatOfText (text : Str) : Option Number :=
  let (negative, rest) := readSign (U.strip text)
  if infinities.contains (U.lowerStr rest) then some (if negative then .negInf else .posInf)
  else if U.lowerStr rest = "nan".toList then some .nan
  else (readDecimal U rest).map fun q => .finite (if negative then -q else q)

-- float(), where an integer that no float can hold raises.
def pyFloat : Value → Except FloatError Number
  | .bool b => .ok (.finite (if b then 1 else 0))
  | .int n => if n.natAbs < 2 ^ 1024 - 2 ^ 970 then .ok (.finite n) else .error .overflowError
  | .float x => .ok x
  | .str s => (floatOfText U s).elim (.error .valueError) .ok
  | .null => .error .typeError
  | .collection => .error .typeError

end Float

section Entries

-- A mapping of a rule file: the fields of a rule as texts, and its other keys where they are texts.
structure Entry where
  id : Option Str := none
  category : Option Str := none
  weight : Option Value := none
  pattern : Option Str := none
  description : Option Str := none
  unknownKeys : List (Option Str) := []

inductive YamlFailure where
  | yamlError
  | other

-- A rule is dropped with a message, or the rest of its file with it.
inductive EntryFailure where
  | invalid
  | escapes

structure RuleFile where
  path : List Str
  content : Option Str

structure Gathered where
  rules : List Rule := []
  hashParts : List Str := []
  expected : Nat := 0
  loadErrors : List LoadError := []

-- safe_load of PyYAML with an entry for each item, none where it is no mapping, and re.compile.
structure Parsers where
  safeLoad : Str → Except YamlFailure (List (Option Entry))
  compile : Str → Option Seq

variable (U : Unicode) (P : Parsers)

def entryWeight (entry : Entry) : Except EntryFailure Number :=
  match entry.weight.elim (.ok (.finite (1 / 2))) (pyFloat U) with
  | .ok weight => .ok weight
  | .error .overflowError => .error .escapes
  | .error _ => .error .invalid

def postInit (rule : Rule) : Except EntryFailure Rule :=
  if rule.weight.lt (.finite 0) || (Number.finite 1).lt rule.weight then .error .invalid
  else .ok { rule with weight := rule.weight.roundTo 4 }

def makeRule (entry : Entry) : Except EntryFailure Rule :=
  match entry.id, entry.category with
  | some id, some category => do
    let weight ← entryWeight U entry
    match entry.pattern with
    | some pattern =>
      postInit { id := id, category := category, weight := weight, pattern := P.compile pattern,
                 description := entry.description.getD [] }
    | none => .error .invalid
  | _, _ => .error .invalid

def noteUnknownKeys (file : Str) (entry : Entry) (found : Gathered) : Gathered :=
  let unknown := sortedSet (entry.unknownKeys.filterMap id)
  if unknown = [] then found else { found with loadErrors := found.loadErrors ++ [.unknownKeys unknown file] }

-- The message on unknown keys cannot be made of a key that is no text.
def readEntry (file : Str) (found : Gathered) : Option Entry → Except Gathered Gathered
  | none => .ok found
  | some entry =>
    let found := { found with expected := found.expected + 1 }
    if none ∈ entry.unknownKeys then .error found
    else
      let found := noteUnknownKeys file entry found
      match makeRule U P entry with
      | .ok rule => .ok { found with rules := found.rules ++ [rule] }
      | .error .invalid => .ok { found with loadErrors := found.loadErrors ++ [.invalidRule file] }
      | .error .escapes => .error found

def fileName (file : RuleFile) : Str := file.path.getLast?.getD []

def readFile (found : Gathered) (file : RuleFile) : Gathered :=
  let failed := fun (found : Gathered) (error : Str → LoadError) => { found with loadErrors := found.loadErrors ++ [error (fileName file)] }
  match file.content with
  | none => failed found .unreadable
  | some content =>
    let found := { found with hashParts := found.hashParts ++ [content] }
    match P.safeLoad content with
    | .error .yamlError => failed found .yamlParse
    | .error .other => failed found .unreadable
    | .ok items =>
      match items.foldlM (readEntry U P (fileName file)) found with
      | .ok found => found
      | .error found => failed found .unreadable

def withSuffix (suffix : String) (files : List RuleFile) : List RuleFile :=
  (files.filter fun file => suffix.toList.isSuffixOf (fileName file)).insertionSort fun f g => f.path ≤ g.path

def yamlFiles (files : List RuleFile) : List RuleFile := withSuffix ".yaml" files ++ withSuffix ".yml" files

def gather (files : List RuleFile) : Gathered := (yamlFiles files).foldl (readFile U P) {}

end Entries

section Corpus

variable (U : Unicode) (P : Parsers) (sha256 : Str → Str)

structure Corpus where
  engine : RuleEngine := {}
  rulesExpected : Nat := 0
  corpusHash : Str := "no-rules-loaded".toList

def loadCorpus (dir : Option (List RuleFile)) (allowedCategories : Option (List Str)) : Corpus :=
  match dir with
  | none => {}
  | some files =>
    let found := gather U P files
    let engine := loadRules U found.rules allowedCategories
    { engine := { engine with loadErrors := found.loadErrors ++ engine.loadErrors }
      rulesExpected := found.expected
      corpusHash := if found.hashParts = [] then "no-rules-loaded".toList else (sha256 found.hashParts.flatten).take 16 }

def Corpus.rulesLoaded (corpus : Corpus) : Nat := corpus.engine.rules.length

end Corpus

section Yields

variable {U : Unicode} {P : Parsers}

def entryOutcome (U : Unicode) (P : Parsers) (entry : Entry) : Except EntryFailure Rule :=
  if none ∈ entry.unknownKeys then .error .escapes else makeRule U P entry

def itemRules (U : Unicode) (P : Parsers) : List (Option Entry) → List Rule
  | [] => []
  | none :: items => itemRules U P items
  | some entry :: items =>
    match entryOutcome U P entry with
    | .ok rule => rule :: itemRules U P items
    | .error .invalid => itemRules U P items
    | .error .escapes => []

def fileRules (U : Unicode) (P : Parsers) (file : RuleFile) : List Rule :=
  match file.content.map P.safeLoad with
  | some (.ok items) => itemRules U P items
  | _ => []

theorem rules_noteUnknownKeys (file : Str) (entry : Entry) (found : Gathered) :
    (noteUnknownKeys file entry found).rules = found.rules := by
  rw [noteUnknownKeys]
  split
  · rfl
  · rfl

theorem readEntry_ok {entry : Entry} {rule : Rule} (file : Str) (found : Gathered)
    (h : entryOutcome U P entry = .ok rule) :
    ∃ next, readEntry U P file found (some entry) = .ok next ∧ next.rules = found.rules ++ [rule] := by
  rw [entryOutcome] at h
  rw [readEntry]
  dsimp only
  split at h
  · cases h
  · next hkeys =>
    rw [if_neg hkeys, h]
    exact ⟨_, rfl, by simp [rules_noteUnknownKeys]⟩

theorem readEntry_invalid {entry : Entry} (file : Str) (found : Gathered)
    (h : entryOutcome U P entry = .error .invalid) :
    ∃ next, readEntry U P file found (some entry) = .ok next ∧ next.rules = found.rules := by
  rw [entryOutcome] at h
  rw [readEntry]
  dsimp only
  split at h
  · cases h
  · next hkeys =>
    rw [if_neg hkeys, h]
    exact ⟨_, rfl, by simp [rules_noteUnknownKeys]⟩

theorem readEntry_escapes {entry : Entry} (file : Str) (found : Gathered)
    (h : entryOutcome U P entry = .error .escapes) :
    ∃ next, readEntry U P file found (some entry) = .error next ∧ next.rules = found.rules := by
  rw [entryOutcome] at h
  rw [readEntry]
  dsimp only
  split at h
  · next hkeys => exact ⟨_, if_pos hkeys, rfl⟩
  · next hkeys =>
    rw [if_neg hkeys, h]
    exact ⟨_, rfl, by simp [rules_noteUnknownKeys]⟩

theorem foldlM_readEntry (file : Str) (items : List (Option Entry)) (found : Gathered) :
    ∃ rest, (items.foldlM (readEntry U P file) found = .ok rest ∨ items.foldlM (readEntry U P file) found = .error rest) ∧
      rest.rules = found.rules ++ itemRules U P items := by
  induction items generalizing found with
  | nil => exact ⟨found, .inl rfl, (List.append_nil _).symm⟩
  | cons item items ih =>
    rw [List.foldlM_cons]
    cases item with
    | none => exact ih found
    | some entry =>
      rw [itemRules]
      cases houtcome : entryOutcome U P entry with
      | ok rule =>
        obtain ⟨next,hnext,hrules⟩ := readEntry_ok file found houtcome
        obtain ⟨rest,hfold,hrest⟩ := ih next
        rw [hnext]
        exact ⟨rest, hfold, by simp [hrest, hrules]⟩
      | error failure =>
        cases failure with
        | invalid =>
          obtain ⟨next,hnext,hrules⟩ := readEntry_invalid file found houtcome
          obtain ⟨rest,hfold,hrest⟩ := ih next
          rw [hnext]
          exact ⟨rest, hfold, by simp [hrest, hrules]⟩
        | escapes =>
          obtain ⟨next,hnext,hrules⟩ := readEntry_escapes file found houtcome
          rw [hnext]
          exact ⟨next, .inr rfl, by simp [hrules]⟩

theorem rules_readFile (found : Gathered) (file : RuleFile) :
    (readFile U P found file).rules = found.rules ++ fileRules U P file := by
  rw [readFile, fileRules]
  cases file.content with
  | none => simp
  | some content =>
    dsimp only [Option.map_some]
    cases P.safeLoad content with
    | error failure => cases failure <;> simp
    | ok items =>
      dsimp only
      obtain ⟨rest,hfold | hfold,hrules⟩ := foldlM_readEntry (U := U) (P := P) (fileName file) items
        { found with hashParts := found.hashParts ++ [content] }
      · rw [hfold]
        exact hrules
      · rw [hfold]
        exact hrules

theorem rules_gather (files : List RuleFile) : (gather U P files).rules = (yamlFiles files).flatMap (fileRules U P) := by
  have hfold : ∀ (files : List RuleFile) found,
      (files.foldl (readFile U P) found).rules = found.rules ++ files.flatMap (fileRules U P) := by
    intro files
    induction files with
    | nil => simp
    | cons file files ih => simp [ih, rules_readFile]
  exact (hfold _ _).trans (List.nil_append _)

theorem keptRules_eq_nil_iff {raw : List Rule} : keptRules raw none = [] ↔ raw = [] := by
  constructor
  · intro h
    have hfirst : firstDefinitions [] (sortById raw) = [] := by simpa [keptRules] using h
    cases hsorted : sortById raw with
    | nil =>
      have hlength := List.length_insertionSort (fun r s : Rule => r.id ≤ s.id) raw
      rw [← sortById, hsorted] at hlength
      exact List.length_eq_zero_iff.mp hlength.symm
    | cons rule rules =>
      rw [hsorted, firstDefinitions, if_neg List.not_mem_nil] at hfirst
      cases hfirst
  · rintro rfl
    rfl

end Yields

end PicoSentry.Watch.Rules
