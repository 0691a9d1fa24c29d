import Mathlib.Data.List.Infix
import PicoSentry.Foundation.Backtrack
import PicoSentry.Foundation.CharTables
import PicoSentry.Foundation.Number

namespace PicoSentry.Watch.PromptGuard

open Foundation

section Tokens

def tokens (list : List String) : List Str := list.map String.toList

def overrideTokens : List Str :=
  tokens ["ignore", "forget", "disregard", "override", "bypass", "disable", "dismiss", "neglect", "pay no attention",
    "do not follow", "stop following", "new instruction", "new directive", "new rule", "from now on", "starting now",
    "effective immediately", "moving forward", "everything you were told", "all previous instructions",
    "all prior instructions", "previous instructions", "prior instructions", "without any restrictions",
    "without restrictions", "no restrictions", "unrestricted"]

def roleTokens : List Str :=
  tokens ["you are now", "you are no longer", "act as", "behave as", "behave like", "roleplay", "role play", "persona",
    "character", "simulation", "simulated", "pretend to be", "pretend you are", "stop being", "stop acting", "new role"]

def extractionTokens : List Str :=
  tokens ["system prompt", "system message", "instructions above", "rules above", "initial prompt", "training data",
    "training set", "configuration", "config file", "reveal", "repeat back", "echo back", "print the above",
    "show me the", "what were you told"]

def multiturnTokens : List Str :=
  tokens ["part 2", "part two", "concatenate", "combine these", "piece together", "according to the document",
    "as stated in", "the document says", "encode this as"]

def formatBreakout : List Str := tokens ["]]", "```", "<|", "|>", "[end", "[system", "(system"]

def benignMarkers : List Str :=
  tokens ["i made a typo", "i made an error", "i misspoke", "correction", "thank you", "thanks", "sorry", "i apologize",
    "as a user", "i'm asking", "i am asking", "i want to", "i would like", "not a real", "just curious",
    "for my understanding", "for my novel", "for a novel", "for my story", "for a story", "in my story", "for my book",
    "for my kids", "for my game", "for a game"]

def systemWords : List String := ["system", "admin", "root", "developer", "debug"]

def imperativeWords : List String :=
  ["ignore", "forget", "disregard", "override", "bypass", "disable", "reveal", "repeat", "echo", "print", "show", "stop",
   "start", "act", "behave", "pretend"]

def benignContextCores : List Str := tokens ["typo", "error", "misspoke", "correction", "ignore that"]

end Tokens

section Structural

variable (T : CharTables)

def foldedWord (s : String) : Re := .all (s.toList.map fun c => .chars (T.sameIgnoringCase c))

def foldedWords (list : List String) : Re := .any (list.map (foldedWord T))

def systemPrefix : Re :=
  .all [.run T.space 0 none, foldedWords T systemWords, .run T.space 0 none, .chars fun c => [':', '-', ']'].contains c]

def imperativeStart : Re :=
  .all [.run T.space 0 none, foldedWords T imperativeWords, .run T.space 1 none]

def benignOverrideContext : Re :=
  .all [.boundary,
    foldedWords T ["i made a typo", "i made an error", "i misspoke", "correction", "ignore that"], .boundary]

def afterNewlines : Str → List Str
  | [] => []
  | c :: rest => if c = '\n' then rest :: afterNewlines rest else afterNewlines rest

-- (?:^|\n) in front of a pattern.
def foundAtLineStart (r : Re) (text : Str) : Bool :=
  (text :: afterNewlines text).any fun t => !(r.ways T.word (false, t)).isEmpty

def wordCountFrom : Bool → Str → Nat
  | _, [] => 0
  | inWord, c :: rest =>
    if T.space c then wordCountFrom false rest else (if inWord then 0 else 1) + wordCountFrom true rest

-- len(text.split())
def wordCount (text : Str) : Nat := wordCountFrom T false text

end Structural

section Classify

variable (T : CharTables)

def hits (list : List Str) (lowered : Str) : Nat := list.countP fun token => decide (token <:+: lowered)

def anyIn (list : List Str) (lowered : Str) : Bool := list.any fun token => decide (token <:+: lowered)

def flag (b : Bool) : ℚ := if b then 1 else 0

def round6 (q : ℚ) : ℚ := Number.roundHalfEven (q * 10 ^ 6) / 10 ^ 6

def density (count words : Nat) : ℚ := min (count / max (words * (5 / 100)) 1) 1

structure Signals where
  overrideHits : Nat
  roleHits : Nat
  extractionHits : Nat
  multiturnHits : Nat
  formatHits : Nat
  benignMarkerCount : Nat
  systemPrefix : ℚ
  imperativeStart : ℚ
  benignOverrideContext : ℚ
  words : Nat

def signals (text : Str) : Signals :=
  let normalized := T.lowerStr text
  { overrideHits := hits overrideTokens normalized
    roleHits := hits roleTokens normalized
    extractionHits := hits extractionTokens normalized
    multiturnHits := hits multiturnTokens normalized
    formatHits := hits formatBreakout normalized
    benignMarkerCount := hits benignMarkers normalized
    systemPrefix := flag (anyIn (tokens systemWords) normalized && foundAtLineStart T (systemPrefix T) text)
    imperativeStart := flag (anyIn (tokens imperativeWords) normalized && foundAtLineStart T (imperativeStart T) text)
    benignOverrideContext :=
      flag (anyIn benignContextCores normalized && finditer ((benignOverrideContext T).replacing T.word []) text ≠ [])
    words := max (wordCount T normalized) 1 }

def categoriesPresent (s : Signals) (matched : List Str) : List Str :=
  (matched ++
    ((if s.overrideHits ≠ 0 then ["instruction_override".toList] else []) ++
    ((if s.roleHits ≠ 0 then ["role_manipulation".toList] else []) ++
    ((if s.extractionHits ≠ 0 then ["extraction_attempt".toList] else []) ++
    ((if s.multiturnHits ≠ 0 then ["multi_turn_trap".toList] else []) ++
    ((if s.systemPrefix ≠ 0 then ["system_prefix".toList] else []) ++
    (if s.formatHits ≠ 0 then ["format_breakout".toList] else []))))))).dedup

def structuralScore (s : Signals) : ℚ :=
  max (max (s.systemPrefix * (7 / 10)) (s.imperativeStart * (6 / 10))) (min (s.formatHits / 2) 1 * (5 / 10))

def familyScore (s : Signals) : ℚ :=
  let overrideScore := min (density s.overrideHits s.words * (95 / 100) + flag (2 ≤ s.overrideHits) * (2 / 10)) 1
  let roleScore := min (density s.roleHits s.words * (8 / 10) + flag (2 ≤ s.roleHits) * (15 / 100)) 1
  let extractionScore := min (density s.extractionHits s.words * (95 / 100)) 1
  let multiturnScore := min ((s.multiturnHits : ℚ) / 2) 1 * (5 / 10)
  max (max (max overrideScore roleScore) extractionScore) multiturnScore

def classify (text : Str) (matchedCategories : List Str) : ℚ × List (Str × ℚ) :=
  if text = [] then (0, [])
  else
    let s := signals T text
    let hasBenignContext := 0 < s.benignMarkerCount || 0 < s.benignOverrideContext
    let categories := categoriesPresent s matchedCategories
    let diversity := min ((categories.length : ℚ) / 3) 1
    let structural := structuralScore s
    let corroborated := 2 ≤ s.overrideHits || 2 ≤ s.roleHits || 2 ≤ s.extractionHits || 2 ≤ s.multiturnHits ||
      2 ≤ categories.length || 0 < structural
    let familyMax := if !corroborated && 45 / 100 < familyScore s then 45 / 100 else familyScore s
    let combined := min (familyMax * (4 / 10 + 8 / 10 * max diversity (5 / 10)) +
      structural * (5 / 10 + 5 / 10 * diversity)) 1
    let score :=
      if s.benignOverrideContext ≠ 0 ∧ s.overrideHits ≤ 1 ∧ structural < 5 / 10 then 0
      else if hasBenignContext && corroborated then
        let signalStrength := familyMax + structural + diversity
        let suppression :=
          if signalStrength < 19 / 10 then 35 / 100 else if signalStrength < 25 / 10 then 6 / 10 else 85 / 100
        round6 (min (max (combined * suppression) 0) 1)
      else if hasBenignContext then round6 (min (max (combined * (25 / 100)) 0) 1)
      else round6 (min (max combined 0) 1)
    (score,
      [("override_density".toList, round6 (density s.overrideHits s.words)),
       ("role_density".toList, round6 (density s.roleHits s.words)),
       ("extraction_density".toList, round6 (density s.extractionHits s.words)),
       ("multiturn_hits".toList, s.multiturnHits), ("format_hits".toList, s.formatHits),
       ("system_prefix".toList, s.systemPrefix), ("imperative_start".toList, s.imperativeStart),
       ("benign_marker_count".toList, s.benignMarkerCount), ("benign_override_context".toList, s.benignOverrideContext),
       ("diversity".toList, round6 diversity), ("family_max".toList, round6 familyMax),
       ("structural".toList, round6 structural), ("corroborated".toList, flag corroborated)])

-- PromptClassifier raises on a factor outside of [0, 1].
structure BlendFactor where
  value : ℚ
  nonneg : 0 ≤ value
  le_one : value ≤ 1

def blend (factor : BlendFactor) (regexScore : Number) (classifierScore : ℚ) : Number :=
  ((regexScore.max (.finite (classifierScore * factor.value))).min (.finite 1)).roundTo 6

theorem blend_nonneg (factor : BlendFactor) {regexScore : Number} (h : regexScore.Nonneg) (classifierScore : ℚ) :
    (blend factor regexScore classifierScore).Nonneg :=
  ((h.max _).min (Number.nonneg_finite.mpr zero_le_one)).roundTo 6

end Classify

end PicoSentry.Watch.PromptGuard
