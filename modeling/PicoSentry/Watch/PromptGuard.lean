import PicoSentry.Foundation.FirstOf
import PicoSentry.Watch.DecodeCandidates
import PicoSentry.Watch.Normalizer
import PicoSentry.Watch.PromptClassifier
import PicoSentry.Watch.RuleLoader

namespace PicoSentry.Watch.PromptGuard

open Foundation Normalizer Rules

section Results

inductive Verdict where
  | pass
  | warn
  | block
  deriving DecidableEq

structure Config where
  failClosed : Bool := false
  thresholdBlock : Number := .finite (7 / 10)
  thresholdWarn : Number := .finite (4 / 10)
  maxPromptSize : ℤ := 1000000
  classifierEnabled : Bool := true
  blendFactor : BlendFactor := ⟨1, zero_le_one, le_rfl⟩
  corpusVersion : Str := "2026.05.1".toList
  maxJsonSchemaNodes : ℤ := 1000
  maxJsonSchemaDepth : ℤ := 32

inductive Detail where
  | given (value : Json)
  | text (s : Str)
  | number (x : Number)
  | features (fs : List (Str × ℚ))
  | flag (b : Bool)

structure PromptScanResult where
  blocked : Bool
  score : Number
  rulesMatched : List Str
  corpusHash : Str
  corpusVersion : Str
  verdict : Verdict
  normalizedInput : Option Str
  details : Dict Str Detail
  thresholdBlock : Number := .finite (7 / 10)
  thresholdWarn : Number := .finite (4 / 10)

def verdictOf (blocked : Bool) (score block warn : Number) : Verdict :=
  if blocked || block.le score then .block else if warn.le score then .warn else .pass

def refusal (config : Config) (corpus : Corpus) (rule error : Str) : PromptScanResult where
  blocked := true
  score := .finite 1
  rulesMatched := [rule]
  corpusHash := corpus.corpusHash
  corpusVersion := config.corpusVersion
  verdict := .block
  normalizedInput := none
  details := [("error".toList, .text error)]

def failClosedNoRules : Str := "fail_closed_no_rules".toList

def noRulesError : Str :=
  "No rules loaded (corpus missing/empty/all failed); fail-closed mode is active".toList

end Results

section Score

variable {μ : Type}

def maxWeight : List (Rule × μ) → Number
  | [] => .finite 0
  | first :: rest => rest.foldl (fun best found => best.max found.1.weight) first.1.weight

def score (found : List (Rule × μ)) : Number × List Str :=
  if found.isEmpty then (.finite 0, []) else ((maxWeight found).roundTo 6, Regex.sortedSet (found.map fun m => m.1.id))

end Score

section Scan

variable (T : CharTables) (nfkc : Str → Str) (htmlUnescape : Str → Option Str) {μ : Type} (E : Regex.Engine T.toUnicode μ)

def maxDecodeBytes : Int := 256 * 1024

structure Scan (μ : Type) where
  normalized : Str
  markerNormalized : Option Str
  decodedTexts : List Str
  decodeExhausted : Bool
  found : List (Rule × μ)

def markerVariant (text : Str) : Option Str :=
  let markerNeutral := neutralizeCommentMarkers text
  let candidate := normalize T nfkc markerNeutral
  if markerNeutral ≠ text ∧ candidate ≠ normalize T nfkc text then some candidate else none

def decodedVariants (text : Str) : Option (List Str × Bool) := do
  let decoded ← decodeCandidates T htmlUnescape text (some maxDecodeBytes)
  let normalized := normalize T nfkc text
  if normalized = text then return decoded
  else
    let more ← decodeCandidates T htmlUnescape normalized (some maxDecodeBytes)
    return (firstOf id [] (decoded.1 ++ more.1), decoded.2 || more.2)

-- None where a decoder raises.
def scan (engine : RuleEngine) (text : Str) : Option (Scan μ) := do
  let normalized := normalize T nfkc text
  let raw := if hasZeroWidth text then evaluate E engine text else []
  let markerNormalized := markerVariant T nfkc text
  let sepRemoved := normalizeSeparatorRemoved T nfkc text
  let rejoined := if hasSeparatorPunct T text && sepRemoved ≠ normalized then evaluate E engine sepRemoved else []
  let (decodedTexts, decodeExhausted) ← decodedVariants T nfkc htmlUnescape text
  let found := evaluate E engine normalized ++
    (raw ++ ((markerNormalized.elim [] (evaluate E engine)) ++
      (rejoined ++ decodedTexts.flatMap fun decoded => evaluate E engine (normalize T nfkc decoded))))
  return ⟨normalized, markerNormalized, decodedTexts, decodeExhausted, firstOf (fun m => m.1.id) [] found⟩

def classifyAll (scan : Scan μ) : ℚ × List (Str × ℚ) :=
  let categories := scan.found.map fun m => m.1.category
  (scan.decodedTexts ++ scan.markerNormalized.toList).foldl
    (fun best text =>
      let other := classify T text categories
      if best.1 < other.1 then other else best)
    (classify T scan.normalized categories)

def scanDetails (config : Config) (scan : Scan μ) (regexScore : Number) (classified : ℚ × List (Str × ℚ))
    (context : Dict Str Json) : Dict Str Detail :=
  let details := context.map fun entry => (entry.1, Detail.given entry.2)
  let details :=
    if config.classifierEnabled then
      Dict.set (Dict.set (Dict.set details "regex_score".toList (.number regexScore)) "classifier_score".toList
        (.number (.finite classified.1))) "classifier_features".toList (.features classified.2)
    else details
  if scan.decodeExhausted then Dict.set details "decode_budget_exhausted".toList (.flag true) else details

def judged (config : Config) (corpus : Corpus) (scan : Scan μ) (context : Dict Str Json) : PromptScanResult :=
  let scored := score scan.found
  let classified :=
    if config.classifierEnabled && scored.1.lt config.thresholdBlock then classifyAll T scan else (0, [])
  let finalScore := blend config.blendFactor scored.1 classified.1
  let blocked := config.thresholdBlock.le finalScore
  { blocked := blocked
    score := finalScore.roundTo 6
    rulesMatched := scored.2
    corpusHash := corpus.corpusHash
    corpusVersion := config.corpusVersion
    verdict := verdictOf blocked (finalScore.roundTo 6) config.thresholdBlock config.thresholdWarn
    normalizedInput := some scan.normalized
    details := scanDetails config scan scored.1 classified context
    thresholdBlock := config.thresholdBlock
    thresholdWarn := config.thresholdWarn }

def utf8Length (text : Str) : Nat := (text.map Char.utf8Size).sum

-- None where an exception leaves the call; its text is not part of the model.
def check (config : Config) (corpus : Corpus) (text : Str) (context : Dict Str Json) : Option PromptScanResult :=
  if config.failClosed && corpus.rulesLoaded = 0 then
    some (refusal config corpus failClosedNoRules noRulesError)
  else if config.maxPromptSize < utf8Length text then
    some (refusal config corpus "input_oversized".toList
      ("Input exceeds maximum size (".toList ++ intText config.maxPromptSize ++ " bytes)".toList))
  else
    match scan T nfkc htmlUnescape E corpus.engine text with
    | some scan => some (judged T config corpus scan context)
    | none =>
      if config.failClosed then
        some (refusal config corpus "fail_closed_error".toList
          "Evaluation failed and fail-closed mode is active: ".toList)
      else none

end Scan

end PicoSentry.Watch.PromptGuard
