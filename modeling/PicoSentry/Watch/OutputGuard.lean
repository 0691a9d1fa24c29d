import PicoSentry.Foundation.JsonDict
import PicoSentry.Watch.PiiDetection
import PicoSentry.Watch.PromptGuard

namespace PicoSentry.Watch.OutputGuard

open Foundation Normalizer Rules PromptGuard

section Schema

mutual

-- The nodes of a schema, none where it is nested deeper than allowed.
def countNodes (maxDepth : ℤ) (depth : ℤ) : Json → Option Nat
  | .arr items => if maxDepth < depth then none else (countItems maxDepth depth items).map (· + 1)
  | .obj fields => if maxDepth < depth then none else (countFields maxDepth depth fields).map (· + 1)
  | _ => if maxDepth < depth then none else some 1

def countItems (maxDepth : ℤ) (depth : ℤ) : JsonItems → Option Nat
  | .nil => some 0
  | .cons item rest => do return (← countNodes maxDepth (depth + 1) item) + (← countItems maxDepth depth rest)

def countFields (maxDepth : ℤ) (depth : ℤ) : JsonFields → Option Nat
  | .nil => some 0
  | .cons _ value rest => do return (← countNodes maxDepth (depth + 1) value) + (← countFields maxDepth depth rest)

end

def checkSchemaSize (config : Config) (schema : Dict Str Json) : Option Unit := do
  let nodes ← countNodes config.maxJsonSchemaDepth 1 (.obj (.ofList schema))
  if config.maxJsonSchemaNodes < nodes then none else some ()

def hasType (name : Str) : Json → Bool
  | .obj _ => name = "object".toList
  | .arr _ => name = "array".toList
  | .str _ => name = "string".toList
  | .int _ => name = "number".toList || name = "integer".toList
  | .float _ => name = "number".toList
  | .bool _ => name = "boolean".toList
  | .null => name = "null".toList

def schemaTypes : List Str :=
  ["object", "array", "string", "number", "integer", "boolean", "null"].map String.toList

def missingRequired (fields : Dict Str Json) (required : List Str) : List Str :=
  (required.filter fun field => (Dict.get? fields field).isNone).map ("out_fmt_missing_required_".toList ++ ·)

-- The fields that a schema requires are texts.
def checkSchema (output : Str) (schema : Dict Str Json) : List Str :=
  match Json.loads output with
  | none => ["out_fmt_invalid_json".toList]
  | some data =>
    let mismatch := ((Dict.get? schema "type".toList).bind Json.text?).any fun name => schemaTypes.contains name && !hasType name data
    let required := ((Dict.get? schema "required".toList).bind Json.texts?).getD []
    (if mismatch then ["out_fmt_type_mismatch".toList] else []) ++
      (data.dict?.elim [] fun fields => missingRequired fields required)

end Schema

section Validate

variable (T : CharTables) (nfkc : Str → Str) (htmlUnescape : Str → Option Str) {μ : Type} (E : Regex.Engine T.toUnicode μ)

structure ValidationResult where
  valid : Bool
  score : Number
  violations : List Str
  corpusHash : Str
  corpusVersion : Str
  verdict : Verdict
  redacted : Option Str := none
  details : Dict Str Detail := []
  thresholdBlock : Number := .finite (7 / 10)
  thresholdWarn : Number := .finite (4 / 10)

-- The violations so far and the highest weight among them.
abbrev Tally := List Str × Number

def addMatches (tally : Tally) (found : List (Rule × μ)) : Tally :=
  found.foldl (fun tally m => (tally.1 ++ [m.1.id], tally.2.max m.1.weight)) tally

def decodedMark (violation : Str) : Str := violation ++ "[decoded]".toList

def addDecodedMatches (tally : Tally) (found : List (Rule × μ)) : Tally :=
  found.foldl (fun tally m =>
    if m.1.id ∈ tally.1 then tally else (tally.1 ++ [decodedMark m.1.id], tally.2.max m.1.weight)) tally

def addDecodedPii (tally : Tally) (violations : List Str) : Tally :=
  violations.foldl (fun tally v =>
    if v ∈ tally.1 ∨ decodedMark v ∈ tally.1 then tally else (tally.1 ++ [decodedMark v], tally.2)) tally

def addNew (violations new : List Str) : List Str :=
  new.foldl (fun violations v => if v ∈ violations then violations else violations ++ [v]) violations

def ruleTally (engine : RuleEngine) (output : Str) (violations : List Str) : Tally :=
  let marked := neutralizeCommentMarkers output
  let found := evaluate E engine (normalize T nfkc output) ++
    if marked = output then [] else evaluate E engine (normalize T nfkc marked)
  addMatches (violations, .finite 0) found

def decodedTally (engine : RuleEngine) (tally : Tally) (decodedTexts : List Str) : Tally :=
  decodedTexts.foldl (fun tally decoded =>
    addDecodedPii (addDecodedMatches tally (evaluate E engine (normalize T nfkc decoded))) (detectPii T decoded).2) tally

def piiViolations (output : Str) (violations : List Str) : List Str :=
  let normalized := normalize T nfkc output
  let violations := addNew violations (detectPii T output).2
  if normalized = output then violations else addNew violations (detectPii T normalized).2

def weighPrompt (promptScore : Option Number) (tally : Tally) : Tally :=
  if promptScore.any fun score => (Number.finite (4 / 10)).le score then
    (tally.1, (Number.finite 1).min (tally.2.scale (13 / 10)))
  else tally

def budgetExhausted : Str := "decode_budget_exhausted".toList

def weighExhausted (config : Config) (exhausted : Bool) (tally : Tally) : Tally :=
  if exhausted then (addNew tally.1 [budgetExhausted], tally.2.max config.thresholdWarn) else tally

def unvalidated (config : Config) (corpus : Corpus) : ValidationResult where
  valid := false
  score := .finite 1
  violations := [failClosedNoRules]
  corpusHash := corpus.corpusHash
  corpusVersion := config.corpusVersion
  verdict := .block
  details := [("error".toList, .text noRulesError)]

def outputTally (config : Config) (engine : RuleEngine) (output : Str) (schemaViolations decodedTexts : List Str)
    (exhausted : Bool) (promptScore : Option Number) : Tally :=
  let tally := decodedTally T nfkc E engine (ruleTally T nfkc E engine output schemaViolations) decodedTexts
  weighExhausted config exhausted (weighPrompt promptScore (piiViolations T nfkc output tally.1, tally.2))

def judgedOutput (config : Config) (corpus : Corpus) (output : Str) (exhausted : Bool) (tally : Tally) : ValidationResult :=
  let violations := firstOf id [] tally.1
  let score := tally.2.roundTo 6
  let valid := score.lt config.thresholdBlock && violations = []
  let redacted := handedBack T nfkc output
  { valid := valid
    score := score.roundTo 6
    violations := violations
    corpusHash := corpus.corpusHash
    corpusVersion := config.corpusVersion
    verdict := verdictOf (!valid) (score.roundTo 6) config.thresholdBlock config.thresholdWarn
    redacted := if redacted = output then none else some redacted
    details := if exhausted then [(budgetExhausted, .flag true)] else []
    thresholdBlock := config.thresholdBlock
    thresholdWarn := config.thresholdWarn }

def schemaViolations (config : Config) (output : Str) : Option (Dict Str Json) → Option (List Str)
  | none => some []
  | some schema => (checkSchemaSize config schema).map fun _ => checkSchema output schema

-- None where an exception leaves the call: the schema is too large, or a decoder raises.
def validate (config : Config) (corpus : Corpus) (loadedSchemas : Dict Str (Dict Str Json)) (output : Str)
    (schema : Option (Dict Str Json)) (schemaName : Option Str) (promptScore : Option Number) :
    Option ValidationResult :=
  if config.failClosed && corpus.rulesLoaded = 0 then some (unvalidated config corpus)
  else do
    let violations ← schemaViolations config output (schema.or (schemaName.bind (Dict.get? loadedSchemas)))
    let (decodedTexts, exhausted) ← decodeCandidates T htmlUnescape output (some maxDecodeBytes)
    return judgedOutput T nfkc config corpus output exhausted
      (outputTally T nfkc E config corpus.engine output violations decodedTexts exhausted promptScore)

end Validate

end PicoSentry.Watch.OutputGuard
