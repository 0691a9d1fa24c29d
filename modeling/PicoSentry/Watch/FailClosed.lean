import PicoSentry.Watch.OutputGuard
import PicoSentry.Watch.RedactionComplete

namespace PicoSentry.Watch.OutputGuard

open Foundation Normalizer Rules PromptGuard

section Uncompiled

variable {T : CharTables} {nfkc : Str → Str} {htmlUnescape : Str → Option Str} {μ : Type}
  {E : Regex.Engine T.toUnicode μ} {corpus : Corpus} {config : Config}

def NoneCompiled (corpus : Corpus) : Prop :=
  ∀ rule ∈ corpus.engine.rules, Dict.get? corpus.engine.compiled rule.id = none

def Ruleless (U : Unicode) (P : Parsers) (dir : Option (List RuleFile)) : Prop :=
  ∀ files, dir = some files → ∀ file ∈ yamlFiles files, fileRules U P file = []

theorem rulesLoaded_eq_zero_iff {U : Unicode} {P : Parsers} {sha256 : Str → Str} {dir : Option (List RuleFile)} :
    (loadCorpus U P sha256 dir none).rulesLoaded = 0 ↔ Ruleless U P dir := by
  cases dir with
  | none => exact iff_of_true rfl (fun _ h => by cases h)
  | some files =>
    have hrules : (loadCorpus U P sha256 (some files) none).engine.rules = keptRules (gather U P files).rules none :=
      rules_loadRules _ _
    rw [Corpus.rulesLoaded, List.length_eq_zero_iff, hrules, keptRules_eq_nil_iff, rules_gather, List.flatMap_eq_nil_iff]
    constructor
    · rintro h _ ⟨⟩
      exact h
    · exact fun h => h files rfl

theorem evaluate_uncompiled (h : NoneCompiled corpus) (text : Str) : evaluate E corpus.engine text = [] := by
  refine List.filterMap_eq_nil_iff.mpr fun rule hrule => ?_
  rw [h rule hrule]
  rfl

theorem placeholders_nil : placeholders T [] = [] := by
  simp [placeholders, digitDotDigitAt]

theorem normalize_nil (h : nfkc [] = []) : normalize T nfkc [] = [] := by
  have hcollapse : collapseSeparatorPunctuation T [] = [] := by
    rw [collapseSeparatorPunctuation, placeholders_nil]
    rfl
  have hcomments : stripComments [] = [] := by
    simp [stripComments, stripDelimited, sub, subFrom]
  have hblanks : fusedWhitespace T [] = [] := by
    simp [fusedWhitespace, replaceStr, sub, subFrom, Unicode.strip]
  rw [Normalizer.normalize, h, show collapseSpacedText T [] = [] from rfl, hcollapse, hblanks, hcomments]
  rfl

theorem decodePass_nil : decodePass T htmlUnescape [] = some [] := by
  have hwords : ∀ word ∈ rot13GateWords, word ≠ [] := by decide
  have hphrases : ∀ words ∈ rot13GatePhrases, ∃ word ∈ words, word ≠ [] := by decide
  have hgate : rot13GateHits T [] = false := by
    rw [rot13GateHits, Bool.or_eq_false_iff, List.any_eq_false, List.any_eq_false]
    refine ⟨fun word hword => ?_, fun words hmem => ?_⟩
    · simpa [Unicode.lowerStr, Unicode.lowerFrom] using hwords word hword
    · obtain ⟨word,hword,hne⟩ := hphrases words hmem
      have hall : (words.all fun word => decide (word <:+: T.lowerStr [])) = false :=
        List.all_eq_false.mpr ⟨word, hword, by simpa [Unicode.lowerStr, Unicode.lowerFrom] using hne⟩
      simp [hall]
  rw [decodePass, hgate]
  rfl

theorem decodeCandidates_nil : decodeCandidates T htmlUnescape [] (some maxDecodeBytes) = some ([], false) :=
  LayeredSearch.search_leaf _ _ decodePass_nil _ _

theorem violations_nil : (detectPii T []).2 = [] := by
  rw [violations_eq_nil_iff]
  intro d _
  rw [finditer, findAll]

theorem found_uncompiled (h : NoneCompiled corpus) {text : Str} {s : Scan μ}
    (hscan : scan T nfkc htmlUnescape E corpus.engine text = some s) : s.found = [] := by
  simp only [scan, Option.bind_eq_bind, Option.bind_eq_some_iff] at hscan
  obtain ⟨decoded,_,hs⟩ := hscan
  rw [← Option.some.inj hs]
  have hmarker : (markerVariant T nfkc text).elim [] (evaluate E corpus.engine) = [] := by
    cases markerVariant T nfkc text with
    | none => rfl
    | some candidate => exact evaluate_uncompiled h candidate
  have hnil : ∀ texts : List Str, texts.flatMap (fun _ => ([] : List (Rule × μ))) = [] := by simp
  simp [evaluate_uncompiled h, hmarker, hnil, firstOf]

theorem scan_nil (hnfkc : nfkc [] = []) (h : NoneCompiled corpus) :
    scan T nfkc htmlUnescape E corpus.engine [] = some ⟨[], none, [], false, []⟩ := by
  have hdecoded : decodedVariants T nfkc htmlUnescape [] = some ([], false) := by
    rw [decodedVariants, decodeCandidates_nil, normalize_nil hnfkc]
    rfl
  have hmarker : markerVariant T nfkc [] = none := by
    have hneutral : neutralizeCommentMarkers [] = [] := by
      simp [neutralizeCommentMarkers, replaceStr, sub, subFrom]
    rw [markerVariant, hneutral]
    exact if_neg fun hne => hne.1 rfl
  rw [scan, hdecoded, hmarker, normalize_nil hnfkc]
  simp [evaluate_uncompiled h, hasZeroWidth, firstOf]

theorem blocked_judged_nil (config : Config) (corpus : Corpus) (context : Dict Str Json) :
    (judged T config corpus (⟨[], none, [], false, []⟩ : Scan μ) context).blocked = config.thresholdBlock.le (.finite 0) := by
  have hclassified : ∀ b, (if b = true then classifyAll T (⟨[], none, [], false, []⟩ : Scan μ) else (0, [])) = (0, []) := by
    intro b
    cases b <;> rfl
  have hblend : blend config.blendFactor (.finite 0) 0 = .finite 0 := by
    have hmax : (Number.finite 0).max (.finite (0 * config.blendFactor.value)) = .finite 0 := by
      rw [zero_mul]
      exact if_neg (by simp [Number.lt])
    have hmin : (Number.finite 0).min (.finite 1) = .finite 0 := if_neg (by simp [Number.lt])
    rw [blend, hmax, hmin]
    simp [Number.roundTo, Number.roundHalfEven]
  rw [judged]
  dsimp only
  rw [hclassified, show score ([] : List (Rule × μ)) = (.finite 0, []) from rfl, hblend]

theorem blocked_judged (h : NoneCompiled corpus) (hblock : config.thresholdBlock.le (.finite 0) = true) {text : Str}
    {s : Scan μ} (hscan : scan T nfkc htmlUnescape E corpus.engine text = some s) (context : Dict Str Json) :
    (judged T config corpus s context).blocked = true := by
  have hscore : (score s.found).1 = .finite 0 := by
    rw [found_uncompiled h hscan]
    rfl
  have hnonneg : (score s.found).1.Nonneg := hscore ▸ Number.nonneg_finite.mpr le_rfl
  exact (blend_nonneg _ hnonneg _).le_of_le hblock

end Uncompiled

section Check

variable {T : CharTables} {nfkc : Str → Str} {htmlUnescape : Str → Option Str} {μ : Type}
  {E : Regex.Engine T.toUnicode μ} {corpus : Corpus} {config : Config}

theorem check_blocks_iff (hnfkc : nfkc [] = []) (hclosed : config.failClosed = true) (hnone : NoneCompiled corpus) :
    (∀ text context, ∃ r, check T nfkc htmlUnescape E config corpus text context = some r ∧ r.blocked = true) ↔
      corpus.rulesLoaded = 0 ∨ config.thresholdBlock.le (.finite 0) = true ∨ config.maxPromptSize < 0 := by
  constructor
  · intro hblocks
    by_contra hnot
    obtain ⟨hrules,hnot⟩ := not_or.mp hnot
    obtain ⟨hblock,hsize⟩ := not_or.mp hnot
    obtain ⟨r,hr,hblocked⟩ := hblocks [] []
    rw [check, if_neg (by simp [hrules]), if_neg (by simpa [utf8Length] using hsize), scan_nil hnfkc hnone] at hr
    rw [← Option.some.inj hr, blocked_judged_nil] at hblocked
    exact hblock hblocked
  · intro hcondition text context
    rw [check]
    split
    · exact ⟨_, rfl, rfl⟩
    · next hgate =>
      split
      · exact ⟨_, rfl, rfl⟩
      · next hsize =>
        have hblock : config.thresholdBlock.le (.finite 0) = true := by
          rcases hcondition with hrules | hblock | hneg
          · simp [hclosed, hrules] at hgate
          · exact hblock
          · omega
        cases hscan : scan T nfkc htmlUnescape E corpus.engine text with
        | none => exact ⟨_, rfl, rfl⟩
        | some s => exact ⟨_, rfl, blocked_judged hnone hblock hscan context⟩

end Check

section Validate

variable {T : CharTables} {nfkc : Str → Str} {htmlUnescape : Str → Option Str} {μ : Type}
  {E : Regex.Engine T.toUnicode μ} {corpus : Corpus} {config : Config}

theorem ruleTally_uncompiled (h : NoneCompiled corpus) (output : Str) (violations : List Str) :
    ruleTally T nfkc E corpus.engine output violations = (violations, .finite 0) := by
  simp [ruleTally, evaluate_uncompiled h, addMatches]

theorem addDecodedPii_snd (tally : Tally) (violations : List Str) : (addDecodedPii tally violations).2 = tally.2 := by
  induction violations generalizing tally with
  | nil => rfl
  | cons v violations ih =>
    refine (ih _).trans ?_
    dsimp only
    split
    · rfl
    · rfl

theorem decodedTally_snd (h : NoneCompiled corpus) (tally : Tally) (texts : List Str) :
    (decodedTally T nfkc E corpus.engine tally texts).2 = tally.2 := by
  induction texts generalizing tally with
  | nil => rfl
  | cons text texts ih =>
    have hstep : decodedTally T nfkc E corpus.engine tally (text :: texts) =
        decodedTally T nfkc E corpus.engine (addDecodedPii tally (detectPii T text).2) texts := by
      rw [decodedTally, List.foldl_cons, evaluate_uncompiled h, decodedTally]
      rfl
    rw [hstep, ih, addDecodedPii_snd]

theorem weighPrompt_nonneg {promptScore : Option Number} {tally : Tally} (h : tally.2 = .finite 0) :
    (weighPrompt promptScore tally).2.Nonneg := by
  rw [weighPrompt]
  split
  · rw [h]
    exact (Number.nonneg_finite.mpr zero_le_one).min (Number.nonneg_finite.mpr (by simp))
  · rw [h]
    exact Number.nonneg_finite.mpr le_rfl

theorem weighExhausted_nonneg {exhausted : Bool} {tally : Tally} (h : tally.2.Nonneg) :
    (weighExhausted config exhausted tally).2.Nonneg := by
  rw [weighExhausted]
  split
  · exact h.max _
  · exact h

theorem outputTally_nonneg (h : NoneCompiled corpus) (output : Str) (violations decodedTexts : List Str) (exhausted : Bool)
    (promptScore : Option Number) :
    (outputTally T nfkc E config corpus.engine output violations decodedTexts exhausted promptScore).2.Nonneg := by
  rw [outputTally]
  refine weighExhausted_nonneg (weighPrompt_nonneg ?_)
  dsimp only
  rw [decodedTally_snd h, ruleTally_uncompiled h]

theorem valid_eq_false (hblock : (Number.finite 0).lt config.thresholdBlock = false) {output : Str} {exhausted : Bool}
    {tally : Tally} (h : tally.2.Nonneg) : (judgedOutput T nfkc config corpus output exhausted tally).valid = false := by
  rw [judgedOutput]
  dsimp only
  rw [(h.roundTo 6).not_lt hblock, Bool.false_and]

theorem validate_nil (hnfkc : nfkc [] = []) (hnone : NoneCompiled corpus) (hrules : corpus.rulesLoaded ≠ 0)
    (loadedSchemas : Dict Str (Dict Str Json)) :
    ∃ r, validate T nfkc htmlUnescape E config corpus loadedSchemas [] none none none = some r ∧
      r.valid = (Number.finite 0).lt config.thresholdBlock := by
  have hpii : piiViolations T nfkc [] [] = [] := by
    rw [piiViolations, normalize_nil hnfkc, violations_nil]
    rfl
  have htally : outputTally T nfkc E config corpus.engine [] [] [] false none = ([], .finite 0) := by
    rw [outputTally, ruleTally_uncompiled hnone]
    dsimp only [decodedTally, List.foldl_nil]
    rw [hpii]
    rfl
  have hround : (Number.finite 0).roundTo 6 = .finite 0 := by
    simp [Number.roundTo, Number.roundHalfEven]
  refine ⟨judgedOutput T nfkc config corpus [] false ([], .finite 0), ?_, ?_⟩
  · rw [validate, if_neg (by simp [hrules]), decodeCandidates_nil, ← htally]
    rfl
  · rw [judgedOutput]
    dsimp only
    rw [hround]
    exact Bool.and_true _

theorem validate_rejects_iff (hnfkc : nfkc [] = []) (hclosed : config.failClosed = true) (hnone : NoneCompiled corpus)
    (loadedSchemas : Dict Str (Dict Str Json)) :
    (∀ output schema schemaName promptScore r,
      validate T nfkc htmlUnescape E config corpus loadedSchemas output schema schemaName promptScore = some r →
        r.valid = false) ↔
      corpus.rulesLoaded = 0 ∨ (Number.finite 0).lt config.thresholdBlock = false := by
  constructor
  · intro hrejects
    by_contra hnot
    obtain ⟨hrules,hblock⟩ := not_or.mp hnot
    obtain ⟨r,hr,hvalid⟩ := validate_nil hnfkc hnone hrules loadedSchemas
    rw [hrejects _ _ _ _ r hr] at hvalid
    exact hblock hvalid.symm
  · intro hcondition output schema schemaName promptScore r hr
    rw [validate] at hr
    split at hr
    · cases hr
      rfl
    · next hgate =>
      have hblock : (Number.finite 0).lt config.thresholdBlock = false := by
        rcases hcondition with hrules | hblock
        · simp [hclosed, hrules] at hgate
        · exact hblock
      simp only [Option.bind_eq_bind, Option.bind_eq_some_iff] at hr
      obtain ⟨violations,_,⟨decoded,exhausted⟩,_,hr⟩ := hr
      rw [← Option.some.inj hr]
      exact valid_eq_false hblock (outputTally_nonneg hnone _ _ _ _ _)

end Validate

section FailClosed

theorem fail_closed_iff (T : CharTables) (nfkc : Str → Str) (htmlUnescape : Str → Option Str) {μ : Type}
    (E : Regex.Engine T.toUnicode μ) (P : Parsers) (sha256 : Str → Str) (config : Config)
    (promptDir outputDir : Option (List RuleFile)) (loadedSchemas : Dict Str (Dict Str Json))
    (hnfkc : nfkc [] = []) (hclosed : config.failClosed = true) :
    (NoneCompiled (loadCorpus T.toUnicode P sha256 promptDir none) →
      ((∀ text context, ∃ r, check T nfkc htmlUnescape E config (loadCorpus T.toUnicode P sha256 promptDir none) text context =
          some r ∧ r.blocked = true) ↔
        Ruleless T.toUnicode P promptDir ∨ config.thresholdBlock.le (.finite 0) = true ∨ config.maxPromptSize < 0)) ∧
    (NoneCompiled (loadCorpus T.toUnicode P sha256 outputDir none) →
      ((∀ output schema schemaName promptScore r,
          validate T nfkc htmlUnescape E config (loadCorpus T.toUnicode P sha256 outputDir none) loadedSchemas output schema
            schemaName promptScore = some r → r.valid = false) ↔
        Ruleless T.toUnicode P outputDir ∨ (Number.finite 0).lt config.thresholdBlock = false)) := by
  constructor
  · intro hnone
    rw [check_blocks_iff hnfkc hclosed hnone, rulesLoaded_eq_zero_iff]
  · intro hnone
    rw [validate_rejects_iff hnfkc hclosed hnone, rulesLoaded_eq_zero_iff]

def brokenText : Str := "- \x7bid: inj_broken, category: injection, pattern: \"(\"\x7d".toList

def brokenParsers : Parsers where
  safeLoad content :=
    if content = brokenText then
      .ok [some { id := some "inj_broken".toList, category := some "injection".toList, pattern := some ['('] }]
    else .error .other
  compile pattern := if pattern = ['('] then none else some (Regex.literals pattern)

def brokenCorpus : Corpus :=
  loadCorpus CharTables.basic.toUnicode brokenParsers id (some [⟨["broken.yaml".toList], some brokenText⟩]) none

theorem no_hits_hello : (∀ list ∈ [overrideTokens, roleTokens, extractionTokens, multiturnTokens, formatBreakout, benignMarkers],
      hits list "hello".toList = 0) ∧
    ∀ list ∈ [tokens systemWords, tokens imperativeWords, benignContextCores], anyIn list "hello".toList = false := by
  simp only [List.forall_mem_cons]
  refine ⟨⟨?_, ?_, ?_, ?_, ?_, ?_, by simp⟩, ?_, ?_, ?_, by simp⟩
  all_goals
    simp only [overrideTokens, roleTokens, extractionTokens, multiturnTokens, formatBreakout, benignMarkers, systemWords,
      imperativeWords, benignContextCores, tokens, List.map_cons, List.map_nil]
    repeat rw [String.toList_ofList]
    decide +kernel

theorem signals_hello : signals .basic "hello".toList = ⟨0, 0, 0, 0, 0, 0, 0, 0, 0, 1⟩ := by
  have hlower : CharTables.basic.lowerStr "hello".toList = "hello".toList := by decide
  obtain ⟨hhits,hwords⟩ := no_hits_hello
  simp only [List.forall_mem_cons] at hhits hwords
  obtain ⟨hoverride,hrole,hextraction,hmultiturn,hformat,hbenign,-⟩ := hhits
  obtain ⟨hsystem,himperative,hcores,-⟩ := hwords
  simp only [signals, hlower, hoverride, hrole, hextraction, hmultiturn, hformat, hbenign, hsystem, himperative, hcores,
    Bool.false_and, flag, Bool.false_eq_true, if_false]
  rfl

theorem classify_hello : (classify .basic "hello".toList []).1 = 0 := by
  rw [classify, signals_hello]
  decide +kernel

theorem check_hello :
    (check .basic id some (charEngine CharTables.basic.toUnicode) { failClosed := true } brokenCorpus "hello".toList []).map
      (·.blocked) = some false := by
  have hscan : (scan .basic id some (charEngine CharTables.basic.toUnicode) brokenCorpus.engine "hello".toList).map
      (fun s => (s.normalized, s.markerNormalized, s.decodedTexts, s.found.map (·.1.id))) =
        some ("hello".toList, none, [], []) := by
    decide +kernel
  obtain ⟨⟨normalized,marker,decoded,exhausted,found⟩,hfound,heq⟩ := Option.map_eq_some_iff.mp hscan
  simp only [Prod.mk.injEq, List.map_eq_nil_iff] at heq
  obtain ⟨rfl,rfl,rfl,rfl⟩ := heq
  have hrules : brokenCorpus.rulesLoaded = 1 := by decide +kernel
  simp only [check, hrules, hfound, judged, classifyAll, List.map_nil, Option.toList_none, List.append_nil,
    List.foldl_nil, apply_ite Prod.fst, classify_hello, ite_self]
  cases exhausted <;> decide +kernel

theorem fail_closed_broken :
    NoneCompiled brokenCorpus ∧ brokenCorpus.rulesLoaded = 1 ∧
    (check .basic id some (charEngine CharTables.basic.toUnicode) { failClosed := true } brokenCorpus "hello".toList []).map
      (·.blocked) = some false ∧
    (validate .basic id some (charEngine CharTables.basic.toUnicode) { failClosed := true } brokenCorpus [] "hello".toList none
      none none).map (·.valid) = some true := by
  refine ⟨fun rule hrule => ?_, by decide +kernel, check_hello, by decide +kernel⟩
  have hall : (brokenCorpus.engine.rules.all fun rule => (Dict.get? brokenCorpus.engine.compiled rule.id).isNone) = true := by
    decide +kernel
  exact Option.isNone_iff_eq_none.mp (List.all_eq_true.mp hall rule hrule)

theorem fail_closed_missing :
    (∀ text context, ∃ r, check .basic id some (charEngine CharTables.basic.toUnicode) { failClosed := true } {} text context =
      some r ∧ r.blocked = true) ∧
    ∀ output schema schemaName promptScore r,
      validate .basic id some (charEngine CharTables.basic.toUnicode) { failClosed := true } {} [] output schema schemaName
        promptScore = some r → r.valid = false := by
  have hiff := fail_closed_iff .basic id some (charEngine CharTables.basic.toUnicode) brokenParsers id { failClosed := true }
    none none [] rfl rfl
  have hnone : NoneCompiled {} := fun _ hrule => by cases hrule
  have hruleless : Ruleless CharTables.basic.toUnicode brokenParsers none := fun _ h => by cases h
  exact ⟨(hiff.1 hnone).mpr (.inl hruleless), (hiff.2 hnone).mpr (.inl hruleless)⟩

end FailClosed

end PicoSentry.Watch.OutputGuard
