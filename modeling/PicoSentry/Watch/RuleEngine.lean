import PicoSentry.Foundation.Dict
import PicoSentry.Foundation.Number
import PicoSentry.Watch.PrefilterSound

namespace PicoSentry.Watch.Rules

open Foundation Regex

structure Rule where
  id : Str
  category : Str
  weight : Number := .finite (1 / 2)
  pattern : Option Seq
  description : Str := []

inductive LoadError where
  | unknownKeys (keys : List Str) (file : Str)
  | invalidRule (file : Str)
  | yamlParse (file : Str)
  | unreadable (file : Str)
  | duplicateId (id : Str)
  | regexCompile (id : Str)

structure RuleEngine where
  rules : List Rule := []
  compiled : Dict Str Seq := []
  prefilter : Dict Str (List Branch) := []
  loadErrors : List LoadError := []

section Load

variable (U : Unicode)

def sortById (rules : List Rule) : List Rule := rules.insertionSort fun r s => r.id ≤ s.id

def firstDefinitions : List Str → List Rule → List Rule
  | _, [] => []
  | seen, rule :: rules =>
    if rule.id ∈ seen then firstDefinitions seen rules
    else rule :: firstDefinitions (rule.id :: seen) rules

def duplicateIds : List Str → List Rule → List Str
  | _, [] => []
  | seen, rule :: rules =>
    if rule.id ∈ seen then rule.id :: duplicateIds seen rules
    else duplicateIds (rule.id :: seen) rules

def compileRule (engine : RuleEngine) (rule : Rule) : RuleEngine :=
  match rule.pattern with
  | some parsed =>
    { engine with
      compiled := Dict.set engine.compiled rule.id parsed
      prefilter := Dict.set engine.prefilter rule.id (extractRequiredLiterals U parsed) }
  | none => { engine with loadErrors := engine.loadErrors ++ [.regexCompile rule.id] }

def keptRules (raw : List Rule) (allowedCategories : Option (List Str)) : List Rule :=
  (firstDefinitions [] (sortById raw)).filter fun rule =>
    allowedCategories.all fun allowed => decide (rule.category ∈ allowed)

def loadRules (raw : List Rule) (allowedCategories : Option (List Str)) : RuleEngine :=
  let rules := keptRules raw allowedCategories
  rules.foldl (compileRule U)
    { rules := rules, loadErrors := (duplicateIds [] (sortById raw)).map .duplicateId }

end Load

section Evaluate

variable {U : Unicode} {μ : Type} (E : Engine U μ)

def present (lowered alt : Str) : Bool := decide (alt <:+: lowered)

def passes (branches : List Branch) (lowered : Str) : Bool :=
  branches.isEmpty || branches.any fun branch => branch.all fun group => group.any (present lowered)

def evaluate (engine : RuleEngine) (text : Str) : List (Rule × μ) :=
  let lowered := U.lowerStr text
  engine.rules.filterMap fun rule => do
    let compiled ← Dict.get? engine.compiled rule.id
    let branches := (Dict.get? engine.prefilter rule.id).getD []
    if passes branches lowered then (E.search compiled text).map fun m => (rule, m) else none

def searchEvery (rules : List Rule) (text : Str) : List (Rule × μ) :=
  rules.filterMap fun rule => do
    let compiled ← rule.pattern
    (E.search compiled text).map fun m => (rule, m)

end Evaluate

section Loaded

variable {U : Unicode}

theorem nodup_firstDefinitions (seen : List Str) (rules : List Rule) :
    ((firstDefinitions seen rules).map Rule.id).Nodup ∧
      ∀ rule ∈ firstDefinitions seen rules, rule.id ∉ seen := by
  induction rules generalizing seen with
  | nil => simp [firstDefinitions]
  | cons rule rules ih =>
    rw [firstDefinitions]
    split
    · exact ih seen
    · next hnew =>
      obtain ⟨hnodup,hfresh⟩ := ih (rule.id :: seen)
      refine ⟨?_, ?_⟩
      · rw [List.map_cons, List.nodup_cons]
        refine ⟨?_, hnodup⟩
        intro hmem
        obtain ⟨other,ho,he⟩ := List.mem_map.mp hmem
        exact hfresh other ho (by simp [he])
      · intro other ho
        rcases List.mem_cons.mp ho with rfl | ho
        · exact hnew
        · exact fun hmem => hfresh other ho (List.mem_cons_of_mem _ hmem)

theorem compileRule_frame (engine : RuleEngine) (rule : Rule) {key : Str} (h : rule.id ≠ key) :
    Dict.get? (compileRule U engine rule).compiled key = Dict.get? engine.compiled key ∧
      Dict.get? (compileRule U engine rule).prefilter key = Dict.get? engine.prefilter key := by
  rw [compileRule]
  split
  · simp [Dict.get?_set, h]
  · simp

theorem foldl_compileRule_frame (rules : List Rule) (engine : RuleEngine) {key : Str}
    (h : ∀ rule ∈ rules, rule.id ≠ key) :
    Dict.get? (rules.foldl (compileRule U) engine).compiled key =
        Dict.get? engine.compiled key ∧
      Dict.get? (rules.foldl (compileRule U) engine).prefilter key =
        Dict.get? engine.prefilter key := by
  induction rules generalizing engine with
  | nil => simp
  | cons rule rules ih =>
    obtain ⟨hc,hp⟩ := ih (compileRule U engine rule) fun r hr => h r (List.mem_cons_of_mem _ hr)
    obtain ⟨hc',hp'⟩ := compileRule_frame (U := U) engine rule (h rule List.mem_cons_self)
    exact ⟨hc.trans hc', hp.trans hp'⟩

theorem foldl_compileRule_get {rules : List Rule} (hnodup : (rules.map Rule.id).Nodup)
    (engine : RuleEngine) {rule : Rule} (hrule : rule ∈ rules)
    (hc : Dict.get? engine.compiled rule.id = none)
    (hp : Dict.get? engine.prefilter rule.id = none) :
    Dict.get? (rules.foldl (compileRule U) engine).compiled rule.id = rule.pattern ∧
      Dict.get? (rules.foldl (compileRule U) engine).prefilter rule.id =
        rule.pattern.map (extractRequiredLiterals U) := by
  induction rules generalizing engine with
  | nil => cases hrule
  | cons head rules ih =>
    rw [List.map_cons, List.nodup_cons] at hnodup
    rw [List.foldl_cons]
    rcases List.mem_cons.mp hrule with rfl | hmem
    · have hother : ∀ r ∈ rules, r.id ≠ rule.id :=
        fun r hr he => hnodup.1 (List.mem_map.mpr ⟨r, hr, he⟩)
      obtain ⟨hc',hp'⟩ := foldl_compileRule_frame rules (compileRule U engine rule) hother
      rw [hc', hp', compileRule]
      cases hpat : rule.pattern with
      | none => simp [hc, hp]
      | some parsed => simp
    · have hne : head.id ≠ rule.id :=
        fun he => hnodup.1 (List.mem_map.mpr ⟨rule, hmem, he.symm⟩)
      obtain ⟨hc',hp'⟩ := compileRule_frame (U := U) engine head hne
      exact ih hnodup.2 _ hmem (hc'.trans hc) (hp'.trans hp)

theorem rules_foldl_compileRule (rules : List Rule) (engine : RuleEngine) :
    (rules.foldl (compileRule U) engine).rules = engine.rules := by
  induction rules generalizing engine with
  | nil => rfl
  | cons rule rules ih =>
    rw [List.foldl_cons, ih, compileRule]
    split
    · rfl
    · rfl

theorem rules_loadRules (raw : List Rule) (allowedCategories : Option (List Str)) :
    (loadRules U raw allowedCategories).rules = keptRules raw allowedCategories :=
  rules_foldl_compileRule _ _

theorem loadRules_get {raw : List Rule} {allowedCategories : Option (List Str)} {rule : Rule}
    (hrule : rule ∈ keptRules raw allowedCategories) :
    Dict.get? (loadRules U raw allowedCategories).compiled rule.id = rule.pattern ∧
      Dict.get? (loadRules U raw allowedCategories).prefilter rule.id =
        rule.pattern.map (extractRequiredLiterals U) := by
  have hnodup : ((keptRules raw allowedCategories).map Rule.id).Nodup :=
    (nodup_firstDefinitions [] (sortById raw)).1.sublist (List.filter_sublist.map _)
  exact foldl_compileRule_get hnodup _ hrule rfl rfl

theorem mem_of_mem_keptRules {raw : List Rule} {allowedCategories : Option (List Str)}
    {rule : Rule} (hrule : rule ∈ keptRules raw allowedCategories) : rule ∈ raw := by
  have hfirst : ∀ (seen : List Str) (rules : List Rule),
      (firstDefinitions seen rules).Sublist rules := by
    intro seen rules
    induction rules generalizing seen with
    | nil => exact .slnil
    | cons r rules ih =>
      rw [firstDefinitions]
      split
      · exact (ih seen).cons r
      · exact (ih _).cons_cons r
  have hsorted := (hfirst [] (sortById raw)).subset (List.mem_filter.mp hrule).1
  exact (List.mem_insertionSort _).mp hsorted

end Loaded

section Exact

variable {U : Unicode} {μ : Type} (E : Engine U μ)

theorem evaluate_loadRules (raw : List Rule) (allowedCategories : Option (List Str))
    (text : Str) :
    evaluate E (loadRules U raw allowedCategories) text =
      (keptRules raw allowedCategories).filterMap fun rule =>
        rule.pattern.bind fun compiled =>
          if passes (extractRequiredLiterals U compiled) (U.lowerStr text) then
            (E.search compiled text).map fun m => (rule, m)
          else none := by
  rw [evaluate, rules_loadRules]
  refine List.filterMap_congr fun rule hrule => ?_
  obtain ⟨hc,hp⟩ := loadRules_get (U := U) hrule
  rw [hc, hp]
  cases rule.pattern with
  | none => rfl
  | some parsed => rfl

theorem passes_iff (branches : List Branch) (lowered : Str) :
    passes branches lowered = true ↔ branches = [] ∨ Realized lowered branches := by
  simp [passes, Realized, Satisfied, present]

theorem passes_of_found {parsed : Seq} {text : Str} (h : (E.search parsed text).isSome)
    (hl : Sound U text (leaves parsed)) :
    passes (extractRequiredLiterals U parsed) (U.lowerStr text) = true := by
  rw [passes_iff]
  by_cases hne : extractRequiredLiterals U parsed = []
  · exact .inl hne
  · exact .inr (extractRequiredLiterals_realized parsed (E.sound parsed text h) hl hne)

theorem evaluate_eq_searchEvery {raw : List Rule} {text : Str}
    (hl : ∀ rule ∈ raw, ∀ parsed, rule.pattern = some parsed → Sound U text (leaves parsed))
    (allowedCategories : Option (List Str)) :
    evaluate E (loadRules U raw allowedCategories) text =
      searchEvery E (keptRules raw allowedCategories) text := by
  rw [evaluate_loadRules, searchEvery]
  refine List.filterMap_congr fun rule hrule => ?_
  cases hpat : rule.pattern with
  | none => rfl
  | some parsed =>
    simp only [Option.bind_eq_bind, Option.bind_some]
    cases hs : E.search parsed text with
    | none => simp
    | some m =>
      have hfound : (E.search parsed text).isSome := by rw [hs]; rfl
      rw [if_pos (passes_of_found E hfound (hl rule (mem_of_mem_keptRules hrule) parsed hpat))]

end Exact

section Necessary

variable {U : Unicode}

variable {μ : Type} (E : Engine U μ)

theorem pattern_found {leaf : Leaf} {text : Str} (h : leaf.Occurs U text) :
    (E.search leaf.pattern text).isSome := by
  cases leaf with
  | run s =>
    obtain ⟨w,hw,hrun⟩ := h
    exact E.literals_found s text w hw hrun
  | chars cs => exact E.chars_found cs text h

def ruleOf (parsed : Seq) : Rule := { id := [], category := [], pattern := some parsed }

theorem passes_of_exact {parsed : Seq} {text : Str}
    (h : evaluate E (loadRules U [ruleOf parsed] none) text =
      searchEvery E (keptRules [ruleOf parsed] none) text)
    (hfound : (E.search parsed text).isSome) :
    passes (extractRequiredLiterals U parsed) (U.lowerStr text) = true := by
  by_contra hpass
  obtain ⟨m,hm⟩ := Option.isSome_iff_exists.mp hfound
  have hkept : keptRules [ruleOf parsed] none = [ruleOf parsed] := rfl
  rw [evaluate_loadRules, hkept] at h
  simp [searchEvery, ruleOf, hpass, hm] at h

theorem evaluate_exact_iff (U : Unicode) {μ : Type} (E : Engine U μ) (parts : Set Leaf)
    (text : Str) :
    (∀ raw allowedCategories,
      (∀ rule ∈ raw, ∀ parsed, rule.pattern = some parsed →
        ∀ leaf ∈ leaves parsed, leaf ∈ parts) →
      evaluate E (loadRules U raw allowedCategories) text =
        searchEvery E (keptRules raw allowedCategories) text) ↔
      ∀ leaf ∈ parts, leaf.Usable → leaf.Occurs U text → leaf.Signalled U text := by
  constructor
  · intro hexact leaf hleaf husable hoccurs
    have hparts : ∀ rule ∈ [ruleOf leaf.pattern], ∀ parsed, rule.pattern = some parsed →
        ∀ l ∈ leaves parsed, l ∈ parts := by
      rintro rule hrule parsed hpat l hl
      rw [List.mem_singleton.mp hrule] at hpat
      cases hpat
      rw [leaves_pattern husable] at hl
      rw [List.mem_singleton.mp hl]
      exact hleaf
    have hpasses := passes_of_exact E (hexact _ none hparts) (pattern_found E hoccurs)
    rw [extractRequiredLiterals_pattern husable, passes_iff] at hpasses
    rcases hpasses with hnil | hreal
    · cases hnil
    · exact (signalled_iff leaf text).mpr hreal
  · intro hleaf raw allowedCategories hraw
    apply evaluate_eq_searchEvery
    intro rule hrule parsed hpat leaf hmem
    exact hleaf leaf (hraw rule hrule parsed hpat leaf hmem) (usable_leavesFrom parsed hmem)

end Necessary

section CharEngine

variable (U : Unicode)

def charTests : Seq → Option (List (Char → Bool))
  | .nil => some []
  | .cons (.literal c) seq => (charTests seq).map (U.sameIgnoringCase c :: ·)
  | .cons (.inSet items) seq => do
      let chars ← explicitChars items
      let tests ← charTests seq
      return (fun x => chars.any fun c => U.sameIgnoringCase c x) :: tests
  | .cons _ _ => none

def startsWith : List (Char → Bool) → Str → Bool
  | [], _ => true
  | _ :: _, [] => false
  | test :: tests, x :: text => test x && startsWith tests text

def findFrom (tests : List (Char → Bool)) : Str → Option Nat
  | [] => if startsWith tests [] then some 0 else none
  | x :: text =>
    if startsWith tests (x :: text) then some 0 else (findFrom tests text).map (· + 1)

theorem findFrom_isSome_iff (tests : List (Char → Bool)) (text : Str) :
    (findFrom tests text).isSome = true ↔ ∃ v, v <:+ text ∧ startsWith tests v = true := by
  induction text with
  | nil =>
    simp only [findFrom, List.suffix_nil, exists_eq_left]
    split
    · next h => simp [h]
    · next h => simp [h]
  | cons x text ih =>
    simp only [findFrom, List.suffix_cons_iff]
    split
    · next h => exact ⟨fun _ => ⟨_, .inl rfl, h⟩, fun _ => rfl⟩
    · next h =>
      rw [Option.isSome_map, ih]
      constructor
      · rintro ⟨v,hv,hs⟩
        exact ⟨v, .inr hv, hs⟩
      · rintro ⟨v,rfl | hv,hs⟩
        · exact absurd hs h
        · exact ⟨v, hv, hs⟩

theorem matches_of_startsWith (seq : Seq) {tests : List (Char → Bool)}
    (h : charTests U seq = some tests) {text : Str} (hs : startsWith tests text = true) :
    ∃ w, w <+: text ∧ seq.Matches U w := by
  have hstep : ∀ {node : Node} {rest : Seq} {test : Char → Bool} {tests' : List (Char → Bool)},
      tests = test :: tests' →
      (∀ {t : Str}, startsWith tests' t = true → ∃ w, w <+: t ∧ rest.Matches U w) →
      (∀ x, test x = true → node.Matches U [x]) →
      ∃ w, w <+: text ∧ (Seq.cons node rest).Matches U w := by
    rintro node rest test tests' rfl hrest htest
    cases text with
    | nil => cases hs
    | cons x text =>
      rw [startsWith, Bool.and_eq_true] at hs
      obtain ⟨w,hw,hm⟩ := hrest hs.2
      refine ⟨x :: w, (List.cons_prefix_cons).mpr ⟨rfl, hw⟩, ?_⟩
      rw [Seq.Matches]
      exact ⟨[x], w, rfl, htest x hs.1, hm⟩
  cases seq with
  | nil =>
    refine ⟨[], List.nil_prefix, ?_⟩
    rw [Seq.Matches]
  | cons node seq =>
    cases node with
    | literal c =>
      rw [charTests, Option.map_eq_some_iff] at h
      obtain ⟨tests',hrest,he⟩ := h
      refine hstep he.symm (fun ht => matches_of_startsWith seq hrest ht) fun x hx => ?_
      rw [Node.Matches]
      exact ⟨x, rfl, hx⟩
    | inSet items =>
      rw [charTests] at h
      simp only [Option.bind_eq_bind, Option.bind_eq_some_iff] at h
      obtain ⟨chars,hchars,tests',hrest,he⟩ := h
      refine hstep (Option.some.inj he).symm (fun ht => matches_of_startsWith seq hrest ht)
        fun x hx => ?_
      rw [Node.Matches]
      refine ⟨x, rfl, fun chars' hchars' => ?_⟩
      rw [hchars] at hchars'
      cases hchars'
      exact List.any_eq_true.mp hx
    | branch alts => cases h
    | repeated greedy least most body => cases h
    | subpattern group addFlags delFlags body => cases h
    | other op args => cases h
termination_by structural seq

theorem charTests_literals (run : Str) :
    charTests U (literals run) = some (run.map U.sameIgnoringCase) := by
  induction run with
  | nil => rfl
  | cons c run ih => rw [literals, charTests, ih, Option.map_some, List.map_cons]

theorem startsWith_literals {run w : Str} (h : runMatches U run w) (rest : Str) :
    startsWith (run.map U.sameIgnoringCase) (w ++ rest) = true := by
  induction h with
  | nil => rfl
  | cons hc _ ih =>
    rw [List.map_cons, List.cons_append, startsWith, hc, ih]
    rfl

def charSearch (seq : Seq) (text : Str) : Option Nat :=
  (charTests U seq).bind fun tests => findFrom tests text

theorem charSearch_sound (seq : Seq) (text : Str) (h : (charSearch U seq text).isSome) :
    MatchesIn U seq text := by
  cases ht : charTests U seq with
  | none => simp [charSearch, ht] at h
  | some tests =>
    rw [charSearch, ht, Option.bind_some, findFrom_isSome_iff] at h
    obtain ⟨v,hv,hs⟩ := h
    obtain ⟨w,hw,hm⟩ := matches_of_startsWith U seq ht hs
    exact ⟨w, hw.isInfix.trans hv.isInfix, hm⟩

theorem charSearch_literals (run text w : Str) (hw : w <:+: text) (hrun : runMatches U run w) :
    (charSearch U (literals run) text).isSome := by
  obtain ⟨a,b,rfl⟩ := hw
  rw [charSearch, charTests_literals, Option.bind_some, findFrom_isSome_iff]
  refine ⟨w ++ b, ?_, startsWith_literals U hrun b⟩
  rw [List.append_assoc]
  exact List.suffix_append _ _

theorem charSearch_chars (chars : List Char) (text : Str)
    (h : ∃ c ∈ chars, ∃ x ∈ text, U.sameIgnoringCase c x = true) :
    (charSearch U (single (.inSet (chars.map .literal))) text).isSome := by
  obtain ⟨c,hc,x,hx,hsame⟩ := h
  obtain ⟨a,b,rfl⟩ := List.append_of_mem hx
  have htests : charTests U (single (.inSet (chars.map .literal))) =
      some [fun x => chars.any fun c => U.sameIgnoringCase c x] := by
    rw [single, charTests, explicitChars_literals]
    rfl
  rw [charSearch, htests, Option.bind_some, findFrom_isSome_iff]
  refine ⟨x :: b, List.suffix_append _ _, ?_⟩
  rw [startsWith, startsWith, Bool.and_true]
  exact List.any_eq_true.mpr ⟨c, hc, hsame⟩

def charEngine : Engine U Nat where
  search := charSearch U
  sound := charSearch_sound U
  literals_found := charSearch_literals U
  chars_found := charSearch_chars U

end CharEngine

section Hidden

def ignoreRule : Rule where
  id := "inj_ignore".toList
  category := "injection".toList
  pattern := some (literals "ignore".toList)

def dotlessText : Str := Unicode.dotlessI :: "gnore".toList

theorem dotless_ignore_hidden :
    (evaluate (charEngine Unicode.basic) (loadRules Unicode.basic [ignoreRule] none)
        dotlessText).length = 0 ∧
      (searchEvery (charEngine Unicode.basic) (keptRules [ignoreRule] none)
        dotlessText).length = 1 := by
  decide +kernel

end Hidden

end PicoSentry.Watch.Rules
