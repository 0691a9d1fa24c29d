import PicoSentry.Scan.ImportMap

namespace PicoSentry.Scan.ImportExtraction

open Foundation AdvisoryFindings ImportMap

section Npm

variable (U : Unicode)

structure NpmPackage where
  scope : Option Str
  name : Str
  name_ne : name ≠ []
  name_plain : ∀ c ∈ name, c ≠ '/' ∧ isQuote c = false
  scope_plain : ∀ text ∈ scope, ∀ c ∈ text, isQuote c = false
  unscoped : scope = none → name.head? ≠ some '@'

def NpmPackage.text (p : NpmPackage) : Str :=
  match p.scope with
  | none => p.name
  | some scope => '@' :: (scope ++ '/' :: p.name)

inductive NpmForm where
  | requireCall
  | fromClause
  | bareImport
  deriving DecidableEq

structure NpmImport where
  form : NpmForm
  gap : Str
  gap_space : ∀ c ∈ gap, U.space c = true
  trail : Str
  trail_space : ∀ c ∈ trail, U.space c = true
  quote : Char
  quote_ok : isQuote quote = true
  package : NpmPackage
  subpath : Option Str
  subpath_plain : ∀ text ∈ subpath, ∀ c ∈ text, isQuote c = false

variable {U}

def NpmImport.specifier (i : NpmImport U) : Str :=
  match i.subpath with
  | none => i.package.text
  | some path => i.package.text ++ '/' :: path

def NpmImport.quoted (i : NpmImport U) (rest : Str) : Str := i.quote :: (i.specifier ++ i.quote :: rest)

def NpmImport.text (i : NpmImport U) (after : Str) : Str :=
  match i.form with
  | .requireCall => "require(".toList ++ (i.gap ++ i.quoted (i.trail ++ (")".toList ++ after)))
  | .fromClause => "from".toList ++ (i.gap ++ i.quoted after)
  | .bareImport => "import".toList ++ (i.gap ++ i.quoted after)

structure NpmImport.Understood (i : NpmImport U) : Prop where
  spaced : i.form = .requireCall ∨ i.gap ≠ []
  whole : i.package.scope = none ∨ i.subpath = none

structure NpmFile (U : Unicode) where
  before : Str
  statement : NpmImport U
  after : Str

def NpmFile.text (f : NpmFile U) : Str := f.before ++ f.statement.text f.after

def NpmClauseAt (U : Unicode) (text before name : Str) : Prop :=
  ∃ rest after, Reached (npmImportRe U) ([], text) (before, rest) ∧ rest ≠ [] ∧
    npmImportRe U before.getLast? rest = some (name, after)

def NpmFile.Recognized (f : NpmFile U) : Prop :=
  packageInImports U f.statement.package.text "npm".toList (extractNpmImports U f.text) = true

def NpmFile.IsReached (f : NpmFile U) : Prop :=
  Reached (npmImportRe U) ([], f.text) (f.before, f.statement.text f.after)

def NpmFile.NamedElsewhere (f : NpmFile U) : Prop :=
  ∃ before name, before ≠ f.before ∧ NpmClauseAt U f.text before name ∧
    npmName U name = U.lowerStr f.statement.package.text

theorem quote_not_space {c : Char} (h : isQuote c = true) : U.space c = false := by
  rw [isQuote, Bool.or_eq_true, decide_eq_true_iff, decide_eq_true_iff] at h
  rcases h with rfl | rfl <;> exact (U.space_ascii _ (by decide)).trans (by decide)

theorem specifier_plain (i : NpmImport U) : i.specifier ≠ [] ∧ ∀ c ∈ i.specifier, isQuote c = false := by
  have hpackage : i.package.text ≠ [] ∧ ∀ c ∈ i.package.text, isQuote c = false := by
    rw [NpmPackage.text]
    cases hscope : i.package.scope with
    | none => exact ⟨i.package.name_ne, fun c hc => (i.package.name_plain c hc).2⟩
    | some scope =>
      refine ⟨List.cons_ne_nil _ _, fun c hc => ?_⟩
      simp only [List.mem_cons, List.mem_append] at hc
      rcases hc with rfl | hc | rfl | hc
      · rfl
      · exact i.package.scope_plain scope hscope c hc
      · rfl
      · exact (i.package.name_plain c hc).2
  rw [NpmImport.specifier]
  cases hsubpath : i.subpath with
  | none => exact hpackage
  | some path =>
    refine ⟨by simp, fun c hc => ?_⟩
    simp only [List.mem_append, List.mem_cons] at hc
    rcases hc with hc | rfl | hc
    · exact hpackage.2 c hc
    · rfl
    · exact i.subpath_plain path hsubpath c hc

theorem quoted_statement (i : NpmImport U) (rest : Str) : quoted (i.quoted rest) = some (i.specifier, rest) := by
  obtain ⟨hne,hplain⟩ := specifier_plain i
  have hall : ∀ c ∈ i.specifier, (!isQuote c) = true := fun c hc => by rw [hplain c hc]; rfl
  have hquote : (!isQuote i.quote) = false := by rw [i.quote_ok]; rfl
  obtain ⟨htake,hdrop⟩ := @run_cons (fun c => !isQuote c) i.specifier rest i.quote hall hquote
  rw [NpmImport.quoted, quoted, htake, hdrop, if_pos ⟨i.quote_ok, hne⟩]

theorem gap_quoted (i : NpmImport U) (rest : Str) :
    (i.gap ++ i.quoted rest).dropWhile U.space = i.quoted rest ∧
      spaces U.space (i.gap ++ i.quoted rest) = if i.gap = [] then none else some (i.quoted rest) := by
  have hquote := quote_not_space (U := U) i.quote_ok
  have hdrop : ∀ {blank : Str}, (∀ c ∈ blank, U.space c = true) →
      (blank ++ i.quoted rest).dropWhile U.space = i.quoted rest := fun hblank => (run_cons hblank hquote).2
  refine ⟨hdrop i.gap_space, ?_⟩
  cases hgap : i.gap with
  | nil =>
    rw [List.nil_append, NpmImport.quoted, spaces, hquote]
    rfl
  | cons c blank =>
    obtain ⟨hc,hblank⟩ := List.forall_mem_cons.mp (hgap ▸ i.gap_space)
    rw [List.cons_append, spaces, if_pos hc, hdrop hblank]
    rfl

theorem literal_ne {c d : Char} (hc : c ≠ d) (word rest : Str) : literal (c :: word) (d :: rest) = none := by
  rw [literal, if_neg]
  rw [List.cons_prefix_cons]
  exact fun h => hc h.1

theorem npmImportRe_requireCall (before : Option Char) {i : NpmImport U} (h : i.form = .requireCall) (after : Str) :
    npmImportRe U before (i.text after) = some (i.specifier, after) := by
  have htrail : (i.trail ++ (")".toList ++ after)).dropWhile U.space = ")".toList ++ after :=
    (run_cons i.trail_space ((U.space_ascii _ (by decide)).trans (by decide))).2
  rw [NpmImport.text, h, npmImportRe]
  dsimp only
  rw [literal_append]
  dsimp only
  rw [(gap_quoted i _).1, quoted_statement]
  dsimp only [Option.bind_eq_bind, Option.bind_some]
  rw [htrail, literal_append]
  rfl

theorem npmImportRe_clause (before : Option Char) {i : NpmImport U} (h : i.form ≠ .requireCall) (after : Str) :
    npmImportRe U before (i.text after) = if i.gap = [] then none else some (i.specifier, after) := by
  have hkeyword : ∃ word ∈ ["from".toList, "import".toList], i.text after = word ++ (i.gap ++ i.quoted after) := by
    rw [NpmImport.text]
    cases hform : i.form with
    | requireCall => exact absurd hform h
    | fromClause => exact ⟨_, List.mem_cons_self, rfl⟩
    | bareImport => exact ⟨_, List.mem_cons_of_mem _ List.mem_cons_self, rfl⟩
  obtain ⟨word,hword,htext⟩ := hkeyword
  have hparts : literal "require(".toList (i.text after) = none ∧
      ((literal "from".toList (i.text after)).or (literal "import".toList (i.text after))) =
        some (i.gap ++ i.quoted after) := by
    rw [htext]
    simp only [List.mem_cons, List.not_mem_nil, or_false] at hword
    rcases hword with rfl | rfl
    · exact ⟨literal_ne (by decide) _ _, by rw [literal_append]; rfl⟩
    · refine ⟨literal_ne (by decide) _ _, ?_⟩
      have hfrom : literal "from".toList ("import".toList ++ (i.gap ++ i.quoted after)) = none :=
        literal_ne (by decide) _ _
      rw [hfrom, literal_append]
      rfl
  rw [npmImportRe, hparts.1]
  dsimp only
  rw [hparts.2]
  dsimp only [Option.bind_eq_bind, Option.bind_some]
  rw [(gap_quoted i after).2]
  split
  · rfl
  · exact quoted_statement i after

theorem npmImportRe_statement (before : Option Char) (i : NpmImport U) (after : Str) :
    npmImportRe U before (i.text after) =
      if i.form = .requireCall ∨ i.gap ≠ [] then some (i.specifier, after) else none := by
  by_cases hform : i.form = .requireCall
  · rw [npmImportRe_requireCall before hform, if_pos (.inl hform)]
  · rw [npmImportRe_clause before hform]
    by_cases hgap : i.gap = []
    · rw [if_pos hgap, if_neg (by simp [hform, hgap])]
    · rw [if_neg hgap, if_pos (.inr hgap)]

theorem length_lowerAt (before after before' after' : Str) (c : Char) :
    (U.lowerAt before after c).length = (U.lowerAt before' after' c).length := by
  rw [Unicode.lowerAt, Unicode.lowerAt]
  split
  · split <;> split <;> rfl
  · rfl

theorem length_lowerFrom (before s : Str) :
    (U.lowerFrom before s).length = (s.map fun c => (U.lowerAt [] [] c).length).sum := by
  induction s generalizing before with
  | nil => rfl
  | cons c s ih =>
    rw [Unicode.lowerFrom, List.length_append, ih, length_lowerAt before s [] [], List.map_cons, List.sum_cons]

-- Lower-casing keeps a slash, so a longer path stays longer.
theorem lowerStr_append_ne (s rest : Str) {c : Char} (hc : c.toNat < 128) :
    U.lowerStr (s ++ c :: rest) ≠ U.lowerStr s := by
  intro h
  have hlength := congrArg List.length h
  rw [Unicode.lowerStr, Unicode.lowerStr, length_lowerFrom, length_lowerFrom, List.map_append, List.sum_append,
    List.map_cons, List.sum_cons, Unicode.lowerAt_ascii hc, List.length_singleton] at hlength
  omega

theorem takeWhile_name (p : NpmPackage) : p.name.takeWhile (· ≠ '/') = p.name :=
  List.takeWhile_eq_self_iff.mpr fun c hc => by simpa using (p.name_plain c hc).1

theorem packageInImports_npm (p : NpmPackage) (imports : List Str) :
    packageInImports U p.text "npm".toList imports = true ↔ U.lowerStr p.text ∈ imports := by
  have hecosystem : "npm".toList ≠ "pypi".toList := by decide
  rw [packageInImports, if_neg hecosystem, if_pos rfl, NpmPackage.text]
  cases hscope : p.scope with
  | none =>
    dsimp only
    rw [if_neg (p.unscoped hscope), takeWhile_name, decide_eq_true_iff]
  | some scope =>
    rw [if_pos (show List.head? ('@' :: (scope ++ '/' :: p.name)) = some '@' from rfl), decide_eq_true_iff]

theorem npmName_unscoped {name : Str} (h : name.head? ≠ some '@') (hplain : ∀ c ∈ name, c ≠ '/')
    (hne : name ≠ []) (rest : Str) : npmName U (name ++ rest) =
      U.lowerStr (name ++ rest.takeWhile (· ≠ '/')) := by
  have hall : ∀ c ∈ name, decide (c ≠ '/') = true := fun c hc => decide_eq_true (hplain c hc)
  have hhead : (name ++ rest).head? ≠ some '@' := by
    rw [List.head?_append_of_ne_nil _ hne]
    exact h
  rw [npmName, if_neg hhead, List.takeWhile_append_of_pos hall]

theorem npmName_specifier (i : NpmImport U) :
    npmName U i.specifier = U.lowerStr i.package.text ↔ i.package.scope = none ∨ i.subpath = none := by
  rw [NpmImport.specifier, NpmPackage.text]
  cases hscope : i.package.scope with
  | none =>
    have hname := npmName_unscoped (U := U) (i.package.unscoped hscope)
      (fun c hc => (i.package.name_plain c hc).1) i.package.name_ne
    refine iff_of_true ?_ (.inl rfl)
    cases i.subpath with
    | none => simpa using hname []
    | some path => simpa using hname ('/' :: path)
  | some scope =>
    have hkeep : ∀ rest, npmName U ('@' :: rest) = U.lowerStr ('@' :: rest) := fun rest => if_pos rfl
    cases i.subpath with
    | none => exact iff_of_true (hkeep _) (.inr rfl)
    | some path =>
      refine iff_of_false ?_ (by simp)
      dsimp only
      rw [List.cons_append, hkeep]
      exact lowerStr_append_ne ('@' :: (scope ++ '/' :: i.package.name)) path (by decide)

theorem npm_recognized_iff_clause (f : NpmFile U) : f.Recognized ↔ ∃ before name, NpmClauseAt U f.text before name ∧
    npmName U name = U.lowerStr f.statement.package.text := by
  rw [NpmFile.Recognized, packageInImports_npm, extractNpmImports, List.mem_map]
  simp only [mem_finditer, Found, NpmClauseAt]
  constructor
  · rintro ⟨name,⟨before,rest,after,h⟩,hname⟩
    exact ⟨before, name, ⟨rest, after, h⟩, hname⟩
  · rintro ⟨before,name,⟨rest,after,h⟩,hname⟩
    exact ⟨name, ⟨before, rest, after, h⟩, hname⟩

theorem npmClauseAt_statement (f : NpmFile U) (name : Str) : NpmClauseAt U f.text f.before name ↔
    f.IsReached ∧ (f.statement.form = .requireCall ∨ f.statement.gap ≠ []) ∧ name = f.statement.specifier := by
  constructor
  · rintro ⟨rest,after,hreached,-,hmatch⟩
    obtain rfl : rest = f.statement.text f.after := List.append_cancel_left hreached.append
    rw [npmImportRe_statement] at hmatch
    split at hmatch
    · next hspaced =>
      cases hmatch
      exact ⟨hreached, hspaced, rfl⟩
    · cases hmatch
  · rintro ⟨hreached,hspaced,rfl⟩
    refine ⟨f.statement.text f.after, f.after, hreached, ?_, by rw [npmImportRe_statement, if_pos hspaced]⟩
    rw [NpmImport.text]
    split <;> simp

theorem npm_recognized_iff (f : NpmFile U) :
    f.Recognized ↔ f.statement.Understood ∧ f.IsReached ∨ f.NamedElsewhere := by
  rw [npm_recognized_iff_clause]
  constructor
  · rintro ⟨before,name,hclause,hname⟩
    by_cases hbefore : before = f.before
    · rw [hbefore] at hclause
      obtain ⟨hreached,hspaced,rfl⟩ := (npmClauseAt_statement f name).mp hclause
      exact .inl ⟨⟨hspaced, (npmName_specifier f.statement).mp hname⟩, hreached⟩
    · exact .inr ⟨before, name, hbefore, hclause, hname⟩
  · rintro (⟨hunderstood,hreached⟩ | ⟨before,name,-,hclause,hname⟩)
    · exact ⟨f.before, _, (npmClauseAt_statement f _).mpr ⟨hreached, hunderstood.spaced, rfl⟩,
        (npmName_specifier f.statement).mpr hunderstood.whole⟩
    · exact ⟨before, name, hclause, hname⟩

end Npm

section Py

def endings : List Char := [',', ';', '#']

-- The name of a top-level module: no mark that separates modules or ends a statement, in lower case neither.
structure ModuleName (U : Unicode) where
  text : Str
  ne_nil : text ≠ []
  plain : ∀ c ∈ text, U.space c = false ∧ c ≠ '.' ∧ c ≠ '-'
  lowered : ∀ c ∈ U.lowerStr text, c ∉ endings

structure Dotted (U : Unicode) where
  top : ModuleName U
  path : List Str
  path_plain : ∀ part ∈ path, ∀ c ∈ part, U.space c = false

-- A module of an import statement, and what stands behind it up to the next comma: an alias or blanks.
structure Item (U : Unicode) where
  module : Dotted U
  behind : Str
  behind_space : ∀ c, behind.head? = some c → U.space c = true

structure Blanks (U : Unicode) where
  text : Str
  ne_nil : text ≠ []
  space : ∀ c ∈ text, U.space c = true

inductive PyImport (U : Unicode) where
  | importing (gap : Blanks U) (first : Item U) (more : List (Str × Item U))
  | fromImport (gap : Blanks U) (module : Dotted U) (gap' : Blanks U) (names : Str)

variable {U : Unicode}

def Dotted.text (d : Dotted U) (rest : Str) : Str := d.top.text ++ (d.path.flatMap ('.' :: ·) ++ rest)

def moreText (more : List (Str × Item U)) : Str :=
  more.flatMap fun m => ',' :: (m.1 ++ m.2.module.text m.2.behind)

def PyImport.text (i : PyImport U) (after : Str) : Str :=
  match i with
  | .importing gap first more =>
    "import".toList ++ (gap.text ++ first.module.text (first.behind ++ (moreText more ++ after)))
  | .fromImport gap module gap' names =>
    "from".toList ++ (gap.text ++ module.text (gap'.text ++ ("import".toList ++ (names ++ after))))

def PyImport.modules : PyImport U → List (ModuleName U)
  | .importing _ first more => first.module.top :: more.map fun m => m.2.module.top
  | .fromImport _ module _ _ => [module.top]

structure PyFile (U : Unicode) where
  before : Str
  statement : PyImport U
  after : Str
  after_ends : ∀ c, after.head? = some c → U.space c = true ∨ c ∈ endings
  module : ModuleName U
  imported : module ∈ statement.modules

def PyFile.text (f : PyFile U) : Str := f.before ++ f.statement.text f.after

def Answers (m : ModuleName U) (name : Str) : Prop :=
  name = U.lowerStr m.text ∨ name = (U.lowerStr m.text).takeWhile (· ≠ '_')

def Separated (first : Item U) (more : List (Str × Item U)) (after : Str) : Prop :=
  first.behind ≠ [] ∨ more = [] ∧ ∀ c, after.head? = some c → U.space c = true

def PyFile.Understood (f : PyFile U) : Prop :=
  match f.statement with
  | .importing _ first more =>
    (first.module.path ≠ [] ∨ Separated first more f.after) ∧ Answers f.module (U.lowerStr first.module.top.text)
  | .fromImport _ _ _ _ => True

def LineStart (before : Str) : Prop := before.getLast? = none ∨ before.getLast? = some '\n'

def PyClauseAt (U : Unicode) (text before mod : Str) : Prop :=
  ∃ lead rest after, Reached (pyImportRe U) ([], text) (lead, rest) ∧ rest ≠ [] ∧
    pyImportRe U lead.getLast? rest = some (mod, after) ∧ before = lead ++ rest.takeWhile U.space

def PyFile.Recognized (f : PyFile U) : Prop :=
  packageInImports U f.module.text "pypi".toList (extractPyImports U f.text) = true

def PyFile.IsReached (f : PyFile U) : Prop :=
  ∃ lead blank, f.before = lead ++ blank ∧ (∀ c ∈ blank, U.space c = true) ∧ LineStart lead ∧
    Reached (pyImportRe U) ([], f.text) (lead, blank ++ f.statement.text f.after)

def PyFile.NamedElsewhere (f : PyFile U) : Prop :=
  ∃ before mod, before ≠ f.before ∧ PyClauseAt U f.text before mod ∧ Answers f.module (rootModule U mod)

def PyFile.firstWord (f : PyFile U) : Str :=
  match f.statement with
  | .importing _ first more =>
    (first.module.text (first.behind ++ (moreText more ++ f.after))).takeWhile fun c => !U.space c
  | .fromImport _ module _ _ => module.text []

theorem dot_not_space : U.space '.' = false := (U.space_ascii _ (by decide)).trans (by decide)

theorem dotted_plain (d : Dotted U) : d.text [] ≠ [] ∧ ∀ c ∈ d.text [], (!U.space c) = true := by
  refine ⟨by simp [Dotted.text, d.top.ne_nil], fun c hc => ?_⟩
  simp only [Dotted.text, List.append_nil, List.mem_append, List.mem_flatMap, List.mem_cons] at hc
  rcases hc with hc | ⟨part,hpart,rfl | hc⟩
  · rw [(d.top.plain c hc).1]
    rfl
  · rw [dot_not_space]
    rfl
  · rw [d.path_plain part hpart c hc]
    rfl

theorem dotted_append (d : Dotted U) (rest : Str) : d.text rest = d.text [] ++ rest := by
  simp [Dotted.text]

theorem word_dotted (d : Dotted U) (rest : Str) :
    (d.text rest).takeWhile (fun c => !U.space c) = d.text (rest.takeWhile fun c => !U.space c) := by
  rw [dotted_append, List.takeWhile_append_of_pos (dotted_plain d).2, ← dotted_append]

theorem blanks_append (gap : Blanks U) {rest : Str} (hrest : ∀ c, rest.head? = some c → U.space c = false) :
    spaces U.space (gap.text ++ rest) = some rest := by
  obtain ⟨c,blank,hgap⟩ := List.exists_cons_of_ne_nil gap.ne_nil
  obtain ⟨hc,hblank⟩ := List.forall_mem_cons.mp (hgap ▸ gap.space)
  rw [hgap, List.cons_append, spaces, if_pos hc, (run_append hblank hrest).2]

theorem head_dotted (d : Dotted U) (rest : Str) (c : Char) (h : (d.text rest).head? = some c) : U.space c = false := by
  rw [dotted_append, List.head?_append_of_ne_nil _ (dotted_plain d).1] at h
  obtain ⟨tail,htail⟩ := List.head?_eq_some_iff.mp h
  simpa using (dotted_plain d).2 c (by rw [htail]; exact List.mem_cons_self)

theorem unspaced_dotted (d : Dotted U) (rest : Str) : unspaced U.space (d.text rest) =
    some ((d.text rest).takeWhile (fun c => !U.space c), (d.text rest).dropWhile fun c => !U.space c) := by
  rw [unspaced, if_neg]
  rw [word_dotted, dotted_append]
  simp [(dotted_plain d).1]

theorem head_statement (i : PyImport U) (after : Str) : ∃ c rest, i.text after = c :: rest ∧ U.space c = false := by
  cases i with
  | importing => exact ⟨'i', _, rfl, (U.space_ascii _ (by decide)).trans (by decide)⟩
  | fromImport => exact ⟨'f', _, rfl, (U.space_ascii _ (by decide)).trans (by decide)⟩

theorem pyImportRe_statement (f : PyFile U) {before : Option Char} (hbefore : before = none ∨ before = some '\n')
    {blank : Str} (hblank : ∀ c ∈ blank, U.space c = true) :
    ∃ tail, pyImportRe U before (blank ++ f.statement.text f.after) = some (f.firstWord, tail) := by
  obtain ⟨c,rest,hstatement,hc⟩ := head_statement f.statement f.after
  have hline : (blank ++ f.statement.text f.after).dropWhile U.space = f.statement.text f.after := by
    rw [hstatement, (run_cons hblank hc).2]
  rw [pyImportRe, if_pos hbefore]
  dsimp only
  rw [hline, PyFile.firstWord]
  cases f.statement with
  | importing gap first more =>
    dsimp only [PyImport.text]
    rw [literal_append]
    dsimp only
    rw [blanks_append gap (head_dotted _ _)]
    exact ⟨_, unspaced_dotted _ _⟩
  | fromImport gap module gap' names =>
    have himport : literal "import".toList ("from".toList ++ (gap.text ++ module.text (gap'.text ++
        ("import".toList ++ (names ++ f.after))))) = none := literal_ne (by decide) _ _
    obtain ⟨d,blank',hgap⟩ := List.exists_cons_of_ne_nil gap'.ne_nil
    have hd : U.space d = true := gap'.space d (by rw [hgap]; exact List.mem_cons_self)
    have hword := @run_cons (fun c => !U.space c) (module.text []) (blank' ++ ("import".toList ++ (names ++ f.after))) d
      (dotted_plain module).2 (by rw [hd]; rfl)
    rw [← List.cons_append, ← hgap, ← dotted_append] at hword
    refine ⟨names ++ f.after, ?_⟩
    dsimp only [PyImport.text]
    rw [himport]
    dsimp only
    rw [literal_append]
    dsimp only [Option.bind_eq_bind, Option.bind_some]
    rw [blanks_append gap (head_dotted _ _)]
    dsimp only [Option.bind_some]
    rw [unspaced_dotted, hword.1, hword.2]
    dsimp only [Option.bind_some]
    rw [blanks_append gap' (by rintro c ⟨⟩; exact (U.space_ascii _ (by decide)).trans (by decide))]
    dsimp only [Option.bind_some]
    rw [literal_append]
    rfl

theorem rootModule_append {name : Str} (hname : ∀ c ∈ name, U.space c = false ∧ c ≠ '.' ∧ c ≠ '-') (rest : Str) :
    rootModule U (name ++ rest) =
      U.lowerStr (name ++ (rest.takeWhile (· ≠ '.')).map fun c => if c = '-' ∨ c = ' ' then '_' else c) := by
  have hall : ∀ c ∈ name, decide (c ≠ '.') = true := fun c hc => decide_eq_true (hname c hc).2.1
  have hspace : U.space ' ' = true := (U.space_ascii _ (by decide)).trans (by decide)
  have hkept : name.map (fun c => if c = '-' ∨ c = ' ' then '_' else c) = name := by
    refine (List.map_congr_left fun c hc => ?_).trans (List.map_id name)
    obtain ⟨hblank,_,hdash⟩ := hname c hc
    have hne : c ≠ ' ' := by
      rintro rfl
      rw [hspace] at hblank
      cases hblank
    rw [if_neg (by simp [hdash, hne])]
    rfl
  rw [rootModule, List.takeWhile_append_of_pos hall, List.map_append, hkept]

theorem mem_lowerFrom {c : Char} (hascii : c.toNat < 128) (hlower : c.toLower = c) (before : Str) {s : Str}
    (hc : c ∈ s) : c ∈ U.lowerFrom before s := by
  induction s generalizing before with
  | nil => exact absurd hc List.not_mem_nil
  | cons d s ih =>
    rw [Unicode.lowerFrom, List.mem_append]
    rcases List.mem_cons.mp hc with rfl | hc
    · rw [Unicode.lowerAt_ascii hascii, hlower]
      exact .inl List.mem_cons_self
    · exact .inr (ih _ hc)

theorem not_answers {m : ModuleName U} {name : Str} {c : Char} (hc : c ∈ endings) (hmem : c ∈ name) :
    ¬Answers m name := by
  rintro (rfl | rfl)
  · exact m.lowered c hmem hc
  · exact m.lowered c ((List.takeWhile_prefix _).subset hmem) hc

theorem rootModule_ended (m top : ModuleName U) {c : Char} (hc : c ∈ endings) (rest : Str) :
    ¬Answers m (rootModule U (top.text ++ c :: rest)) := by
  have hplain : ∀ c ∈ endings, c ≠ '.' ∧ (if c = '-' ∨ c = ' ' then '_' else c) = c ∧ c.toNat < 128 ∧ c.toLower = c :=
    forall_mem_of_all (by decide)
  obtain ⟨hdot,hkept,hascii,hlower⟩ := hplain c hc
  have htake : (c :: rest).takeWhile (· ≠ '.') = c :: rest.takeWhile (· ≠ '.') :=
    List.takeWhile_cons_of_pos (decide_eq_true hdot)
  rw [rootModule_append top.plain, htake, List.map_cons, hkept]
  exact not_answers hc (mem_lowerFrom hascii hlower [] (by simp))

theorem rootModule_dotted (d : Dotted U) (rest : Str) (h : d.path ≠ [] ∨ rest = []) :
    rootModule U (d.text rest) = U.lowerStr d.top.text := by
  rw [Dotted.text, rootModule_append d.top.plain]
  cases hpath : d.path with
  | nil =>
    rw [h.resolve_left (not_not.mpr hpath)]
    simp
  | cons part path => simp

theorem endings_not_space {c : Char} (hc : c ∈ endings) : U.space c = false := by
  have hascii : ∀ c ∈ endings, c.toNat < 128 ∧ asciiSpaces.contains c.toNat = false :=
    forall_mem_of_all (by decide)
  exact (U.space_ascii c (hascii c hc).1).trans (hascii c hc).2

theorem word_behind {first : Item U} {more : List (Str × Item U)} {after : Str}
    (hafter : ∀ c, after.head? = some c → U.space c = true ∨ c ∈ endings) :
    (Separated first more after ∧ (first.behind ++ (moreText more ++ after)).takeWhile (fun c => !U.space c) = []) ∨
      ¬Separated first more after ∧ ∃ c rest, c ∈ endings ∧
        (first.behind ++ (moreText more ++ after)).takeWhile (fun c => !U.space c) = c :: rest := by
  have hstop : ∀ {text : Str}, (∀ c, text.head? = some c → U.space c = true) →
      text.takeWhile (fun c => !U.space c) = [] := by
    intro text htext
    cases text with
    | nil => rfl
    | cons c rest => rw [List.takeWhile_cons_of_neg (by simp [htext c rfl])]
  have hmark : ∀ {c : Char} {rest : Str}, c ∈ endings → ∃ tail,
      (c :: rest).takeWhile (fun c => !U.space c) = c :: tail := by
    intro c rest hc
    exact ⟨_, List.takeWhile_cons_of_pos (by rw [endings_not_space hc]; rfl)⟩
  by_cases hbehind : first.behind = []
  · rw [hbehind, List.nil_append]
    cases more with
    | cons m more =>
      obtain ⟨tail,htail⟩ := @hmark ',' (m.1 ++ m.2.module.text m.2.behind ++ moreText more ++ after) (by decide)
      refine .inr ⟨by simp [Separated, hbehind], ',', tail, by decide, ?_⟩
      rw [← htail]
      simp [moreText]
    | nil =>
      change (_ ∧ after.takeWhile _ = []) ∨ _ ∧ ∃ c rest, _ ∧ after.takeWhile _ = c :: rest
      by_cases hspace : ∀ c, after.head? = some c → U.space c = true
      · exact .inl ⟨.inr ⟨rfl, hspace⟩, hstop hspace⟩
      · refine .inr ⟨by simpa [Separated, hbehind] using hspace, ?_⟩
        push Not at hspace
        obtain ⟨c,hc,hnot⟩ := hspace
        have hend := (hafter c hc).resolve_left hnot
        obtain ⟨rest,rfl⟩ := List.head?_eq_some_iff.mp hc
        obtain ⟨tail,htail⟩ := @hmark c rest hend
        exact ⟨c, tail, hend, htail⟩
  · refine .inl ⟨.inl hbehind, hstop fun c hc => first.behind_space c ?_⟩
    rwa [List.head?_append_of_ne_nil _ hbehind] at hc

theorem answers_firstWord (f : PyFile U) : Answers f.module (rootModule U f.firstWord) ↔ f.Understood := by
  have himported := f.imported
  rw [PyFile.firstWord, PyFile.Understood]
  cases hstatement : f.statement with
  | fromImport gap module gap' names =>
    rw [hstatement] at himported
    rw [rootModule_dotted module [] (.inr rfl)]
    exact iff_of_true (.inl (by rw [List.mem_singleton.mp himported])) trivial
  | importing gap first more =>
    dsimp only
    rw [word_dotted]
    by_cases hpath : first.module.path = []
    · rcases word_behind f.after_ends with ⟨hseparated,htail⟩ | ⟨hjoined,c,rest,hc,htail⟩
      · rw [htail, rootModule_dotted first.module [] (.inr rfl)]
        exact (and_iff_right (.inr hseparated)).symm
      · rw [htail, Dotted.text, hpath]
        refine iff_of_false (rootModule_ended f.module first.module.top hc rest) ?_
        rintro ⟨hne | hseparated,-⟩
        · exact hne rfl
        · exact hjoined hseparated
    · rw [rootModule_dotted first.module _ (.inl hpath)]
      exact (and_iff_right (.inl hpath)).symm

theorem packageInImports_pypi (m : ModuleName U) (imports : List Str) :
    packageInImports U m.text "pypi".toList imports = true ↔ ∃ name ∈ imports, Answers m name := by
  have hkept : m.text.map (fun c => if c = '-' ∨ c = '.' then '_' else c) = m.text := by
    refine (List.map_congr_left fun c hc => ?_).trans (List.map_id m.text)
    rw [if_neg (by simp [(m.plain c hc).2])]
    rfl
  rw [packageInImports, if_pos rfl]
  dsimp only
  rw [hkept, Bool.or_eq_true, decide_eq_true_iff, decide_eq_true_iff]
  constructor
  · rintro (hmem | hmem)
    · exact ⟨_, hmem, .inl rfl⟩
    · exact ⟨_, hmem, .inr rfl⟩
  · rintro ⟨name,hmem,rfl | rfl⟩
    · exact .inl hmem
    · exact .inr hmem

theorem py_recognized_iff_clause (f : PyFile U) :
    f.Recognized ↔ ∃ before mod, PyClauseAt U f.text before mod ∧ Answers f.module (rootModule U mod) := by
  rw [PyFile.Recognized, packageInImports_pypi, extractPyImports]
  simp only [List.mem_map, mem_finditer, Found, PyClauseAt]
  constructor
  · rintro ⟨_,⟨mod,⟨lead,rest,after,hreached,hne,hmatch⟩,rfl⟩,hanswers⟩
    exact ⟨_, mod, ⟨lead, rest, after, hreached, hne, hmatch, rfl⟩, hanswers⟩
  · rintro ⟨_,mod,⟨lead,rest,after,hreached,hne,hmatch,-⟩,hanswers⟩
    exact ⟨_, ⟨mod, ⟨lead, rest, after, hreached, hne, hmatch⟩, rfl⟩, hanswers⟩

theorem lineStart_of_match {before : Option Char} {rest mod after : Str}
    (h : pyImportRe U before rest = some (mod, after)) : before = none ∨ before = some '\n' := by
  by_contra hnot
  rw [pyImportRe, if_neg hnot] at h
  cases h

theorem pyClauseAt_statement (f : PyFile U) (mod : Str) :
    PyClauseAt U f.text f.before mod ↔ f.IsReached ∧ mod = f.firstWord := by
  obtain ⟨c,tail,hstatement,hc⟩ := head_statement f.statement f.after
  constructor
  · rintro ⟨lead,rest,after,hreached,-,hmatch,hbefore⟩
    have hstart := lineStart_of_match hmatch
    have hspace : ∀ c ∈ rest.takeWhile U.space, U.space c = true := fun c hc => List.mem_takeWhile_imp hc
    have hrest : rest = rest.takeWhile U.space ++ f.statement.text f.after := by
      have happend : lead ++ rest = f.text := hreached.append
      rw [PyFile.text, hbefore, List.append_assoc] at happend
      exact List.append_cancel_left happend
    obtain ⟨after',hword⟩ := pyImportRe_statement f hstart hspace
    rw [← hrest, hmatch] at hword
    cases hword
    exact ⟨⟨lead, _, hbefore, hspace, hstart, hrest ▸ hreached⟩, rfl⟩
  · rintro ⟨⟨lead,blank,hbefore,hspace,hstart,hreached⟩,rfl⟩
    obtain ⟨after,hword⟩ := pyImportRe_statement f hstart hspace
    refine ⟨lead, _, after, hreached, by simp [hstatement], hword, ?_⟩
    rw [hstatement, (run_cons hspace hc).1, hbefore]

theorem py_recognized_iff (f : PyFile U) : f.Recognized ↔ f.Understood ∧ f.IsReached ∨ f.NamedElsewhere := by
  rw [py_recognized_iff_clause]
  constructor
  · rintro ⟨before,mod,hclause,hanswers⟩
    by_cases hbefore : before = f.before
    · rw [hbefore] at hclause
      obtain ⟨hreached,rfl⟩ := (pyClauseAt_statement f mod).mp hclause
      exact .inl ⟨(answers_firstWord f).mp hanswers, hreached⟩
    · exact .inr ⟨before, mod, hbefore, hclause, hanswers⟩
  · rintro (⟨hunderstood,hreached⟩ | ⟨before,mod,-,hclause,hanswers⟩)
    · exact ⟨f.before, _, (pyClauseAt_statement f _).mpr ⟨hreached, rfl⟩, (answers_firstWord f).mpr hunderstood⟩
    · exact ⟨before, mod, hclause, hanswers⟩

end Py

theorem imports_recognized_iff (U : Unicode) :
    (∀ f : NpmFile U, f.Recognized ↔ f.statement.Understood ∧ f.IsReached ∨ f.NamedElsewhere) ∧
      ∀ f : PyFile U, f.Recognized ↔ f.Understood ∧ f.IsReached ∨ f.NamedElsewhere :=
  ⟨npm_recognized_iff, py_recognized_iff⟩

def babelImport : NpmFile .basic where
  before := "const c = ".toList
  statement :=
    { form := .requireCall
      gap := []
      gap_space := forall_mem_of_all rfl
      trail := []
      trail_space := forall_mem_of_all rfl
      quote := '"'
      quote_ok := rfl
      package :=
        { scope := some "babel".toList
          name := "core".toList
          name_ne := by decide
          name_plain := forall_mem_of_all (by decide)
          scope_plain := by
            rintro _ ⟨⟩
            exact forall_mem_of_all (by decide)
          unscoped := by decide }
      subpath := some "lib/config".toList
      subpath_plain := by
        rintro _ ⟨⟩
        exact forall_mem_of_all (by decide) }
  after := ";\n".toList

def osName : ModuleName .basic := 
  ⟨"os".toList, by decide, forall_mem_of_all (by decide), forall_mem_of_all (by decide)⟩

def requestsName : ModuleName .basic := 
  ⟨"requests".toList, by decide, forall_mem_of_all (by decide), forall_mem_of_all (by decide)⟩

def plainItem (name : ModuleName .basic) : Item .basic := ⟨⟨name, [], by simp⟩, [], by simp⟩

def requestsImport : PyFile .basic where
  before := []
  statement := .importing ⟨[' '], by decide, forall_mem_of_all (by decide)⟩ (plainItem osName) [([' '], plainItem requestsName)]
  after := ['\n']
  after_ends := by
    rintro _ ⟨⟩
    exact .inl (by decide)
  module := requestsName
  imported := .tail _ (.head _)

-- A path inside a scoped package, and the second module of an import.
theorem imports_not_recognized :
    (¬∀ (U : Unicode) (f : NpmFile U), f.Recognized) ∧ ¬∀ (U : Unicode) (f : PyFile U), f.Recognized := by
  constructor
  · exact fun h => absurd (h .basic babelImport) (by rw [NpmFile.Recognized]; decide)
  · exact fun h => absurd (h .basic requestsImport) (by rw [PyFile.Recognized]; decide)

end PicoSentry.Scan.ImportExtraction
