import Mathlib.Data.List.TakeWhile
import PicoSentry.Foundation.Url

namespace PicoSentry.Foundation.Url

section Partition

theorem mem_partition_fst {c d : Char} {s : Str} (h : d ∈ (partition c s).1) : d ∈ s ∧ d ≠ c :=
  ⟨(List.takeWhile_sublist _).subset h, by simpa using List.mem_takeWhile_imp h⟩

theorem mem_partition_snd {c d : Char} {s : Str} (h : d ∈ (partition c s).2) : d ∈ s :=
  (List.dropWhile_sublist _).subset (List.mem_of_mem_drop h)

theorem partition_append {c : Char} {a : Str} (h : c ∉ a) (b : Str) :
    partition c (a ++ c :: b) = (a, b) := by
  have hne : ∀ d ∈ a, decide (d ≠ c) = true := fun d hd =>
    decide_eq_true fun hdc => h (hdc ▸ hd)
  rw [partition, List.takeWhile_append_of_pos hne, List.dropWhile_append_of_pos hne]
  simp

theorem partition_of_not_mem {c : Char} {a : Str} (h : c ∉ a) : partition c a = (a, []) := by
  have hne : ∀ d ∈ a, decide (d ≠ c) = true := fun d hd =>
    decide_eq_true fun hdc => h (hdc ▸ hd)
  rw [partition, List.takeWhile_eq_self_iff.mpr hne, List.dropWhile_eq_nil_iff.mpr hne]
  rfl

end Partition

section Clean

theorem not_unsafe_of_mem_clean {c : Char} {url : Str} (h : c ∈ clean url) : c ∉ unsafeChars := by
  have hc := (List.mem_filter.mp h).2
  simpa using hc

theorem clean_eq_filter {url : Str} (hhead : ∀ c ∈ url.head?, 32 < c.toNat) :
    clean url = url.filter fun c => !unsafeChars.contains c := by
  cases url with
  | nil => rfl
  | cons c rest =>
    have hc : 32 < c.toNat := hhead c rfl
    rw [clean, List.dropWhile_cons_of_neg (by simpa using hc)]

theorem filter_safe {s : Str} (h : ∀ c ∈ s, c ∉ unsafeChars) :
    s.filter (fun c => !unsafeChars.contains c) = s :=
  List.filter_eq_self.mpr fun c hc => by simpa using h c hc

theorem clean_eq_self {url : Str} (hhead : ∀ c ∈ url.head?, 32 < c.toNat)
    (h : ∀ c ∈ url, c ∉ unsafeChars) : clean url = url :=
  (clean_eq_filter hhead).trans (filter_safe h)

theorem clean_slash (url : Str) : clean (url ++ ['/']) = clean url ++ ['/'] := by
  have hdrop : ∀ s : Str, (s ++ ['/']).dropWhile (fun c => c.toNat ≤ 32) =
      s.dropWhile (fun c => c.toNat ≤ 32) ++ ['/'] := by
    intro s
    induction s with
    | nil => rfl
    | cons c s ih =>
      by_cases hc : c.toNat ≤ 32
      · rw [List.cons_append, List.dropWhile_cons_of_pos (by simpa using hc), ih,
          List.dropWhile_cons_of_pos (by simpa using hc)]
      · rw [List.cons_append, List.dropWhile_cons_of_neg (by simpa using hc),
          List.dropWhile_cons_of_neg (by simpa using hc), List.cons_append]
  rw [clean, hdrop, List.filter_append]
  rfl

end Clean

section Scheme

def properScheme (scheme : Str) : Bool :=
  scheme.head?.any asciiLetter && scheme.all schemeChar && scheme.map Char.toLower = scheme

def https : Str := "https".toList

theorem properScheme_https : properScheme https = true := by decide

theorem properScheme_colon {scheme : Str} (h : properScheme scheme = true) : ':' ∉ scheme := by
  intro hmem
  simp only [properScheme, Bool.and_eq_true, List.all_eq_true] at h
  exact absurd (h.1.2 ':' hmem) (by decide)

theorem splitScheme_cons {scheme : Str} (h : properScheme scheme = true) (rest : Str) :
    splitScheme (scheme ++ ':' :: rest) = some (scheme, rest) := by
  have hcolon := properScheme_colon h
  have hfront : (scheme ++ ':' :: rest).takeWhile (fun c => c ≠ ':') = scheme :=
    congrArg Prod.fst (partition_append hcolon rest)
  have hcontains : (scheme ++ ':' :: rest).contains ':' = true := by simp
  simp only [properScheme, Bool.and_eq_true, decide_eq_true_eq] at h
  simp only [splitScheme, hfront, hcontains, partition_append hcolon rest, h.1.1, h.1.2, h.2,
    Bool.and_self, if_true]

theorem splitScheme_default {url : Str} {p : Str × Str} (h : splitScheme (clean url) = some p)
    (scheme other : Str) : splitParts url scheme = splitParts url other := by
  simp only [splitParts, h, Option.getD_some]

end Scheme

section Netloc

theorem splitNetloc_cons {netloc rest : Str} (h : ∀ c ∈ netloc, netlocEnd c = false)
    (hrest : ∀ c ∈ rest.head?, netlocEnd c = true) :
    splitNetloc ('/' :: '/' :: (netloc ++ rest)) = (netloc, rest) := by
  have hne : ∀ c ∈ netloc, (!netlocEnd c) = true := fun c hc => by rw [h c hc]; rfl
  have htake : (netloc ++ rest).takeWhile (fun c => !netlocEnd c) = netloc := by
    rw [List.takeWhile_append_of_pos hne]
    cases rest with
    | nil => simp
    | cons c rest => rw [List.takeWhile_cons_of_neg (by simp [hrest c rfl]), List.append_nil]
  have hdrop : (netloc ++ rest).dropWhile (fun c => !netlocEnd c) = rest := by
    rw [List.dropWhile_append_of_pos hne]
    cases rest with
    | nil => rfl
    | cons c rest => exact List.dropWhile_cons_of_neg (by simp [hrest c rfl])
  exact (if_pos rfl).trans (Prod.ext htake hdrop)

theorem mem_splitNetloc_fst {c : Char} {url : Str} (h : c ∈ (splitNetloc url).1) :
    c ∈ url ∧ netlocEnd c = false := by
  rw [splitNetloc] at h
  split at h
  · exact ⟨List.mem_of_mem_drop ((List.takeWhile_sublist _).subset h),
      by simpa using List.mem_takeWhile_imp h⟩
  · simp at h

theorem mem_splitNetloc_snd {c : Char} {url : Str} (h : c ∈ (splitNetloc url).2) : c ∈ url := by
  rw [splitNetloc] at h
  split at h
  · exact List.mem_of_mem_drop ((List.dropWhile_sublist _).subset h)
  · exact h

theorem splitNetloc_snd_head {url : Str} (h : (splitNetloc url).1 ≠ []) :
    ∀ c ∈ (splitNetloc url).2.head?, netlocEnd c = true := by
  rw [splitNetloc] at h ⊢
  split at h
  · next htake =>
    rw [if_pos htake]
    intro c hc
    have hnot := List.head?_dropWhile_not (fun c => !netlocEnd c) (url.drop 2)
    rw [Option.mem_def.mp hc] at hnot
    simpa using hnot
  · exact absurd rfl h

end Netloc

section RoundTrip

variable {nfkc : Str → Str}

theorem urlsplit_ok {url scheme : Str} {s : SplitResult} :
    urlsplit nfkc url scheme = .ok s ↔
      netlocAccepted nfkc s.netloc = true ∧ splitParts url scheme = s := by
  rw [urlsplit]
  split
  · next h =>
    constructor
    · intro hs
      cases hs
      exact ⟨h, rfl⟩
    · rintro ⟨_,rfl⟩
      rfl
  · next h =>
    constructor
    · intro hs
      cases hs
    · rintro ⟨hs,rfl⟩
      exact absurd hs h

structure SplitResult.WellFormed (s : SplitResult) : Prop where
  netloc : ∀ c ∈ s.netloc, netlocEnd c = false ∧ c ∉ unsafeChars
  path : ∀ c ∈ s.path, c ≠ '?' ∧ c ≠ '#' ∧ c ∉ unsafeChars
  query : ∀ c ∈ s.query, c ≠ '#' ∧ c ∉ unsafeChars
  fragment : ∀ c ∈ s.fragment, c ∉ unsafeChars

theorem mem_splitScheme_rest {url : Str} {p : Str × Str} (h : splitScheme url = some p) {c : Char}
    (hc : c ∈ p.2) : c ∈ url := by
  simp only [splitScheme] at h
  split at h
  · cases h
    exact mem_partition_snd hc
  · cases h

theorem splitParts_wellFormed (url scheme : Str) : (splitParts url scheme).WellFormed := by
  have hrest : ∀ c ∈ ((splitScheme (clean url)).getD (scheme, clean url)).2, c ∉ unsafeChars := by
    intro c hc
    cases hp : splitScheme (clean url) with
    | none =>
      rw [hp] at hc
      exact not_unsafe_of_mem_clean hc
    | some p =>
      rw [hp] at hc
      exact not_unsafe_of_mem_clean (mem_splitScheme_rest hp hc)
  have htail : ∀ c ∈ (splitNetloc ((splitScheme (clean url)).getD (scheme, clean url)).2).2,
      c ∉ unsafeChars := fun c hc => hrest c (mem_splitNetloc_snd hc)
  constructor
  · intro c hc
    have hc := mem_splitNetloc_fst hc
    exact ⟨hc.2, hrest c hc.1⟩
  · intro c hc
    have hc := mem_partition_fst hc
    have hc' := mem_partition_fst hc.1
    exact ⟨hc.2, hc'.2, htail c hc'.1⟩
  · intro c hc
    have hc := mem_partition_fst (mem_partition_snd hc)
    exact ⟨hc.2, htail c hc.1⟩
  · intro c hc
    exact htail c (mem_partition_snd hc)

theorem splitParts_path_head {url scheme : Str} (h : (splitParts url scheme).netloc ≠ []) :
    ∀ c ∈ (splitParts url scheme).path.head?, c = '/' := by
  intro c hc
  have hwf := (splitParts_wellFormed url scheme).path c (List.mem_of_head? hc)
  have hhead : ∀ (d : Char) (s : Str), c ∈ (partition d s).1.head? → c ∈ s.head? := by
    intro d s hs
    cases s with
    | nil => simp [partition] at hs
    | cons e s =>
      by_cases he : e = d
      · simp [partition, he] at hs
      · simpa [partition, he] using hs
  have hend := splitNetloc_snd_head h c (hhead '#' _ (hhead '?' _ hc))
  simpa [netlocEnd, hwf.1, hwf.2.1] using hend

theorem slashed_eq_self {path : Str} (h : ∀ c ∈ path.head?, c = '/') : slashed path = path := by
  rw [slashed, if_neg]
  rintro ⟨hne,hhead⟩
  cases path with
  | nil => exact hne rfl
  | cons c path =>
    rw [h c rfl] at hhead
    exact hhead rfl

theorem mem_slashed {path : Str} {c : Char} (h : c ∈ slashed path) : c ∈ path ∨ c = '/' := by
  rw [slashed] at h
  split at h
  · exact (List.mem_cons.mp h).symm
  · exact .inl h

theorem slashed_head (path : Str) : ∀ c ∈ (slashed path).head?, c = '/' := by
  intro c hc
  rw [slashed] at hc
  split at hc
  · simpa using hc.symm
  · next h =>
    cases path with
    | nil => simp at hc
    | cons d path =>
      have hd : d = '/' := by simpa using h
      simpa [hd] using hc.symm

def queryText (query : Str) : Str := if query ≠ [] then '?' :: query else []

def SplitResult.tail (s : SplitResult) : Str :=
  slashed s.path ++ queryText s.query ++ if s.fragment ≠ [] then '#' :: s.fragment else []

theorem mem_queryText {query : Str} {c : Char} (h : c ∈ queryText query) : c = '?' ∨ c ∈ query := by
  rw [queryText] at h
  split at h
  · exact List.mem_cons.mp h
  · cases h

theorem partition_queryText {path : Str} (h : '?' ∉ path) (query : Str) :
    partition '?' (path ++ queryText query) = (path, query) := by
  rw [queryText]
  split
  · exact partition_append h query
  · next hq => rw [List.append_nil, partition_of_not_mem h, not_not.mp hq]

theorem urlunsplit_eq {s : SplitResult} (hs : s.scheme ≠ []) (hn : s.netloc ≠ []) :
    urlunsplit s = s.scheme ++ ':' :: '/' :: '/' :: (s.netloc ++ s.tail) := by
  simp only [urlunsplit, SplitResult.tail, queryText, if_pos (Or.inl hn : s.netloc ≠ [] ∨ _),
    if_pos hs]
  split <;> split <;> simp

theorem SplitResult.WellFormed.slashed_path {s : SplitResult} (h : s.WellFormed) {c : Char}
    (hc : c ∈ slashed s.path) : c ≠ '?' ∧ c ≠ '#' ∧ c ∉ unsafeChars := by
  rcases mem_slashed hc with hc | rfl
  · exact h.path c hc
  · decide

theorem split_tail {s : SplitResult} (h : s.WellFormed) :
    partition '#' s.tail = (slashed s.path ++ queryText s.query, s.fragment) := by
  have hfront : '#' ∉ slashed s.path ++ queryText s.query := by
    intro hmem
    rcases List.mem_append.mp hmem with hmem | hmem
    · exact (h.slashed_path hmem).2.1 rfl
    · rcases mem_queryText hmem with hq | hmem
      · exact absurd hq (by decide)
      · exact (h.query _ hmem).1 rfl
  rw [SplitResult.tail]
  split
  · exact partition_append hfront _
  · next hf => rw [List.append_nil, partition_of_not_mem hfront, not_not.mp hf]

theorem split_front {s : SplitResult} (h : s.WellFormed) :
    partition '?' (slashed s.path ++ queryText s.query) = (slashed s.path, s.query) :=
  partition_queryText (fun hmem => (h.slashed_path hmem).1 rfl) s.query

theorem SplitResult.WellFormed.mem_tail {s : SplitResult} (h : s.WellFormed) {c : Char}
    (hc : c ∈ s.tail) : c ∉ unsafeChars := by
  rw [SplitResult.tail, List.append_assoc, List.mem_append, List.mem_append] at hc
  rcases hc with hc | hc | hc
  · exact (h.slashed_path hc).2.2
  · rcases mem_queryText hc with rfl | hc
    · decide
    · exact (h.query _ hc).2
  · split at hc
    · rcases List.mem_cons.mp hc with rfl | hc
      · decide
      · exact h.fragment _ hc
    · cases hc

theorem tail_head (s : SplitResult) : ∀ c ∈ s.tail.head?, netlocEnd c = true := by
  intro c hc
  rw [SplitResult.tail, List.append_assoc, List.head?_append] at hc
  cases hp : (slashed s.path).head? with
  | some d =>
    have hd := slashed_head s.path d hp
    rw [hp, Option.some_or, Option.mem_def, Option.some.injEq] at hc
    rw [← hc, hd]
    rfl
  | none =>
    rw [hp, Option.none_or, queryText] at hc
    split at hc
    · cases hc
      rfl
    · split at hc
      · cases hc
        rfl
      · cases hc

theorem splitParts_urlunsplit {s : SplitResult} (h : s.WellFormed)
    (hs : properScheme s.scheme = true) (hn : s.netloc ≠ []) (scheme : Str) :
    splitParts (urlunsplit s) scheme = { s with path := slashed s.path } := by
  have hsne : s.scheme ≠ [] := by
    rintro hnil
    rw [hnil] at hs
    exact absurd hs (by decide)
  have hclean : clean (urlunsplit s) = urlunsplit s := by
    rw [urlunsplit_eq hsne hn]
    simp only [properScheme, Bool.and_eq_true, List.all_eq_true] at hs
    have hsafe : ∀ c, schemeChar c = true → c ∉ unsafeChars := by
      intro c hc hmem
      rcases (by simpa [unsafeChars] using hmem : c = '\t' ∨ c = '\r' ∨ c = '\n') with rfl | rfl | rfl
      all_goals exact absurd hc (by decide)
    refine clean_eq_self ?_ ?_
    · intro c hc
      rw [List.head?_append_of_ne_nil _ hsne] at hc
      have hc : s.scheme.head? = some c := hc
      have hletter : asciiLetter c = true := by simpa [hc] using hs.1.1
      simp only [asciiLetter, decide_eq_true_eq] at hletter
      rcases hletter with ⟨hl,_⟩ | ⟨hl,_⟩
      · exact lt_of_lt_of_le (by decide) (Char.le_def.mp hl)
      · exact lt_of_lt_of_le (by decide) (Char.le_def.mp hl)
    · intro c hc
      rw [List.mem_append, List.mem_cons, List.mem_cons, List.mem_cons, List.mem_append] at hc
      rcases hc with hc | rfl | rfl | rfl | hc | hc
      · exact hsafe c (hs.1.2 c hc)
      · decide
      · decide
      · decide
      · exact (h.netloc c hc).2
      · exact h.mem_tail hc
  have hnet : splitNetloc ('/' :: '/' :: (s.netloc ++ s.tail)) = (s.netloc, s.tail) :=
    splitNetloc_cons (fun c hc => (h.netloc c hc).1) (tail_head s)
  simp only [splitParts, hclean]
  rw [urlunsplit_eq hsne hn]
  simp only [splitScheme_cons hs, Option.getD_some, hnet, split_tail h, split_front h]

end RoundTrip

end PicoSentry.Foundation.Url
