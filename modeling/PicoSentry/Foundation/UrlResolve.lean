import PicoSentry.Foundation.UrlRoundTrip

namespace PicoSentry.Foundation.Url

section Characters

def pathChar (c : Char) : Bool := c ≠ '?' && c ≠ '#' && !unsafeChars.contains c

theorem pathChar_iff {c : Char} :
    pathChar c = true ↔ c ≠ '?' ∧ c ≠ '#' ∧ c ∉ unsafeChars := by
  simp [pathChar, and_assoc]

theorem splitParams_front (url : Str) :
    (url.reverse.dropWhile fun c => c ≠ '/').reverse ++
      (url.reverse.takeWhile fun c => c ≠ '/').reverse = url := by
  rw [← List.reverse_append, List.takeWhile_append_dropWhile, List.reverse_reverse]

theorem mem_splitParams_fst {url : Str} {c : Char} (h : c ∈ (splitParams url).1) : c ∈ url := by
  rw [← splitParams_front url]
  rcases List.mem_append.mp h with h | h
  · exact List.mem_append_left _ h
  · exact List.mem_append_right _ (mem_partition_fst h).1

theorem mem_splitParams_snd {url : Str} {c : Char} (h : c ∈ (splitParams url).2) : c ∈ url := by
  rw [← splitParams_front url]
  exact List.mem_append_right _ (mem_partition_snd h)

theorem mem_intercalate {segments : List Str} {c : Char} (h : c ∈ ['/'].intercalate segments) :
    c = '/' ∨ ∃ seg ∈ segments, c ∈ seg := by
  induction segments with
  | nil => simp at h
  | cons seg segments ih =>
    cases segments with
    | nil =>
      rw [List.intercalate_singleton] at h
      exact .inr ⟨seg, by simp, h⟩
    | cons next segments =>
      rw [List.intercalate_cons_cons, List.mem_append, List.mem_append] at h
      rcases h with (h | h) | h
      · exact .inr ⟨seg, by simp, h⟩
      · exact .inl (List.mem_singleton.mp h)
      · rcases ih h with hslash | ⟨other,hother,hc⟩
        · exact .inl hslash
        · exact .inr ⟨other, List.mem_cons_of_mem _ hother, hc⟩

theorem mem_intercalate_of_mem {segments : List Str} {seg : Str} {c : Char}
    (hseg : seg ∈ segments) (hc : c ∈ seg) : c ∈ ['/'].intercalate segments := by
  induction segments with
  | nil => cases hseg
  | cons first segments ih =>
    cases segments with
    | nil =>
      rw [List.intercalate_singleton, ← List.mem_singleton.mp hseg]
      exact hc
    | cons next segments =>
      rw [List.intercalate_cons_cons]
      rcases List.mem_cons.mp hseg with rfl | hseg
      · exact List.mem_append_left _ (List.mem_append_left _ hc)
      · exact List.mem_append_right _ (ih hseg)

theorem mem_of_mem_splitOn {s seg : Str} {c : Char} (hseg : seg ∈ s.splitOn '/') (hc : c ∈ seg) :
    c ∈ s := by
  have hmem := mem_intercalate_of_mem hseg hc
  rwa [List.intercalate_splitOn] at hmem

theorem mem_dropInnerEmpty {segments : List Str} {seg : Str} (h : seg ∈ dropInnerEmpty segments) :
    seg ∈ segments := by
  cases segments with
  | nil => cases h
  | cons first rest =>
    simp only [dropInnerEmpty] at h
    cases hlast : rest.getLast? with
    | none =>
      rw [hlast] at h
      exact List.mem_cons.mpr (.inl (List.mem_singleton.mp h))
    | some last =>
      rw [hlast, List.mem_append, List.mem_cons] at h
      rcases h with (rfl | h) | h
      · exact List.mem_cons_self
      · exact List.mem_cons_of_mem _ (List.mem_of_mem_dropLast (List.mem_of_mem_filter h))
      · rw [List.mem_singleton.mp h]
        exact List.mem_cons_of_mem _ (List.mem_of_getLast? hlast)

theorem mem_resolveSegment {resolved : List Str} {seg other : Str}
    (h : other ∈ resolveSegment resolved seg) : other ∈ resolved ∨ other = seg := by
  rw [resolveSegment] at h
  split at h
  · exact .inl (List.mem_of_mem_dropLast h)
  · split at h
    · exact .inl h
    · exact (List.mem_append.mp h).imp_right List.mem_singleton.mp

theorem mem_foldl_resolveSegment {segments resolved : List Str} {seg : Str}
    (h : seg ∈ segments.foldl resolveSegment resolved) : seg ∈ resolved ∨ seg ∈ segments := by
  induction segments generalizing resolved with
  | nil => exact .inl h
  | cons first segments ih =>
    rcases ih h with h | h
    · rcases mem_resolveSegment h with h | rfl
      · exact .inl h
      · exact .inr List.mem_cons_self
    · exact .inr (List.mem_cons_of_mem _ h)

theorem mem_resolve {segments : List Str} {seg : Str} (h : seg ∈ resolve segments) :
    seg ∈ segments ∨ seg = [] := by
  have hfold : seg ∈ segments.foldl resolveSegment [] → seg ∈ segments ∨ seg = [] := by
    intro hseg
    rcases mem_foldl_resolveSegment hseg with hnil | hmem
    · cases hnil
    · exact .inl hmem
  simp only [resolve] at h
  split at h
  · rcases List.mem_append.mp h with h | h
    · exact hfold h
    · exact .inr (List.mem_singleton.mp h)
  · exact hfold h

theorem mem_mergeSegments {basePath path seg : Str} {c : Char}
    (h : seg ∈ mergeSegments basePath path) (hc : c ∈ seg) : c ∈ basePath ∨ c ∈ path := by
  rw [mergeSegments] at h
  split at h
  · exact .inr (mem_of_mem_splitOn h hc)
  · rcases List.mem_append.mp (mem_dropInnerEmpty h) with h | h
    · refine .inl (mem_of_mem_splitOn ?_ hc)
      rw [directory] at h
      split at h
      · exact List.mem_of_mem_dropLast h
      · exact h
    · exact .inr (mem_of_mem_splitOn h hc)

theorem mem_mergePath {basePath path : Str} {c : Char} (h : c ∈ mergePath basePath path) :
    c ∈ basePath ∨ c ∈ path ∨ c = '/' := by
  simp only [mergePath] at h
  split at h
  · exact .inr (.inr (List.mem_singleton.mp h))
  · rcases mem_intercalate h with hslash | ⟨seg,hseg,hc⟩
    · exact .inr (.inr hslash)
    · rcases mem_resolve hseg with hseg | rfl
      · exact (mem_mergeSegments hseg hc).imp_right .inl
      · cases hc

end Characters

section Transform

def ParseResult.NoPath (r : ParseResult) : Prop := r.path = [] ∧ r.params = []

instance (r : ParseResult) : Decidable r.NoPath := inferInstanceAs (Decidable (_ ∧ _))

def targetPath (b r : ParseResult) : Str :=
  if r.netloc ≠ [] then r.fullPath
  else if r.NoPath then b.fullPath
  else { r with path := mergePath b.path r.path }.fullPath

def transform (b r : ParseResult) : SplitResult where
  scheme := r.scheme
  netloc := if r.netloc ≠ [] then r.netloc else b.netloc
  path := targetPath b r
  query := if r.netloc = [] ∧ r.NoPath ∧ r.query = [] then b.query else r.query
  fragment := r.fragment

theorem mem_fullPath {r : ParseResult} {c : Char} (h : c ∈ r.fullPath) :
    c ∈ r.path ∨ c = ';' ∨ c ∈ r.params := by
  rw [ParseResult.fullPath] at h
  split at h
  · rcases List.mem_append.mp h with h | h
    · exact .inl h
    · exact .inr (List.mem_cons.mp h)
  · exact .inl h

theorem mem_withParams {s : SplitResult} {c : Char}
    (h : c ∈ s.withParams.path ∨ c ∈ s.withParams.params) : c ∈ s.path := by
  simp only [SplitResult.withParams] at h
  split at h
  · exact h.elim mem_splitParams_fst mem_splitParams_snd
  · rcases h with h | h
    · exact h
    · cases h

theorem pathChar_targetPath {b r : SplitResult} (hb : b.WellFormed) (hr : r.WellFormed) :
    ∀ c ∈ targetPath b.withParams r.withParams, pathChar c = true := by
  have hbase : ∀ c ∈ b.path, pathChar c = true := fun c hc => pathChar_iff.mpr (hb.path c hc)
  have href : ∀ c ∈ r.path, pathChar c = true := fun c hc => pathChar_iff.mpr (hr.path c hc)
  have hfull : ∀ (s : SplitResult), (∀ c ∈ s.path, pathChar c = true) →
      ∀ c ∈ s.withParams.fullPath, pathChar c = true := by
    intro s hs c hc
    rcases mem_fullPath hc with hc | rfl | hc
    · exact hs c (mem_withParams (.inl hc))
    · decide
    · exact hs c (mem_withParams (.inr hc))
  intro c hc
  rw [targetPath] at hc
  split at hc
  · exact hfull r href c hc
  · split at hc
    · exact hfull b hbase c hc
    · rcases mem_fullPath hc with hc | rfl | hc
      · rcases mem_mergePath hc with hc | hc | rfl
        · exact hbase c (mem_withParams (.inl hc))
        · exact href c (mem_withParams (.inl hc))
        · decide
      · decide
      · exact href c (mem_withParams (.inr hc))

theorem transform_wellFormed {b r : SplitResult} (hb : b.WellFormed) (hr : r.WellFormed) :
    (transform b.withParams r.withParams).WellFormed where
  netloc c hc := by
    simp only [transform] at hc
    split at hc
    · exact hr.netloc c hc
    · exact hb.netloc c hc
  path c hc := pathChar_iff.mp (pathChar_targetPath hb hr c hc)
  query c hc := by
    simp only [transform] at hc
    split at hc
    · exact hb.query c hc
    · exact hr.query c hc
  fragment := hr.fragment

end Transform

section Join

variable {nfkc : Str → Str} {base url : Str} {b r : SplitResult}

theorem ne_nil_of_netloc (hb : urlsplit nfkc base [] = .ok b) (hn : b.netloc ≠ []) : base ≠ [] := by
  rintro rfl
  rw [← (urlsplit_ok.mp hb).2] at hn
  exact hn rfl

theorem joinParsed_same {b r : ParseResult} (hscheme : r.scheme = b.scheme)
    (hrel : b.scheme ∈ usesRelative) (hnet : b.scheme ∈ usesNetloc) (url : Str) :
    joinParsed b r url = urlunsplit (transform b r) := by
  have hkept : ¬(r.scheme ≠ b.scheme ∨ r.scheme ∉ usesRelative) := by
    rw [hscheme]
    simp [hrel]
  rw [joinParsed, if_neg hkept, hscheme]
  by_cases hn : r.netloc = []
  · rw [if_neg fun h => h.2 hn, if_pos hnet]
    by_cases hp : r.path = [] ∧ r.params = []
    · rw [if_pos hp, urlunparse]
      simp [transform, targetPath, ParseResult.NoPath, ParseResult.fullPath, hscheme, hn, hp]
    · rw [if_neg hp, urlunparse]
      simp [transform, targetPath, ParseResult.NoPath, ParseResult.fullPath, hscheme, hn, hp]
  · rw [if_pos ⟨hnet, hn⟩, urlunparse]
    simp [transform, targetPath, hn]

theorem urljoin_https (hb : urlsplit nfkc base [] = .ok b) (hs : b.scheme = https)
    (hn : b.netloc ≠ []) (hurl : url ≠ []) :
    urljoin nfkc base url = (urlsplit nfkc url https).map fun r =>
      if r.scheme = https then urlunsplit (transform b.withParams r.withParams) else url := by
  have hbase : urlparse nfkc base [] = .ok b.withParams := by rw [urlparse, hb]; rfl
  have hscheme : b.withParams.scheme = https := hs
  rw [urljoin, if_neg (ne_nil_of_netloc hb hn), if_neg hurl, hbase]
  simp only [bind, Except.bind, hscheme, urlparse]
  cases urlsplit nfkc url https with
  | error e => rfl
  | ok r =>
    refine congrArg Except.ok ?_
    by_cases hr : r.scheme = https
    · have hsame := joinParsed_same (r := r.withParams) (hr.trans hscheme.symm)
        (by rw [hscheme]; decide) (by rw [hscheme]; decide) url
      exact hsame.trans (if_pos hr).symm
    · have hne : r.withParams.scheme ≠ b.withParams.scheme := by rwa [hscheme]
      have hurl : joinParsed b.withParams r.withParams url = url := if_pos (.inl hne)
      exact hurl.trans (if_neg hr).symm

theorem urlsplit_transform (hb : urlsplit nfkc base [] = .ok b) (hn : b.netloc ≠ [])
    (hr : urlsplit nfkc url https = .ok r) (hrs : r.scheme = https) :
    urlsplit nfkc (urlunsplit (transform b.withParams r.withParams)) [] =
      .ok { transform b.withParams r.withParams with
        path := slashed (targetPath b.withParams r.withParams) } := by
  obtain ⟨hbok,rfl⟩ := urlsplit_ok.mp hb
  obtain ⟨hrok,rfl⟩ := urlsplit_ok.mp hr
  have hwf := transform_wellFormed (splitParts_wellFormed base []) (splitParts_wellFormed url https)
  have hproper : properScheme (splitParts url https).scheme = true := by
    rw [hrs]
    exact properScheme_https
  have hnetloc : ∀ s t : Str, netlocAccepted nfkc s = true → netlocAccepted nfkc t = true → t ≠ [] →
      netlocAccepted nfkc (if s ≠ [] then s else t) = true ∧ (if s ≠ [] then s else t) ≠ [] := by
    intro s t hs ht hne
    split
    · next h => exact ⟨hs, h⟩
    · exact ⟨ht, hne⟩
  obtain ⟨haccepted,hne⟩ := hnetloc _ _ hrok hbok hn
  exact urlsplit_ok.mpr ⟨haccepted, splitParts_urlunsplit hwf hproper hne []⟩

end Join

section TrailingSlash

theorem partition_append_of_mem {c : Char} {s : Str} (h : c ∈ s) (t : Str) :
    partition c (s ++ t) = ((partition c s).1, (partition c s).2 ++ t) := by
  obtain ⟨a,b,rfl,ha⟩ := List.eq_append_cons_of_mem h
  rw [List.append_assoc, List.cons_append, partition_append ha, partition_append ha]

theorem splitScheme_slash (url : Str) :
    splitScheme (url ++ ['/']) = (splitScheme url).map fun p => (p.1, p.2 ++ ['/']) := by
  by_cases h : ':' ∈ url
  · have hpart := partition_append_of_mem h ['/']
    have hfront : (url ++ ['/']).takeWhile (fun c => c ≠ ':') = url.takeWhile (fun c => c ≠ ':') :=
      congrArg Prod.fst hpart
    have hcontains : (url ++ ['/']).contains ':' = url.contains ':' := by simp
    simp only [splitScheme, hfront, hcontains, hpart]
    split <;> rfl
  · have hnone : ∀ s : Str, ':' ∉ s → splitScheme s = none := by
      intro s hs
      simp [splitScheme, hs]
    rw [hnone url h, hnone _ (by simpa using h)]
    rfl

theorem splitNetloc_slash {url : Str} (h : (splitNetloc url).1 ≠ []) :
    splitNetloc (url ++ ['/']) = ((splitNetloc url).1, (splitNetloc url).2 ++ ['/']) := by
  have htail := splitNetloc_snd_head h
  have hnetloc : ∀ c ∈ (splitNetloc url).1, netlocEnd c = false := fun c hc =>
    (mem_splitNetloc_fst hc).2
  have hurl : url = '/' :: '/' :: ((splitNetloc url).1 ++ (splitNetloc url).2) := by
    rw [splitNetloc] at h ⊢
    split at h
    · next htake =>
      rw [if_pos htake, List.takeWhile_append_dropWhile]
      exact (List.take_append_drop 2 url).symm.trans (congrArg (· ++ url.drop 2) htake)
    · exact absurd rfl h
  have hhead : ∀ c ∈ ((splitNetloc url).2 ++ ['/']).head?, netlocEnd c = true := by
    intro c hc
    cases hs : (splitNetloc url).2 with
    | nil =>
      rw [hs] at hc
      cases hc
      rfl
    | cons d rest =>
      rw [hs] at hc
      exact htail c (by rw [hs]; exact hc)
  conv_lhs => rw [hurl, List.cons_append, List.cons_append, List.append_assoc]
  exact splitNetloc_cons hnetloc hhead

theorem partition_slash {c : Char} (hc : c ≠ '/') (s : Str) :
    (partition c (s ++ ['/'])).1 = (partition c s).1 ∨
      (partition c (s ++ ['/'])).1 = (partition c s).1 ++ ['/'] := by
  by_cases h : c ∈ s
  · exact .inl (by rw [partition_append_of_mem h])
  · have hs : c ∉ s ++ ['/'] := by simpa [h] using hc
    exact .inr (by rw [partition_of_not_mem h, partition_of_not_mem hs])

theorem splitParts_slash {url scheme : Str} (h : (splitParts url scheme).netloc ≠ []) :
    (splitParts (url ++ ['/']) scheme).scheme = (splitParts url scheme).scheme ∧
      (splitParts (url ++ ['/']) scheme).netloc = (splitParts url scheme).netloc ∧
      (splitParts url scheme).path <+: (splitParts (url ++ ['/']) scheme).path := by
  have hscheme : (splitScheme (clean (url ++ ['/']))).getD (scheme, clean (url ++ ['/'])) =
      (((splitScheme (clean url)).getD (scheme, clean url)).1,
        ((splitScheme (clean url)).getD (scheme, clean url)).2 ++ ['/']) := by
    rw [clean_slash, splitScheme_slash]
    cases splitScheme (clean url) <;> rfl
  have hne : (splitNetloc ((splitScheme (clean url)).getD (scheme, clean url)).2).1 ≠ [] := h
  have hnetloc := splitNetloc_slash hne
  have hpath : ∀ s : Str, (partition '?' (partition '#' s).1).1 <+:
      (partition '?' (partition '#' (s ++ ['/'])).1).1 := by
    intro s
    rcases partition_slash (by decide : '#' ≠ '/') s with h | h
    · rw [h]
    · rw [h]
      rcases partition_slash (by decide : '?' ≠ '/') (partition '#' s).1 with h | h
      · rw [h]
      · rw [h]
        exact List.prefix_append _ _
  simp only [splitParts, hscheme, hnetloc, true_and]
  exact hpath _

end TrailingSlash

end PicoSentry.Foundation.Url
