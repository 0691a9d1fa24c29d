import PicoSentry.Firewall.ClassifyPath
import PicoSentry.Foundation.RelativePath

namespace PicoSentry.Firewall.MetadataScanned

open Foundation
open Foundation.Url
open Proxy
open VerdictCache (Request)
open VerdictCache renaming latest → latestVersion

section Documents

def nameChar (c : Char) : Bool :=
  asciiLetter c || isDigit c || "-_.!~*'()".toList.contains c

def versionChar (c : Char) : Bool := nameChar c || c = '+'

structure UnscopedName (name : Str) : Prop where
  nonempty : name ≠ []
  chars : name.all nameChar = true
  start : name.head? ≠ some '.' ∧ name.head? ≠ some '_'

structure ScopedName (scope name : Str) : Prop where
  scope : scope ≠ [] ∧ scope.all nameChar = true
  nonempty : name ≠ []
  chars : name.all nameChar = true
  start : name.head? ≠ some '.'

inductive PackageName : List Str → Prop where
  | bare {name : Str} (h : UnscopedName name) : PackageName [name]
  | inScope {scope name : Str} (h : ScopedName scope name) : PackageName ['@' :: scope, name]

structure Version (version : Str) : Prop where
  start : version.head?.any (fun c => asciiLetter c || isDigit c) = true
  chars : version.all versionChar = true

inductive Document : List Str → Request → Prop where
  | npmLatest {name : List Str} (h : PackageName name) :
      Document name ⟨npm, ['/'].intercalate name, latestVersion⟩
  | npmVersion {name : List Str} {version : Str} (h : PackageName name) (hv : Version version) :
      Document (name ++ [version]) ⟨npm, ['/'].intercalate name, version⟩
  | pypiLatest {name : Str} (h : Plain name) :
      Document [pypi, name, json] ⟨pypi, name, latestVersion⟩
  | pypiVersion {name version : Str} (h : Plain name) (hv : Plain version) :
      Document [pypi, name, version, json] ⟨pypi, name, version⟩

def DocumentAt (path : Str) (request : Request) : Prop :=
  ∃ segments, Document segments request ∧ path = '/' :: ['/'].intercalate segments

def fetchedPath (url : Str) : Str := PosixPath.rstripSlash (splitParts url []).path

end Documents

section Condition

def classified (path : Str) : Str := PosixPath.rstripSlash (splitParts path []).path

def documentLine (path : Str) : Str :=
  if (pypiPackage path).isSome ∧ path.getLast? = some '\n' then path.dropLast else path

structure Verbatim (path : Str) : Prop where
  rooted : path.head? = some '/'
  segments : ∀ seg ∈ (path.drop 1).splitOn '/', Plain seg
  chars : ∀ c ∈ path, pathChar c = true
  start : ∀ c ∈ (path.drop 1).head?, 32 < c.toNat
  scheme : splitScheme (path.drop 1) = none
  params : ∀ last ∈ ((path.drop 1).splitOn '/').getLast?, ';' ∉ last

def baseOf (config : FirewallConfig) (path decoded : Str) : Str :=
  if (pypiPackage decoded).isSome then config.upstreamPypi
  else if (npmPackage decoded).isSome then config.upstreamNpm
  else config.guessedBase path

def basePath (base : Str) : Str := (splitParts (base ++ ['/']) []).withParams.path

structure Faithful (U : Unicode) (config : FirewallConfig) (path : Str) : Prop where
  notStatic : staticExtension U (classified path) = false
  verbatim : Verbatim (documentLine (unquote (classified path)))
  located : baseSegments (basePath (baseOf config path (unquote (classified path)))) = [] ∨
    (baseSegments (basePath (baseOf config path (unquote (classified path)))) = [latestVersion] ∧
      documentLine (unquote (classified path)) = '/' :: latestVersion)

end Condition

section Matching

theorem plain_of_head {seg : Str} (hne : seg ≠ []) (hslash : '/' ∉ seg)
    (hhead : seg.head? ≠ some '.') : Plain seg where
  nonempty := hne
  slash := hslash
  dot heq := hhead (by rw [heq]; rfl)
  dotDot heq := hhead (by rw [heq]; rfl)

theorem not_mem_of_all {p : Char → Bool} {c : Char} {s : Str} (h : s.all p = true)
    (hc : p c = false) : c ∉ s := by
  intro hmem
  rw [List.all_eq_true.mp h c hmem] at hc
  cases hc

theorem PackageName.plain {name : List Str} (h : PackageName name) :
    name ≠ [] ∧ ∀ seg ∈ name, Plain seg := by
  cases h with
  | bare h =>
    refine ⟨List.cons_ne_nil _ _, fun seg hseg => ?_⟩
    rw [List.mem_singleton.mp hseg]
    exact plain_of_head h.nonempty (not_mem_of_all h.chars (by decide)) h.start.1
  | inScope h =>
    refine ⟨List.cons_ne_nil _ _, fun seg hseg => ?_⟩
    rcases List.mem_cons.mp hseg with rfl | hseg
    · refine plain_of_head (List.cons_ne_nil _ _) ?_ (by simp)
      rw [List.mem_cons]
      rintro (heq | hmem)
      · exact absurd heq (by decide)
      · exact not_mem_of_all h.scope.2 (by decide) hmem
    · rw [List.mem_singleton.mp hseg]
      exact plain_of_head h.nonempty (not_mem_of_all h.chars (by decide)) h.start

theorem Version.plain {version : Str} (h : Version version) : Plain version := by
  have hstart := h.start
  refine plain_of_head ?_ (not_mem_of_all h.chars (by decide)) ?_
  · rintro rfl
    cases hstart
  · intro hdot
    rw [hdot] at hstart
    exact absurd hstart (by decide)

theorem version_latest : Version latestVersion where
  start := by decide
  chars := by decide

theorem plain_latest : Plain latestVersion := version_latest.plain

theorem Document.plain {segments : List Str} {request : Request} (h : Document segments request) :
    segments ≠ [] ∧ ∀ seg ∈ segments, Plain seg := by
  have hpypi : Plain pypi := plain_of_head (by decide) (by decide) (by decide)
  have hjson : Plain json := plain_of_head (by decide) (by decide) (by decide)
  cases h with
  | npmLatest h => exact h.plain
  | npmVersion h hv =>
    refine ⟨List.append_ne_nil_of_right_ne_nil _ (List.cons_ne_nil _ _), fun seg hseg => ?_⟩
    rcases List.mem_append.mp hseg with hseg | hseg
    · exact h.plain.2 seg hseg
    · rw [List.mem_singleton.mp hseg]
      exact hv.plain
  | pypiLatest h => simp [hpypi, hjson, h]
  | pypiVersion h hv => simp [hpypi, hjson, h, hv]

theorem hasScope_name {name : Str} (h : name.all nameChar = true) : hasScope name = false := by
  cases name with
  | nil => rfl
  | cons c name =>
    have hc : c ≠ '@' := by
      rintro rfl
      exact not_mem_of_all h (by decide) List.mem_cons_self
    simp [hasScope, hc]

theorem hasScope_scope {scope : Str} (h : scope ≠ []) : hasScope ('@' :: scope) = true := by
  have hlen := List.length_pos_of_ne_nil h
  simp [hasScope, hlen]

theorem Document.matched {segments : List Str} {request : Request} (h : Document segments request) :
    (pypiSegments segments).or (npmSegments segments) = some request := by
  have hjson : json ∈ lineEnds json := List.mem_cons_self
  cases h with
  | npmLatest h =>
    cases h with
    | bare h => simp [pypiSegments, npmSegments, h.nonempty]
    | inScope h =>
      simp [pypiSegments, npmSegments, hasScope_scope h.scope.1, h.nonempty,
        List.intercalate_cons_cons]
  | npmVersion h hv =>
    have hver := hv.plain.nonempty
    cases h with
    | bare h => simp [pypiSegments, npmSegments, hasScope_name h.chars, h.nonempty, hver]
    | @inScope scope name h =>
      have hfirst : '@' :: scope ≠ pypi := fun heq => absurd (List.cons.inj heq).1 (by decide)
      simp [pypiSegments, npmSegments, hasScope_scope h.scope.1, h.nonempty, hver, hfirst,
        List.intercalate_cons_cons]
  | pypiLatest h => simp [pypiSegments, h.nonempty, hjson]
  | pypiVersion h hv => simp [pypiSegments, h.nonempty, hv.nonempty, hjson]

end Matching

section Inversion

inductive Known : Request → Prop where
  | ofNpm {name : List Str} {version : Str} (h : PackageName name) (hv : Version version) :
      Known ⟨npm, ['/'].intercalate name, version⟩
  | ofPypi {name version : Str} (h : Plain name) (hv : Plain version) : Known ⟨pypi, name, version⟩

theorem Document.known {segments : List Str} {request : Request} (h : Document segments request) :
    Known request := by
  cases h with
  | npmLatest h => exact .ofNpm h version_latest
  | npmVersion h hv => exact .ofNpm h hv
  | pypiLatest h => exact .ofPypi h plain_latest
  | pypiVersion h hv => exact .ofPypi h hv

theorem npmSegments_inv {segments : List Str} {request : Request}
    (h : npmSegments segments = some request) :
    request.ecosystem = npm ∧ ∃ name, name ≠ [] ∧ request.name = ['/'].intercalate name ∧
      ((segments = name ∧ request.version = latestVersion) ∨ segments = name ++ [request.version]) := by
  match segments with
  | [] => cases h
  | [name] =>
    rw [npmSegments] at h
    split at h
    · cases h
      exact ⟨rfl, [name], by simp, by simp, .inl ⟨rfl, rfl⟩⟩
    · cases h
  | [a, b] =>
    rw [npmSegments] at h
    split at h
    · cases h
    · split at h
      · cases h
        exact ⟨rfl, [a, b], by simp, by simp [List.intercalate_cons_cons], .inl ⟨rfl, rfl⟩⟩
      · cases h
        exact ⟨rfl, [a], by simp, by simp, .inr rfl⟩
  | [a, b, version] =>
    rw [npmSegments] at h
    split at h
    · cases h
      exact ⟨rfl, [a, b], by simp, by simp [List.intercalate_cons_cons], .inr rfl⟩
    · cases h
  | _ :: _ :: _ :: _ :: _ => cases h

theorem pypiSegments_inv {segments : List Str} {request : Request}
    (h : pypiSegments segments = some request) :
    request.ecosystem = pypi ∧ ∃ init last, segments = init ++ [last] ∧ json ∈ lineEnds last ∧
      ((init = [pypi, request.name] ∧ request.version = latestVersion) ∨
        init = [pypi, request.name, request.version]) := by
  match segments with
  | [] => cases h
  | [_] => cases h
  | [_, _] => cases h
  | [a, name, last] =>
    rw [pypiSegments] at h
    split at h
    · next hcond =>
      cases h
      exact ⟨rfl, [a, name], last, rfl, hcond.2.2, .inl ⟨by rw [hcond.1], rfl⟩⟩
    · cases h
  | [a, name, version, last] =>
    rw [pypiSegments] at h
    split at h
    · next hcond =>
      cases h
      exact ⟨rfl, [a, name, version], last, rfl, hcond.2.2.2, .inr (by rw [hcond.1])⟩
    · cases h
  | _ :: _ :: _ :: _ :: _ :: _ => cases h

end Inversion

section DocumentLine

theorem matchSegments_intercalate (pattern : List Str → Option Request) {segments : List Str}
    (hne : segments ≠ []) (h : ∀ seg ∈ segments, '/' ∉ seg) :
    matchSegments pattern ('/' :: ['/'].intercalate segments) = pattern segments := by
  rw [matchSegments, List.splitOn_intercalate '/' h hne]

theorem matchSegments_some {pattern : List Str → Option Request} {path : Str} {request : Request}
    (h : matchSegments pattern path = some request) :
    ∃ segments, segments ≠ [] ∧ (∀ seg ∈ segments, '/' ∉ seg) ∧
      path = '/' :: ['/'].intercalate segments ∧ pattern segments = some request := by
  unfold matchSegments at h
  split at h
  · next rest =>
    refine ⟨rest.splitOn '/', List.splitOn_ne_nil _ _, fun seg => slash_not_mem_splitOn, ?_, h⟩
    rw [List.intercalate_splitOn]
  · cases h

theorem intercalate_concat_append {init : List Str} {last : Str} (s : Str) :
    ['/'].intercalate (init ++ [last ++ s]) = ['/'].intercalate (init ++ [last]) ++ s := by
  cases init with
  | nil => simp
  | cons first rest =>
    rw [intercalate_append (List.cons_ne_nil _ _), intercalate_append (List.cons_ne_nil _ _)]
    simp

theorem intercalate_injective {xs ys : List Str} (hx : ∀ seg ∈ xs, '/' ∉ seg)
    (hy : ∀ seg ∈ ys, '/' ∉ seg) (hxne : xs ≠ []) (hyne : ys ≠ [])
    (h : ['/'].intercalate xs = ['/'].intercalate ys) : xs = ys := by
  rw [← List.splitOn_intercalate '/' hx hxne, h, List.splitOn_intercalate '/' hy hyne]

theorem lineEnds_json {last : Str} (h : json ∈ lineEnds last) : last = json ∨ last = json ++ ['\n'] := by
  rw [lineEnds] at h
  rcases List.mem_cons.mp h with heq | h
  · exact .inl heq.symm
  · split at h
    · next hlast =>
      have hdrop := List.dropLast_append_getLast? '\n' hlast
      rw [← List.mem_singleton.mp h] at hdrop
      exact .inr hdrop.symm
    · cases h

theorem npm_ne_pypi : npm ≠ pypi := by decide

theorem document_of_npm {segments : List Str} {request : Request}
    (hslash : ∀ seg ∈ segments, '/' ∉ seg) (h : npmSegments segments = some request)
    (hknown : Known request) : Document segments request := by
  obtain ⟨heco,name,hne,hname,hshape⟩ := npmSegments_inv h
  cases hknown with
  | @ofNpm name' version hpkg hv =>
    have hslash' : ∀ seg ∈ name, '/' ∉ seg := by
      intro seg hseg
      rcases hshape with ⟨rfl,_⟩ | rfl
      · exact hslash seg hseg
      · exact hslash seg (List.mem_append_left _ hseg)
    obtain rfl := intercalate_injective (fun seg hseg => (hpkg.plain.2 seg hseg).slash) hslash'
      hpkg.plain.1 hne hname
    rcases hshape with ⟨rfl,hversion⟩ | rfl
    · obtain rfl : version = latestVersion := hversion
      exact .npmLatest hpkg
    · exact .npmVersion hpkg hv
  | ofPypi _ _ => exact absurd heco.symm npm_ne_pypi

theorem document_of_pypi {init : List Str} {request : Request}
    (h : pypiSegments (init ++ [json]) = some request) (hknown : Known request) :
    Document (init ++ [json]) request := by
  obtain ⟨heco,front,last,hsegments,_,hshape⟩ := pypiSegments_inv h
  obtain ⟨rfl,_⟩ := List.append_inj' hsegments rfl
  cases hknown with
  | ofNpm _ _ => exact absurd heco npm_ne_pypi
  | @ofPypi name version hname hv =>
    rcases hshape with ⟨hinit,hversion⟩ | hinit
    · obtain rfl : version = latestVersion := hversion
      rw [hinit]
      exact .pypiLatest hname
    · rw [hinit]
      exact .pypiVersion hname hv

theorem pypiSegments_line (init : List Str) :
    pypiSegments (init ++ [json ++ ['\n']]) = pypiSegments (init ++ [json]) := by
  have hline : json ∈ lineEnds (json ++ ['\n']) := by decide
  have hjson : json ∈ lineEnds json := List.mem_cons_self
  match init with
  | [] => rfl
  | [_] => rfl
  | [_, _] => simp [pypiSegments, hline, hjson]
  | [_, _, _] => simp [pypiSegments, hline, hjson]
  | _ :: _ :: _ :: _ :: rest => cases rest <;> rfl

theorem documentLine_pypi {path : Str} {request : Request} (h : pypiPackage path = some request) :
    ∃ init, pypiSegments (init ++ [json]) = some request ∧ (∀ seg ∈ init, '/' ∉ seg) ∧
      documentLine path = '/' :: ['/'].intercalate (init ++ [json]) := by
  obtain ⟨segments,_,hslash,hpath,hmatch⟩ := matchSegments_some h
  obtain ⟨_,init,last,rfl,hlast,_⟩ := pypiSegments_inv hmatch
  refine ⟨init, ?_, fun seg hseg => hslash seg (List.mem_append_left _ hseg), ?_⟩
  · rcases lineEnds_json hlast with rfl | rfl
    · exact hmatch
    · rw [← pypiSegments_line]
      exact hmatch
  · rw [documentLine, h, hpath]
    rcases lineEnds_json hlast with rfl | rfl
    · have hjson : json = "jso".toList ++ ['n'] := by decide
      refine if_neg fun hcond => ?_
      rw [hjson, intercalate_concat_append, ← List.cons_append, List.getLast?_concat] at hcond
      exact absurd (Option.some.inj hcond.2) (by decide)
    · rw [intercalate_concat_append, ← List.cons_append, List.getLast?_concat, List.dropLast_concat]
      exact if_pos ⟨rfl, rfl⟩

theorem documentLine_other {path : Str} (h : pypiPackage path = none) : documentLine path = path := by
  rw [documentLine, h]
  exact if_neg fun hcond => absurd hcond.1 (by decide)

theorem documentLine_of_matched {path : Str} {request : Request}
    (h : (pypiPackage path).or (npmPackage path) = some request) (hknown : Known request) :
    ∃ segments, Document segments request ∧
      documentLine path = '/' :: ['/'].intercalate segments := by
  cases hpypi : pypiPackage path with
  | none =>
    rw [hpypi, Option.none_or] at h
    obtain ⟨segments,_,hslash,hpath,hmatch⟩ := matchSegments_some h
    exact ⟨segments, document_of_npm hslash hmatch hknown, (documentLine_other hpypi).trans hpath⟩
  | some found =>
    rw [hpypi, Option.some_or] at h
    cases h
    obtain ⟨init,hmatch,_,hline⟩ := documentLine_pypi hpypi
    exact ⟨init ++ [json], document_of_pypi hmatch hknown, hline⟩

theorem matched_of_documentLine {path : Str} {segments : List Str} {request : Request}
    (hdoc : Document segments request) (h : documentLine path = '/' :: ['/'].intercalate segments) :
    (pypiPackage path).or (npmPackage path) = some request := by
  obtain ⟨hne,hplain⟩ := hdoc.plain
  have hslash : ∀ seg ∈ segments, '/' ∉ seg := fun seg hseg => (hplain seg hseg).slash
  cases hpypi : pypiPackage path with
  | none =>
    have hpath : path = '/' :: ['/'].intercalate segments := (documentLine_other hpypi).symm.trans h
    rw [← hpypi, pypiPackage, npmPackage, hpath, matchSegments_intercalate _ hne hslash,
      matchSegments_intercalate _ hne hslash]
    exact hdoc.matched
  | some found =>
    obtain ⟨init,hmatch,hinit,hline⟩ := documentLine_pypi hpypi
    have hslash' : ∀ seg ∈ init ++ [json], '/' ∉ seg := by
      intro seg hseg
      rcases List.mem_append.mp hseg with hseg | hseg
      · exact hinit seg hseg
      · rw [List.mem_singleton.mp hseg]
        decide
    have hjoin := (List.cons.inj (hline.symm.trans h)).2
    obtain rfl := intercalate_injective hslash' hslash (by simp) hne hjoin
    have hmatched := hdoc.matched
    rw [hmatch, Option.some_or] at hmatched
    rw [Option.some_or, hmatched]

end DocumentLine

section Fetched

variable {nfkc : Str → Str} {base path url : Str}

theorem classified_slashes (path : Str) : ∃ n,
    unquote (splitParts path []).path = unquote (classified path) ++ List.replicate n '/' := by
  obtain ⟨n,hn⟩ := rstripSlash_append (splitParts path []).path
  refine ⟨n, ?_⟩
  conv_lhs => rw [hn]
  exact unquote_slashes _ n

theorem documentLine_eq (path : Str) :
    path = documentLine path ∨ path = documentLine path ++ ['\n'] := by
  rw [documentLine]
  split
  · next h => exact .inr (List.dropLast_append_getLast? '\n' h.2).symm
  · exact .inl rfl

theorem Verbatim.head {rest : Str} (h : Verbatim ('/' :: rest)) :
    ∃ c tail, rest = c :: tail ∧ c ≠ '/' ∧ 32 < c.toNat := by
  obtain ⟨c,tail,hjoin,hc⟩ := plain_head (List.splitOn_ne_nil '/' rest) h.segments
  rw [List.intercalate_splitOn] at hjoin
  exact ⟨c, tail, hjoin, hc, h.start c (by rw [List.drop_one, List.tail_cons, hjoin]; rfl)⟩

theorem reference_eq {rest eol : Str} {n : Nat} (h : Verbatim ('/' :: rest))
    (hpath : unquote (splitParts path []).path = '/' :: rest ++ eol ++ List.replicate n '/') :
    reference path =
      rest ++ (eol ++ (List.replicate n '/' ++ queryText (splitParts path []).query)) := by
  obtain ⟨c,tail,rfl,hc,_⟩ := h.head
  rw [reference, hpath, lstripSlash]
  simp only [List.cons_append, List.append_assoc]
  rw [List.dropWhile_cons_of_pos (by decide), List.dropWhile_cons_of_neg (by simpa using hc)]

theorem clean_reference {rest eol : Str} {n : Nat} (h : Verbatim ('/' :: rest))
    (heol : ∀ c ∈ eol, c = '\n')
    (hpath : unquote (splitParts path []).path = '/' :: rest ++ eol ++ List.replicate n '/') :
    clean (reference path) =
      (rest ++ List.replicate n '/') ++ queryText (splitParts path []).query := by
  have hreference := reference_eq h hpath
  have hhead : ∀ c ∈ (reference path).head?, 32 < c.toNat := by
    obtain ⟨c,tail,rfl,_,hc⟩ := h.head
    rw [hreference]
    rintro d ⟨⟩
    exact hc
  have hrest : ∀ c ∈ rest, c ∉ unsafeChars := fun c hc =>
    (pathChar_iff.mp (h.chars c (List.mem_cons_of_mem _ hc))).2.2
  have hslashes : ∀ c ∈ List.replicate n '/', c ∉ unsafeChars := by
    intro c hc
    rw [List.eq_of_mem_replicate hc]
    decide
  have hquery : ∀ c ∈ queryText (splitParts path []).query, c ∉ unsafeChars := by
    intro c hc
    rcases mem_queryText hc with rfl | hc
    · decide
    · exact ((splitParts_wellFormed path []).query c hc).2
  have hdropped : eol.filter (fun c => !unsafeChars.contains c) = [] :=
    List.filter_eq_nil_iff.mpr fun c hc => by rw [heol c hc]; decide
  rw [clean_eq_filter hhead, hreference, List.filter_append, List.filter_append,
    List.filter_append, filter_safe hrest, filter_safe hslashes, filter_safe hquery, hdropped,
    List.nil_append, List.append_assoc]

theorem splitParts_reference {rest eol : Str} {n : Nat} (h : Verbatim ('/' :: rest))
    (heol : ∀ c ∈ eol, c = '\n')
    (hpath : unquote (splitParts path []).path = '/' :: rest ++ eol ++ List.replicate n '/') :
    splitParts (reference path) https =
      { scheme := https, netloc := [], path := rest ++ List.replicate n '/'
        query := (splitParts path []).query, fragment := [] } := by
  have hslash : ∀ c ∈ (List.replicate n '/').head?, c ≠ ':' ∧ schemeChar c = false := by
    intro c hc
    rw [List.eq_of_mem_replicate (List.mem_of_head? hc)]
    decide
  refine splitParts_relative (clean_reference h heol hpath) (splitScheme_append h.scheme hslash)
    ?_ ?_ ?_
  · obtain ⟨c,tail,rfl,hc,_⟩ := h.head
    exact ⟨c, _, rfl, hc⟩
  · intro c hc
    rcases List.mem_append.mp hc with hc | hc
    · exact h.chars c (List.mem_cons_of_mem _ hc)
    · rw [List.eq_of_mem_replicate hc]
      decide
  · intro hmem
    exact ((splitParts_wellFormed path []).query _ hmem).1 rfl

theorem splitParams_rest {rest : Str} (h : Verbatim ('/' :: rest)) (n : Nat) :
    splitParams (rest ++ List.replicate n '/') = (rest ++ List.replicate n '/', []) := by
  cases n with
  | zero =>
    obtain ⟨last,hlast⟩ := Option.ne_none_iff_exists'.mp
      (mt List.getLast?_eq_none_iff.mp (List.splitOn_ne_nil '/' rest))
    have hslash : '/' ∉ last := slash_not_mem_splitOn (List.mem_of_getLast? hlast)
    have hparams : ';' ∉ last := h.params last hlast
    have hrest : ['/'].intercalate ((rest.splitOn '/').dropLast ++ [last]) = rest := by
      rw [List.dropLast_append_getLast? last hlast, List.intercalate_splitOn]
    rw [List.replicate_zero, List.append_nil, ← hrest]
    by_cases hinit : (rest.splitOn '/').dropLast = []
    · have hone := splitParams_last [] (by simp) hslash hparams
      simpa [hinit] using hone
    · have hfront := splitParams_last (['/'].intercalate (rest.splitOn '/').dropLast ++ ['/'])
        (by simp) hslash hparams
      rw [intercalate_append hinit, if_neg (List.cons_ne_nil _ _), List.intercalate_singleton]
      simpa using hfront
  | succ n =>
    have hfront : ∀ c ∈ (rest ++ List.replicate (n + 1) '/').getLast?, c = '/' := by
      simp [List.replicate_succ']
    have hend := splitParams_last _ hfront List.not_mem_nil List.not_mem_nil
    rwa [List.append_nil] at hend

theorem basePath_head {base : Str} (h : (splitParts (base ++ ['/']) []).netloc ≠ []) :
    ∀ c ∈ (basePath base).head?, c = '/' := by
  intro c hc
  obtain ⟨tail,htail⟩ := withParams_path_prefix (splitParts (base ++ ['/']) [])
  have hfirst : (splitParts (base ++ ['/']) []).withParams.path.head? = some c := hc
  refine splitParts_path_head h c ?_
  rw [← htail, List.head?_append, hfirst]
  rfl

theorem fetchedPath_eq {rest eol : Str} {n : Nat} (hbase : HttpsBase nfkc base)
    (h : Verbatim ('/' :: rest)) (heol : ∀ c ∈ eol, c = '\n')
    (hpath : unquote (splitParts path []).path = '/' :: rest ++ eol ++ List.replicate n '/')
    (hurl : underBase nfkc base path = .ok (some url)) :
    fetchedPath url = '/' :: ['/'].intercalate (baseSegments (basePath base) ++ rest.splitOn '/') := by
  obtain ⟨b,hb,hscheme,hn⟩ := hbase
  obtain ⟨d,hd,hdscheme,hdn,_⟩ := urlsplit_base_slash hb hn
  have hdne : d.netloc ≠ [] := by rwa [hdn]
  have href : reference path ≠ [] := by
    obtain ⟨c,tail,rfl,_,_⟩ := h.head
    rw [reference_eq h hpath]
    exact List.cons_ne_nil _ _
  have hparts := splitParts_reference h heol hpath
  have hsplit : urlsplit nfkc (reference path) https = .ok (splitParts (reference path) https) :=
    urlsplit_ok.mpr ⟨by rw [hparts]; rfl, rfl⟩
  have hjoin := (underBase_ok.mp hurl).2
  rw [urljoin_https hd (hdscheme.trans hscheme) hdne href, hsplit] at hjoin
  have hrscheme : (splitParts (reference path) https).scheme = https := by rw [hparts]
  have hfetched := (urlsplit_ok.mp (urlsplit_transform hd hdne hsplit hrscheme)).2
  have hurl : url = urlunsplit (transform d.withParams (splitParts (reference path) https).withParams) :=
    (Except.ok.inj hjoin).symm.trans (if_pos hrscheme)
  have hwith : (splitParts (reference path) https).withParams =
      { scheme := https, netloc := [], path := rest ++ List.replicate n '/'
        query := (splitParts path []).query, fragment := [], params := [] } := by
    have huses : usesParams.contains https = true := by decide
    rw [hparts]
    simp only [SplitResult.withParams, huses, if_true, splitParams_rest h n]
  have hdirectory : d.withParams.path = basePath base := by rw [basePath, (urlsplit_ok.mp hd).2]
  have htarget : targetPath d.withParams (splitParts (reference path) https).withParams =
      mergePath (basePath base) (rest ++ List.replicate n '/') := by
    obtain ⟨c,tail,rfl,_,_⟩ := h.head
    rw [hwith]
    simp [targetPath, ParseResult.NoPath, ParseResult.fullPath, hdirectory]
  have hne := List.splitOn_ne_nil '/' rest
  have hhead : ∀ c ∈ (basePath base).head?, c = '/' :=
    basePath_head (by rwa [(urlsplit_ok.mp hd).2])
  have hmerge := mergePath_relative hhead hne h.segments n
  rw [List.intercalate_splitOn] at hmerge
  rw [fetchedPath, hurl, hfetched, htarget, hmerge]
  rw [rstripSlash_relative _ hne h.segments n]
  exact slashed_fromRoot (fun dir => slash_not_mem_resolvedDirectory) hne h.segments

end Fetched

section DocumentVerbatim

variable {segments : List Str} {request : Request}

def npmChar (c : Char) : Bool := versionChar c || c = '@' || c = '/'

theorem npmChar_printable {c : Char} (h : npmChar c = true) : 32 < c.toNat := by
  have hlow : ∀ n ≤ 32, npmChar (Char.ofNat n) = false := by decide
  by_contra hc
  have hfalse := hlow c.toNat (by omega)
  rw [Char.ofNat_toNat, h] at hfalse
  cases hfalse

theorem npmChar_of_name {s : Str} (h : s.all nameChar = true) : ∀ c ∈ s, npmChar c = true := by
  intro c hc
  simp [npmChar, versionChar, List.all_eq_true.mp h c hc]

theorem npmChar_of_version {s : Str} (h : s.all versionChar = true) : ∀ c ∈ s, npmChar c = true := by
  intro c hc
  simp [npmChar, List.all_eq_true.mp h c hc]

theorem PackageName.chars {name : List Str} (h : PackageName name) :
    ∀ seg ∈ name, ∀ c ∈ seg, npmChar c = true := by
  intro seg hseg c hc
  cases h with
  | bare h =>
    rw [List.mem_singleton.mp hseg] at hc
    exact npmChar_of_name h.chars c hc
  | inScope h =>
    rcases List.mem_cons.mp hseg with rfl | hseg
    · rcases List.mem_cons.mp hc with rfl | hc
      · decide
      · exact npmChar_of_name h.scope.2 c hc
    · rw [List.mem_singleton.mp hseg] at hc
      exact npmChar_of_name h.chars c hc

theorem verbatim_of_npmChar (hne : segments ≠ []) (hplain : ∀ seg ∈ segments, Plain seg)
    (h : ∀ seg ∈ segments, ∀ c ∈ seg, npmChar c = true) :
    Verbatim ('/' :: ['/'].intercalate segments) := by
  have hsplit : (['/'].intercalate segments).splitOn '/' = segments :=
    List.splitOn_intercalate '/' (fun seg hseg => (hplain seg hseg).slash) hne
  have hall : ∀ c ∈ ['/'].intercalate segments, npmChar c = true := by
    intro c hc
    rcases mem_intercalate hc with rfl | ⟨seg,hseg,hc⟩
    · decide
    · exact h seg hseg c hc
  have hpath : ∀ c, npmChar c = true → pathChar c = true := by
    intro c hc
    refine pathChar_iff.mpr ⟨?_, ?_, ?_⟩
    · rintro rfl
      exact absurd hc (by decide)
    · rintro rfl
      exact absurd hc (by decide)
    · intro hmem
      rcases (by simpa [unsafeChars] using hmem : c = '\t' ∨ c = '\r' ∨ c = '\n') with rfl | rfl | rfl
      all_goals exact absurd hc (by decide)
  constructor
  · rfl
  · rw [List.drop_one, List.tail_cons, hsplit]
    exact hplain
  · intro c hc
    rcases List.mem_cons.mp hc with rfl | hc
    · decide
    · exact hpath c (hall c hc)
  · intro c hc
    exact npmChar_printable (hall c (List.mem_of_head? hc))
  · have hcolon : ':' ∉ ['/'].intercalate segments := fun hmem => absurd (hall _ hmem) (by decide)
    simp [splitScheme, hcolon]
  · intro last hlast hmem
    rw [List.drop_one, List.tail_cons, hsplit] at hlast
    exact absurd (h last (List.mem_of_getLast? hlast) ';' hmem) (by decide)

theorem plain_pypi : Plain pypi := plain_of_head (by decide) (by decide) (by decide)

theorem plain_json : Plain json := plain_of_head (by decide) (by decide) (by decide)

theorem verbatim_of_pypi {middle : List Str} (hplain : ∀ seg ∈ middle, Plain seg)
    (h : ∀ seg ∈ middle, ∀ c ∈ seg, pathChar c = true) :
    Verbatim ('/' :: ['/'].intercalate (pypi :: (middle ++ [json]))) := by
  have hplains : ∀ seg ∈ pypi :: (middle ++ [json]), Plain seg := by
    simp only [List.mem_cons, List.mem_append, List.not_mem_nil, or_false]
    rintro seg (rfl | hseg | rfl)
    · exact plain_pypi
    · exact hplain seg hseg
    · exact plain_json
  have hsplit : (['/'].intercalate (pypi :: (middle ++ [json]))).splitOn '/' =
      pypi :: (middle ++ [json]) :=
    List.splitOn_intercalate '/' (fun seg hseg => (hplains seg hseg).slash) (List.cons_ne_nil _ _)
  have hjoin : ['/'].intercalate (pypi :: (middle ++ [json])) =
      pypi ++ '/' :: ['/'].intercalate (middle ++ [json]) := by
    have happend := intercalate_append (List.cons_ne_nil pypi []) (middle ++ [json])
    rw [if_neg (List.append_ne_nil_of_right_ne_nil _ (List.cons_ne_nil _ _)),
      List.intercalate_singleton] at happend
    exact happend
  constructor
  · rfl
  · rw [List.drop_one, List.tail_cons, hsplit]
    exact hplains
  · intro c hc
    rcases List.mem_cons.mp hc with rfl | hc
    · decide
    · rcases mem_intercalate hc with rfl | ⟨seg,hseg,hc⟩
      · decide
      · simp only [List.mem_cons, List.mem_append, List.not_mem_nil, or_false] at hseg
        rcases hseg with rfl | hseg | rfl
        · exact List.all_eq_true.mp (by decide : pypi.all pathChar = true) c hc
        · exact h seg hseg c hc
        · exact List.all_eq_true.mp (by decide : json.all pathChar = true) c hc
  · rw [List.drop_one, List.tail_cons, hjoin]
    rintro c ⟨⟩
    decide
  · rw [List.drop_one, List.tail_cons, hjoin]
    refine splitScheme_append (by decide) ?_
    rintro c ⟨⟩
    decide
  · rw [List.drop_one, List.tail_cons, hsplit, ← List.cons_append, List.getLast?_concat]
    rintro last ⟨⟩
    decide

theorem Document.verbatim (h : Document segments request)
    (hname : request.ecosystem = pypi → ∀ c ∈ request.name ++ request.version, pathChar c = true) :
    Verbatim ('/' :: ['/'].intercalate segments) := by
  obtain ⟨hne,hplain⟩ := h.plain
  cases h with
  | npmLatest h => exact verbatim_of_npmChar hne hplain h.chars
  | npmVersion h hv =>
    refine verbatim_of_npmChar hne hplain fun seg hseg => ?_
    rcases List.mem_append.mp hseg with hseg | hseg
    · exact h.chars seg hseg
    · rw [List.mem_singleton.mp hseg]
      exact npmChar_of_version hv.chars
  | @pypiLatest name h =>
    have hchars := hname rfl
    have hplains : ∀ seg ∈ [name], Plain seg := by simpa using h
    have hsegs : ∀ seg ∈ [name], ∀ c ∈ seg, pathChar c = true := by
      simpa using fun c hc => hchars c (List.mem_append_left _ hc)
    exact verbatim_of_pypi hplains hsegs
  | @pypiVersion name version h hv =>
    have hchars := hname rfl
    have hplains : ∀ seg ∈ [name, version], Plain seg := by simpa using ⟨h, hv⟩
    have hsegs : ∀ seg ∈ [name, version], ∀ c ∈ seg, pathChar c = true := by
      simp only [List.mem_cons, List.not_mem_nil, or_false]
      rintro seg (rfl | rfl) c hc
      · exact hchars c (List.mem_append_left _ hc)
      · exact hchars c (List.mem_append_right _ hc)
    exact verbatim_of_pypi hplains hsegs

theorem Document.mem_path (h : Document segments request) {c : Char}
    (hc : c ∈ request.name ++ request.version) :
    c ∈ ['/'].intercalate segments ∨ c ∈ latestVersion := by
  cases h with
  | npmLatest h => exact List.mem_append.mp hc
  | @npmVersion name version h hv =>
    refine .inl ?_
    rw [intercalate_append h.plain.1, if_neg (List.cons_ne_nil _ _), List.intercalate_singleton]
    rcases List.mem_append.mp hc with hc | hc
    · exact List.mem_append_left _ hc
    · exact List.mem_append_right _ (List.mem_cons_of_mem _ hc)
  | pypiLatest h =>
    rcases List.mem_append.mp hc with hc | hc
    · exact .inl (mem_intercalate_of_mem (by simp) hc)
    · exact .inr hc
  | pypiVersion h hv =>
    rcases List.mem_append.mp hc with hc | hc
    · exact .inl (mem_intercalate_of_mem (by simp) hc)
    · exact .inl (mem_intercalate_of_mem (by simp) hc)

end DocumentVerbatim

section Scanned

variable {U : Unicode} {nfkc : Str → Str} {config : FirewallConfig} {path url : Str}
  {request : Request}

theorem classifyPath_ok {found : Option Request} (h : classifyPath U nfkc path = .ok found) :
    found = if staticExtension U (classified path) then none
      else (pypiPackage (unquote (classified path))).or (npmPackage (unquote (classified path))) := by
  rw [classifyPath] at h
  obtain ⟨parts,hparts,h⟩ := bind_eq_ok.mp h
  obtain rfl := (urlsplit_ok.mp hparts).2
  rw [classified]
  dsimp only at h
  split at h
  · next hstatic =>
    cases h
    exact (if_pos hstatic).symm
  · next hstatic =>
    refine Eq.trans ?_ (if_neg hstatic).symm
    cases hpypi : pypiPackage (unquote (PosixPath.rstripSlash (splitParts path []).path)) with
    | none =>
      rw [hpypi] at h
      cases h
      rfl
    | some request =>
      rw [hpypi] at h
      cases h
      rfl

theorem pypiPackage_ecosystem {decoded : Str} (h : pypiPackage decoded = some request) :
    request.ecosystem = pypi := by
  obtain ⟨segments,_,_,_,hmatch⟩ := matchSegments_some h
  exact (pypiSegments_inv hmatch).1

theorem npmPackage_ecosystem {decoded : Str} (h : npmPackage decoded = some request) :
    request.ecosystem = npm := by
  obtain ⟨segments,_,_,_,hmatch⟩ := matchSegments_some h
  exact (npmSegments_inv hmatch).1

theorem underBase_of_requestedUrl (h : requestedUrl U nfkc config path = .ok (some url))
    (hstatic : staticExtension U (classified path) = false) :
    underBase nfkc (baseOf config path (unquote (classified path))) path = .ok (some url) := by
  rw [requestedUrl] at h
  obtain ⟨found,hfound,h⟩ := bind_eq_ok.mp h
  have hfound := classifyPath_ok hfound
  rw [hstatic, if_neg Bool.false_ne_true] at hfound
  rw [baseOf]
  cases hpypi : pypiPackage (unquote (classified path)) with
  | some request =>
    rw [hpypi, Option.some_or] at hfound
    subst hfound
    have hbase : config.base request.ecosystem = config.upstreamPypi := by
      rw [FirewallConfig.base, pypiPackage_ecosystem hpypi]
      exact if_neg npm_ne_pypi.symm
    rw [← hbase]
    exact h
  | none =>
    rw [hpypi, Option.none_or] at hfound
    cases hnpm : npmPackage (unquote (classified path)) with
    | some request =>
      rw [hnpm] at hfound
      subst hfound
      have hbase : config.base request.ecosystem = config.upstreamNpm := by
        rw [FirewallConfig.base, npmPackage_ecosystem hnpm]
        exact if_pos rfl
      rw [← hbase]
      exact h
    | none =>
      rw [hnpm] at hfound
      subst hfound
      exact h

theorem Document.npm_shape {segments : List Str} (h : Document segments request)
    (heco : request.ecosystem = npm) : ∃ name, PackageName name ∧
      request.name = ['/'].intercalate name ∧
      ((segments = name ∧ request.version = latestVersion) ∨ segments = name ++ [request.version]) := by
  cases h with
  | npmLatest h => exact ⟨_, h, rfl, .inl ⟨rfl, rfl⟩⟩
  | npmVersion h hv => exact ⟨_, h, rfl, .inr rfl⟩
  | pypiLatest _ => exact absurd heco.symm npm_ne_pypi
  | pypiVersion _ _ => exact absurd heco.symm npm_ne_pypi

theorem Document.pypi_shape {segments : List Str} (h : Document segments request)
    (heco : request.ecosystem = pypi) :
    (segments = [pypi, request.name, json] ∧ request.version = latestVersion) ∨
      segments = [pypi, request.name, request.version, json] := by
  cases h with
  | npmLatest _ => exact absurd heco npm_ne_pypi
  | npmVersion _ _ => exact absurd heco npm_ne_pypi
  | pypiLatest _ => exact .inl ⟨rfl, rfl⟩
  | pypiVersion _ _ => exact .inr rfl

theorem Document.ecosystem {segments : List Str} (h : Document segments request) :
    request.ecosystem = npm ∨ request.ecosystem = pypi := by
  cases h with
  | npmLatest _ => exact .inl rfl
  | npmVersion _ _ => exact .inl rfl
  | pypiLatest _ => exact .inr rfl
  | pypiVersion _ _ => exact .inr rfl

theorem package_below {below name : List Str} (h : PackageName name)
    (heq : below ++ name = name ++ [latestVersion]) : below = [latestVersion] ∧ name = [latestVersion] := by
  cases h with
  | bare h =>
    obtain ⟨rfl,hlast⟩ := List.append_inj' heq rfl
    rw [hlast]
    exact ⟨rfl, rfl⟩
  | @inScope scope name h =>
    have hlength := congrArg List.length heq
    simp only [List.length_append, List.length_cons, List.length_nil] at hlength
    obtain ⟨first,rfl⟩ := List.length_eq_one_iff.mp (by omega : below.length = 1)
    have hname : '@' :: scope = name := (List.cons.inj (List.cons.inj heq).2).1
    exact absurd (hname ▸ List.mem_cons_self) (not_mem_of_all h.chars (by decide : nameChar '@' = false))

theorem document_below {below segments : List Str} (h : Document (below ++ segments) request)
    (hdoc : Document segments request) :
    below = [] ∨ (below = [latestVersion] ∧ segments = [latestVersion]) := by
  rcases hdoc.ecosystem with heco | heco
  · obtain ⟨name,hname,hjoin,hshape⟩ := hdoc.npm_shape heco
    obtain ⟨name',hname',hjoin',hshape'⟩ := h.npm_shape heco
    obtain rfl := intercalate_injective (fun seg hseg => (hname.plain.2 seg hseg).slash)
      (fun seg hseg => (hname'.plain.2 seg hseg).slash) hname.plain.1 hname'.plain.1
      (hjoin.symm.trans hjoin')
    rcases hshape with ⟨rfl,hversion⟩ | rfl
    · rcases hshape' with ⟨heq,_⟩ | heq
      · exact .inl (List.append_left_eq_self.mp heq)
      · rw [hversion] at heq
        exact .inr (package_below hname heq)
    · rcases hshape' with ⟨heq,_⟩ | heq
      · have hlength := congrArg List.length heq
        simp only [List.length_append, List.length_singleton] at hlength
        omega
      · exact .inl (List.append_left_eq_self.mp heq)
  · rcases hdoc.pypi_shape heco with ⟨rfl,hversion⟩ | rfl
    · rcases h.pypi_shape heco with ⟨heq,_⟩ | heq
      · exact .inl (List.append_left_eq_self.mp heq)
      · have hlength := congrArg List.length heq
        simp only [List.length_append, List.length_cons, List.length_nil] at hlength
        obtain ⟨first,rfl⟩ := List.length_eq_one_iff.mp (by omega : below.length = 1)
        have hrest := (List.cons.inj heq).2
        have hname : pypi = request.name := (List.cons.inj hrest).1
        have hlatest : request.name = request.version :=
          (List.cons.inj (List.cons.inj hrest).2).1
        rw [hversion, ← hname] at hlatest
        exact absurd hlatest (by decide)
    · rcases h.pypi_shape heco with ⟨heq,_⟩ | heq
      · have hlength := congrArg List.length heq
        simp only [List.length_append, List.length_cons] at hlength
        omega
      · exact .inl (List.append_left_eq_self.mp heq)

theorem pathChar_fetchedPath (url : Str) : ∀ c ∈ fetchedPath url, pathChar c = true := by
  intro c hc
  exact pathChar_iff.mpr ((splitParts_wellFormed url []).path c ((List.rdropWhile_prefix _ _).subset hc))

theorem fetchedPath_of_verbatim (hnpm : HttpsBase nfkc config.upstreamNpm)
    (hpypi : HttpsBase nfkc config.upstreamPypi)
    (hurl : requestedUrl U nfkc config path = .ok (some url))
    (hstatic : staticExtension U (classified path) = false)
    (hverbatim : Verbatim (documentLine (unquote (classified path)))) :
    ∃ rest, documentLine (unquote (classified path)) = '/' :: rest ∧ fetchedPath url =
      '/' :: ['/'].intercalate
        (baseSegments (basePath (baseOf config path (unquote (classified path)))) ++
          rest.splitOn '/') := by
  obtain ⟨rest,hrest⟩ := List.head?_eq_some_iff.mp hverbatim.rooted
  refine ⟨rest, hrest, ?_⟩
  rw [hrest] at hverbatim
  have hbase : HttpsBase nfkc (baseOf config path (unquote (classified path))) := by
    rw [baseOf, FirewallConfig.guessedBase]
    split
    · exact hpypi
    · split
      · exact hnpm
      · split
        · exact hpypi
        · exact hnpm
  obtain ⟨n,hn⟩ := classified_slashes path
  have hjoin := underBase_of_requestedUrl hurl hstatic
  rcases documentLine_eq (unquote (classified path)) with heq | heq
  · have hpath : unquote (splitParts path []).path = '/' :: rest ++ [] ++ List.replicate n '/' := by
      rw [hn, List.append_nil, ← hrest, ← heq]
    exact fetchedPath_eq hbase hverbatim (by simp) hpath hjoin
  · have hpath : unquote (splitParts path []).path = '/' :: rest ++ ['\n'] ++ List.replicate n '/' := by
      rw [hn, ← hrest, ← heq]
    exact fetchedPath_eq hbase hverbatim (by simp) hpath hjoin

theorem segments_of_fetched {below segments : List Str} {rest fetched : Str}
    (hbelow : ∀ dir ∈ below, '/' ∉ dir) (hne : segments ≠ []) (hplain : ∀ seg ∈ segments, Plain seg)
    (hfetched : fetched = '/' :: ['/'].intercalate segments)
    (hpath : fetched = '/' :: ['/'].intercalate (below ++ rest.splitOn '/')) :
    segments = below ++ rest.splitOn '/' := by
  refine intercalate_injective (fun seg hseg => (hplain seg hseg).slash) ?_ hne
    (List.append_ne_nil_of_right_ne_nil _ (List.splitOn_ne_nil _ _))
    (List.cons.inj (hfetched.symm.trans hpath)).2
  intro seg hseg
  rcases List.mem_append.mp hseg with hseg | hseg
  · exact hbelow seg hseg
  · exact slash_not_mem_splitOn hseg

theorem document_latest (h : Document [latestVersion, latestVersion] request) : Document [latestVersion] request := by
  have hfound : (pypiSegments [latestVersion, latestVersion]).or (npmSegments [latestVersion, latestVersion]) =
      some ⟨npm, latestVersion, latestVersion⟩ := by decide
  have hlatest : UnscopedName latestVersion := ⟨by decide, by decide, by decide⟩
  obtain rfl := Option.some.inj (hfound.symm.trans h.matched)
  exact .npmLatest (.bare hlatest)

theorem document_scanned_iff (hnpm : HttpsBase nfkc config.upstreamNpm)
    (hpypi : HttpsBase nfkc config.upstreamPypi)
    (hurl : requestedUrl U nfkc config path = .ok (some url))
    (hdoc : DocumentAt (fetchedPath url) request) :
    classifyPath U nfkc path = .ok (some request) ↔ Faithful U config path := by
  obtain ⟨segments,hsegments,hfetched⟩ := hdoc
  obtain ⟨hne,hplain⟩ := hsegments.plain
  constructor
  · intro hclassify
    have hfound := classifyPath_ok hclassify
    have hstatic : staticExtension U (classified path) = false := by
      by_contra hstatic
      rw [if_pos (Bool.not_eq_false _ ▸ hstatic)] at hfound
      cases hfound
    rw [hstatic, if_neg Bool.false_ne_true] at hfound
    obtain ⟨found,hdoc,hline⟩ := documentLine_of_matched hfound.symm hsegments.known
    have hchars : ∀ c ∈ request.name ++ request.version, pathChar c = true := by
      intro c hc
      rcases hsegments.mem_path hc with hc | hc
      · refine pathChar_fetchedPath url c ?_
        rw [hfetched]
        exact List.mem_cons_of_mem _ hc
      · exact List.all_eq_true.mp (by decide : latestVersion.all pathChar = true) c hc
    have hverbatim := hdoc.verbatim fun _ => hchars
    rw [← hline] at hverbatim
    obtain ⟨rest,hrest,hpath⟩ := fetchedPath_of_verbatim hnpm hpypi hurl hstatic hverbatim
    have hsegs := segments_of_fetched (fun dir => slash_not_mem_baseSegments) hne hplain hfetched hpath
    have hfoundSegments : rest.splitOn '/' = found := by
      rw [(List.cons.inj (hrest.symm.trans hline)).2]
      exact List.splitOn_intercalate '/' (fun seg hseg => (hdoc.plain.2 seg hseg).slash) hdoc.plain.1
    rw [hsegs, hfoundSegments] at hsegments
    refine ⟨hstatic, hverbatim, ?_⟩
    rcases document_below hsegments hdoc with hroot | ⟨hbelow,hone⟩
    · exact .inl hroot
    · refine .inr ⟨hbelow, ?_⟩
      rw [hline, hone, List.intercalate_singleton]
  · rintro ⟨hstatic,hverbatim,hlocated⟩
    obtain ⟨rest,hline,hpath⟩ := fetchedPath_of_verbatim hnpm hpypi hurl hstatic hverbatim
    have hsegs := segments_of_fetched (fun dir => slash_not_mem_baseSegments) hne hplain hfetched hpath
    rw [hsegs] at hsegments
    have hdoc : Document (rest.splitOn '/') request := by
      rcases hlocated with hroot | ⟨hbelow,hone⟩
      · rwa [hroot] at hsegments
      · have hrest : rest.splitOn '/' = [latestVersion] := by
          rw [(List.cons.inj (hline.symm.trans hone)).2]
          decide
        rw [hbelow, hrest] at hsegments
        rw [hrest]
        exact document_latest hsegments
    have hmatched := matched_of_documentLine hdoc (hline.trans (by rw [List.intercalate_splitOn]))
    rw [requestedUrl] at hurl
    obtain ⟨found,hclassify,_⟩ := bind_eq_ok.mp hurl
    have hfound := classifyPath_ok hclassify
    rw [hstatic, if_neg Bool.false_ne_true, hmatched] at hfound
    rw [hclassify, hfound]

theorem documentAt_bare {name : Str} (h : UnscopedName name) :
    DocumentAt ('/' :: name) ⟨npm, name, latestVersion⟩ := by
  have hdoc : Document [name] ⟨npm, ['/'].intercalate [name], latestVersion⟩ := .npmLatest (.bare h)
  rw [List.intercalate_singleton] at hdoc
  exact ⟨[name], hdoc, by rw [List.intercalate_singleton]⟩

theorem document_scanned_lodash :
    requestedUrl .basic id .default "/lodash".toList =
        .ok (some "https://registry.npmjs.org/lodash".toList) ∧
      DocumentAt (fetchedPath "https://registry.npmjs.org/lodash".toList)
        ⟨npm, "lodash".toList, latestVersion⟩ ∧
      classifyPath .basic id "/lodash".toList = .ok (some ⟨npm, "lodash".toList, latestVersion⟩) := by
  have hurl : requestedUrl .basic id .default "/lodash".toList =
      .ok (some "https://registry.npmjs.org/lodash".toList) := by decide
  have hdoc : DocumentAt (fetchedPath "https://registry.npmjs.org/lodash".toList)
      ⟨npm, "lodash".toList, latestVersion⟩ := by
    have hpath : fetchedPath "https://registry.npmjs.org/lodash".toList = '/' :: "lodash".toList := by
      decide
    rw [hpath]
    exact documentAt_bare ⟨by decide, by decide, by decide⟩
  refine ⟨hurl, hdoc, (document_scanned_iff httpsBase_default.1 httpsBase_default.2 hurl hdoc).mpr ?_⟩
  have hstart : ∀ c ∈ ("/lodash".toList.drop 1).head?, 32 < c.toNat := by
    rintro c ⟨⟩
    decide
  refine ⟨by decide, ⟨by decide, ?_, forall_mem_of_all (by decide), hstart, by decide, by decide⟩, .inl (by decide)⟩
  exact List.forall_mem_singleton.mpr ⟨by decide, by decide, by decide, by decide⟩

theorem package_named_like_a_file_streams :
    ¬∀ (U : Unicode) (nfkc : Str → Str) (config : FirewallConfig),
      HttpsBase nfkc config.upstreamNpm → HttpsBase nfkc config.upstreamPypi →
      ∀ path url request, requestedUrl U nfkc config path = .ok (some url) →
        DocumentAt (fetchedPath url) request →
        classifyPath U nfkc path = .ok (some request) := by
  intro h
  have hurl : requestedUrl .basic id .default "/chart.js".toList =
      .ok (some "https://registry.npmjs.org/chart.js".toList) := by decide
  have hpath : fetchedPath "https://registry.npmjs.org/chart.js".toList =
      '/' :: "chart.js".toList := by decide
  have hname : UnscopedName "chart.js".toList := ⟨by decide, by decide, by decide⟩
  have hdoc := documentAt_bare hname
  rw [← hpath] at hdoc
  have hclassify := h .basic id .default httpsBase_default.1 httpsBase_default.2 _ _ _ hurl hdoc
  have hnone : classifyPath .basic id "/chart.js".toList = .ok none := by decide
  rw [hnone] at hclassify
  cases hclassify

end Scanned

end PicoSentry.Firewall.MetadataScanned
