import Mathlib.Data.List.DropRight
import PicoSentry.Foundation.Directory
import PicoSentry.Foundation.UrlResolve

namespace PicoSentry.Foundation.Url

section Reference

theorem splitScheme_append {s t : Str} (h : splitScheme s = none)
    (ht : ∀ c ∈ t.head?, c ≠ ':' ∧ schemeChar c = false) : splitScheme (s ++ t) = none := by
  by_cases hcolon : ':' ∈ s
  · have hpart := partition_append_of_mem hcolon t
    have hfront : (s ++ t).takeWhile (fun c => c ≠ ':') = s.takeWhile (fun c => c ≠ ':') :=
      congrArg Prod.fst hpart
    have hcontains : (s ++ t).contains ':' = s.contains ':' := by simp [hcolon]
    simp only [splitScheme, hfront, hcontains] at h ⊢
    split at h
    · cases h
    · next hnot => rw [if_neg hnot]
  · cases t with
    | nil => rwa [List.append_nil]
    | cons c t =>
      obtain ⟨hc,hscheme⟩ := ht c rfl
      have hne : ∀ d ∈ s, decide (d ≠ ':') = true := fun d hd =>
        decide_eq_true fun hdc => hcolon (hdc ▸ hd)
      have hmem : c ∈ (s ++ c :: t).takeWhile (fun c => c ≠ ':') := by
        rw [List.takeWhile_append_of_pos hne, List.takeWhile_cons_of_pos (by simpa using hc)]
        exact List.mem_append_right _ List.mem_cons_self
      have hall : ((s ++ c :: t).takeWhile fun c => c ≠ ':').all schemeChar = false :=
        List.all_eq_false.mpr ⟨c, hmem, by simp [hscheme]⟩
      simp only [splitScheme, hall, Bool.and_false, Bool.false_eq_true, if_false]

theorem splitParts_relative {url path query scheme : Str} (hclean : clean url = path ++ queryText query)
    (hscheme : splitScheme path = none) (hhead : ∃ c rest, path = c :: rest ∧ c ≠ '/')
    (hpath : ∀ c ∈ path, pathChar c = true) (hquery : '#' ∉ query) :
    splitParts url scheme = { scheme, netloc := [], path, query, fragment := [] } := by
  have hqueryHead : ∀ c ∈ (queryText query).head?, c ≠ ':' ∧ schemeChar c = false := by
    intro c hc
    rw [queryText] at hc
    split at hc
    · cases hc
      decide
    · cases hc
  have hnone := splitScheme_append hscheme hqueryHead
  have hnetloc : splitNetloc (path ++ queryText query) = ([], path ++ queryText query) := by
    obtain ⟨c,rest,rfl,hc⟩ := hhead
    refine if_neg fun htake => hc ?_
    exact (List.cons.inj htake).1
  have hhash : '#' ∉ path ++ queryText query := by
    intro hmem
    rcases List.mem_append.mp hmem with hmem | hmem
    · exact (pathChar_iff.mp (hpath _ hmem)).2.1 rfl
    · rcases mem_queryText hmem with hq | hmem
      · exact absurd hq (by decide)
      · exact hquery hmem
  have hmark : '?' ∉ path := fun hmem => (pathChar_iff.mp (hpath _ hmem)).1 rfl
  simp only [splitParts, hclean, hnone, Option.getD_none, hnetloc, partition_of_not_mem hhash,
    partition_queryText hmark]

theorem splitParams_last (front : Str) {last : Str} (hfront : ∀ c ∈ front.getLast?, c = '/')
    (hslash : '/' ∉ last) (hparams : ';' ∉ last) :
    splitParams (front ++ last) = (front ++ last, []) := by
  have hne : ∀ c ∈ last.reverse, decide (c ≠ '/') = true := fun c hc =>
    decide_eq_true fun heq => hslash (heq ▸ List.mem_reverse.mp hc)
  have hstop : front.reverse.takeWhile (fun c => c ≠ '/') = [] ∧
      front.reverse.dropWhile (fun c => c ≠ '/') = front.reverse := by
    cases hrev : front.reverse with
    | nil => exact ⟨rfl, rfl⟩
    | cons c rest =>
      have hc : c = '/' := hfront c (by rw [← List.head?_reverse, hrev]; rfl)
      rw [hc]
      exact ⟨List.takeWhile_cons_of_neg (by simp), List.dropWhile_cons_of_neg (by simp)⟩
  simp only [splitParams, List.reverse_append, List.takeWhile_append_of_pos hne,
    List.dropWhile_append_of_pos hne, hstop.1, hstop.2, List.append_nil, List.reverse_reverse,
    partition_of_not_mem hparams]

end Reference

section Segments

theorem splitOn_slashes (s : Str) (n : Nat) :
    (s ++ List.replicate n '/').splitOn '/' = s.splitOn '/' ++ List.replicate n [] := by
  induction n with
  | zero => simp
  | succ n ih =>
    rw [List.replicate_succ', ← List.append_assoc, List.splitOn_append_cons_self, ih,
      List.splitOn_nil, List.append_assoc, ← List.replicate_succ']

-- A segment that the resolution of a reference keeps as it stands.
structure Plain (seg : Str) : Prop where
  nonempty : seg ≠ []
  slash : '/' ∉ seg
  dot : seg ≠ ['.']
  dotDot : seg ≠ ['.', '.']

theorem foldl_resolveSegment {segments : List Str}
    (h : ∀ seg ∈ segments, seg ≠ ['.'] ∧ seg ≠ ['.', '.']) (resolved : List Str) :
    segments.foldl resolveSegment resolved = resolved ++ segments := by
  induction segments generalizing resolved with
  | nil => rw [List.append_nil]; rfl
  | cons seg segments ih =>
    obtain ⟨hdot,hdotDot⟩ := h seg List.mem_cons_self
    have hstep : resolveSegment resolved seg = resolved ++ [seg] := by
      rw [resolveSegment, if_neg hdotDot, if_neg hdot]
    rw [List.foldl_cons, hstep, ih (fun s hs => h s (List.mem_cons_of_mem _ hs)), List.append_assoc]
    rfl

theorem intercalate_append {xs : List Str} (hx : xs ≠ []) (ys : List Str) :
    ['/'].intercalate (xs ++ ys) =
      ['/'].intercalate xs ++ if ys = [] then [] else '/' :: ['/'].intercalate ys := by
  induction xs with
  | nil => exact absurd rfl hx
  | cons x xs ih =>
    cases xs with
    | nil =>
      cases ys with
      | nil => simp
      | cons y ys => simp [List.intercalate_cons_cons]
    | cons x' xs =>
      rw [List.cons_append, List.cons_append, List.intercalate_cons_cons,
        List.intercalate_cons_cons, ← List.cons_append, ih (by simp), List.append_assoc,
        List.append_assoc, List.append_assoc]

def resolvedDirectory (basePath : Str) : List Str :=
  (match directory basePath with
    | [] => []
    | first :: rest => first :: rest.filter (· ≠ [])).foldl resolveSegment []

theorem directory_ne_nil {basePath : Str} (h : ∀ c ∈ basePath.head?, c = '/') :
    directory basePath ≠ [] := by
  have hparts : basePath.splitOn '/' = [[]] ∨ ∃ seg rest, basePath.splitOn '/' = [] :: seg :: rest := by
    cases basePath with
    | nil => exact .inl rfl
    | cons c basePath =>
      obtain ⟨seg,rest,hrest⟩ := List.exists_cons_of_ne_nil (List.splitOn_ne_nil '/' basePath)
      have hsplit : ('/' :: basePath).splitOn '/' = [] :: basePath.splitOn '/' :=
        List.splitOn_append_cons_self [] basePath
      rw [h c rfl]
      exact .inr ⟨seg, rest, hsplit.trans (congrArg _ hrest)⟩
  rcases hparts with hparts | ⟨seg,rest,hparts⟩
  · simp [directory, hparts]
  · simp only [directory, hparts]
    split
    · exact List.cons_ne_nil _ _
    · exact List.cons_ne_nil _ _

def slashEnd (n : Nat) : List Str := if n = 0 then [] else [[]]

theorem dropInnerEmpty_concat (first last : Str) (inner : List Str) :
    dropInnerEmpty (first :: (inner ++ [last])) = first :: inner.filter (· ≠ []) ++ [last] := by
  simp [dropInnerEmpty]

theorem dropInnerEmpty_slashes {first : Str} {rest segments : List Str} (hne : segments ≠ [])
    (h : ∀ seg ∈ segments, seg ≠ []) (n : Nat) :
    dropInnerEmpty (first :: rest ++ (segments ++ List.replicate n [])) =
      first :: rest.filter (· ≠ []) ++ segments ++ slashEnd n := by
  have hkeep : ∀ xs : List Str, (∀ seg ∈ xs, seg ≠ []) → xs.filter (· ≠ []) = xs :=
    fun xs hxs => List.filter_eq_self.mpr fun seg hseg => decide_eq_true (hxs seg hseg)
  cases n with
  | zero =>
    obtain ⟨last,hlast⟩ := Option.ne_none_iff_exists'.mp (mt List.getLast?_eq_none_iff.mp hne)
    have hsegments := List.dropLast_append_getLast? last hlast
    have hinit := hkeep segments.dropLast fun seg hseg => h seg (List.mem_of_mem_dropLast hseg)
    have hshape : first :: rest ++ (segments ++ List.replicate 0 []) =
        first :: ((rest ++ segments.dropLast) ++ [last]) := by
      rw [List.append_assoc, hsegments]
      simp
    rw [hshape, dropInnerEmpty_concat, List.filter_append, hinit]
    simp [slashEnd, hsegments]
  | succ n =>
    have hshape : first :: rest ++ (segments ++ List.replicate (n + 1) []) =
        first :: ((rest ++ segments ++ List.replicate n []) ++ [[]]) := by
      simp [List.replicate_succ']
    have hempty : (List.replicate n ([] : Str)).filter (· ≠ []) = [] := by simp
    rw [hshape, dropInnerEmpty_concat, List.filter_append, List.filter_append, hkeep segments h,
      hempty]
    simp [slashEnd]

theorem Plain.head {seg : Str} (h : Plain seg) : ∃ c rest, seg = c :: rest ∧ c ≠ '/' := by
  obtain ⟨c,rest,rfl⟩ := List.exists_cons_of_ne_nil h.nonempty
  exact ⟨c, rest, rfl, fun hc => h.slash (hc ▸ List.mem_cons_self)⟩

theorem plain_head {segments : List Str} (hne : segments ≠ []) (h : ∀ seg ∈ segments, Plain seg) :
    ∃ c rest, ['/'].intercalate segments = c :: rest ∧ c ≠ '/' := by
  obtain ⟨seg,rest,rfl⟩ := List.exists_cons_of_ne_nil hne
  obtain ⟨c,tail,rfl,hc⟩ := (h seg List.mem_cons_self).head
  have hjoin := intercalate_append (List.cons_ne_nil (c :: tail) []) rest
  rw [List.intercalate_singleton, List.singleton_append] at hjoin
  exact ⟨c, _, hjoin, hc⟩

theorem plain_last {segments : List Str} (hne : segments ≠ []) (h : ∀ seg ∈ segments, Plain seg) :
    ∃ c, (['/'].intercalate segments).getLast? = some c ∧ c ≠ '/' := by
  obtain ⟨last,hlast⟩ := Option.ne_none_iff_exists'.mp (mt List.getLast?_eq_none_iff.mp hne)
  have hplain := h last (List.mem_of_getLast? hlast)
  obtain ⟨c,hc⟩ := Option.ne_none_iff_exists'.mp (mt List.getLast?_eq_none_iff.mp hplain.nonempty)
  refine ⟨c, ?_, fun hslash => hplain.slash (hslash ▸ List.mem_of_getLast? hc)⟩
  rw [← List.dropLast_append_getLast? last hlast]
  cases hinit : segments.dropLast with
  | nil => rw [List.nil_append, List.intercalate_singleton, hc]
  | cons first rest =>
    rw [intercalate_append (List.cons_ne_nil first rest), if_neg (List.cons_ne_nil last []),
      List.intercalate_singleton, List.getLast?_append, List.getLast?_cons, hc]
    rfl

theorem intercalate_ne_nil {segments : List Str} {seg : Str} (hseg : seg ∈ segments)
    (hne : seg ≠ []) : ['/'].intercalate segments ≠ [] := by
  obtain ⟨c,rest,rfl⟩ := List.exists_cons_of_ne_nil hne
  exact List.ne_nil_of_mem (mem_intercalate_of_mem hseg List.mem_cons_self)

theorem resolve_append {dirs kept : List Str} (hne : kept ≠ [])
    (h : ∀ seg ∈ kept, seg ≠ ['.'] ∧ seg ≠ ['.', '.']) :
    resolve (dirs ++ kept) = dirs.foldl resolveSegment [] ++ kept := by
  have hlast : ¬((dirs ++ kept).getLast? = some ['.'] ∨ (dirs ++ kept).getLast? = some ['.', '.']) := by
    rw [List.getLast?_append_of_ne_nil _ hne]
    rintro (hdot | hdot)
    · exact (h _ (List.mem_of_getLast? hdot)).1 rfl
    · exact (h _ (List.mem_of_getLast? hdot)).2 rfl
  simp only [resolve, if_neg hlast, List.foldl_append]
  exact foldl_resolveSegment h _

theorem mergePath_relative {basePath : Str} {segments : List Str}
    (hbase : ∀ c ∈ basePath.head?, c = '/') (hne : segments ≠ []) (h : ∀ seg ∈ segments, Plain seg)
    (n : Nat) : mergePath basePath (['/'].intercalate segments ++ List.replicate n '/') =
      ['/'].intercalate (resolvedDirectory basePath ++ segments ++ slashEnd n) := by
  obtain ⟨first,rest,hdirectory⟩ := List.exists_cons_of_ne_nil (directory_ne_nil hbase)
  have hsplit : (['/'].intercalate segments).splitOn '/' = segments :=
    List.splitOn_intercalate '/' (fun seg hseg => (h seg hseg).slash) hne
  have hhead : (['/'].intercalate segments ++ List.replicate n '/').head? ≠ some '/' := by
    obtain ⟨c,tail,hjoin,hc⟩ := plain_head hne h
    rw [hjoin]
    exact fun heq => hc (Option.some.inj heq)
  have hmerge : mergeSegments basePath (['/'].intercalate segments ++ List.replicate n '/') =
      first :: rest.filter (· ≠ []) ++ (segments ++ slashEnd n) := by
    rw [mergeSegments, if_neg hhead, splitOn_slashes, hsplit, hdirectory,
      dropInnerEmpty_slashes hne (fun seg hseg => (h seg hseg).nonempty), List.append_assoc]
  have hkept : ∀ seg ∈ segments ++ slashEnd n, seg ≠ ['.'] ∧ seg ≠ ['.', '.'] := by
    intro seg hseg
    rcases List.mem_append.mp hseg with hseg | hseg
    · exact ⟨(h seg hseg).dot, (h seg hseg).dotDot⟩
    · rw [slashEnd] at hseg
      split at hseg
      · cases hseg
      · rw [List.mem_singleton.mp hseg]
        exact ⟨by decide, by decide⟩
  have hresolve : resolve (first :: rest.filter (· ≠ []) ++ (segments ++ slashEnd n)) =
      resolvedDirectory basePath ++ segments ++ slashEnd n := by
    rw [resolve_append (List.append_ne_nil_of_left_ne_nil hne _) hkept, resolvedDirectory,
      hdirectory, List.append_assoc]
  have hjoined : ['/'].intercalate (resolvedDirectory basePath ++ segments ++ slashEnd n) ≠ [] := by
    obtain ⟨seg,hseg⟩ := List.exists_mem_of_ne_nil segments hne
    exact intercalate_ne_nil (List.mem_append_left _ (List.mem_append_right _ hseg))
      (h seg hseg).nonempty
  rw [mergePath, hmerge, hresolve]
  exact if_neg hjoined

def fromRoot : List Str → List Str
  | [] :: dirs => dirs
  | dirs => dirs

def baseSegments (basePath : Str) : List Str := fromRoot (resolvedDirectory basePath)

theorem slash_not_mem_splitOn {s seg : Str} (h : seg ∈ s.splitOn '/') : '/' ∉ seg := by
  induction s generalizing seg with
  | nil =>
    rw [List.splitOn_nil] at h
    rw [List.mem_singleton.mp h]
    exact List.not_mem_nil
  | cons c s ih =>
    rw [List.splitOn_cons_eq_if_modifyHead] at h
    obtain ⟨first,rest,hrest⟩ := List.exists_cons_of_ne_nil (List.splitOn_ne_nil '/' s)
    split at h
    · rcases List.mem_cons.mp h with rfl | h
      · exact List.not_mem_nil
      · exact ih h
    · next hc =>
      rw [hrest, List.modifyHead_cons] at h
      rcases List.mem_cons.mp h with rfl | h
      · intro hmem
        rcases List.mem_cons.mp hmem with heq | hmem
        · exact hc (by simp [← heq])
        · exact ih (by rw [hrest]; exact List.mem_cons_self) hmem
      · exact ih (by rw [hrest]; exact List.mem_cons_of_mem _ h)

theorem slash_not_mem_resolvedDirectory {basePath dir : Str} (h : dir ∈ resolvedDirectory basePath) :
    '/' ∉ dir := by
  have hdirectory : ∀ seg ∈ directory basePath, '/' ∉ seg := by
    intro seg hseg
    rw [directory] at hseg
    split at hseg
    · exact slash_not_mem_splitOn (List.mem_of_mem_dropLast hseg)
    · exact slash_not_mem_splitOn hseg
  rw [resolvedDirectory] at h
  rcases mem_foldl_resolveSegment h with h | h
  · cases h
  · split at h
    · cases h
    · next first rest hparts =>
      refine hdirectory dir ?_
      rw [hparts]
      rcases List.mem_cons.mp h with rfl | h
      · exact List.mem_cons_self
      · exact List.mem_cons_of_mem _ (List.mem_of_mem_filter h)

theorem slash_not_mem_baseSegments {basePath dir : Str} (h : dir ∈ baseSegments basePath) :
    '/' ∉ dir := by
  have hmem : dir ∈ resolvedDirectory basePath := by
    rw [baseSegments, fromRoot.eq_def] at h
    split at h
    · next dirs heq =>
      rw [heq]
      exact List.mem_cons_of_mem _ h
    · exact h
  exact slash_not_mem_resolvedDirectory hmem

theorem slashed_fromRoot {dirs segments : List Str} (hdirs : ∀ dir ∈ dirs, '/' ∉ dir)
    (hne : segments ≠ []) (h : ∀ seg ∈ segments, Plain seg) :
    slashed (['/'].intercalate (dirs ++ segments)) =
      '/' :: ['/'].intercalate (fromRoot dirs ++ segments) := by
  match dirs with
  | [] =>
    obtain ⟨c,rest,hjoin,hc⟩ := plain_head hne h
    rw [List.nil_append, hjoin]
    exact (if_pos ⟨List.cons_ne_nil _ _, fun heq => hc (Option.some.inj heq)⟩).trans
      (congrArg _ hjoin.symm)
  | [] :: dirs =>
    have hall : dirs ++ segments ≠ [] := List.append_ne_nil_of_right_ne_nil _ hne
    have hjoin : ['/'].intercalate ([] :: (dirs ++ segments)) =
        '/' :: ['/'].intercalate (dirs ++ segments) := by
      have happend := intercalate_append (List.cons_ne_nil ([] : Str) []) (dirs ++ segments)
      rw [if_neg hall] at happend
      exact happend
    rw [List.cons_append, hjoin]
    exact slashed_eq_self fun c hc => (Option.some.inj hc).symm
  | (c :: dir) :: dirs =>
    have hc : c ≠ '/' := fun heq => hdirs _ List.mem_cons_self (heq ▸ List.mem_cons_self)
    have happend := intercalate_append (List.cons_ne_nil (c :: dir) []) (dirs ++ segments)
    have hhead : (['/'].intercalate ((c :: dir) :: dirs ++ segments)).head? = some c :=
      (congrArg List.head? happend).trans rfl
    refine if_pos ⟨fun hnil => ?_, fun heq => hc ?_⟩
    · rw [hnil] at hhead
      cases hhead
    · rw [hhead] at heq
      exact Option.some.inj heq

theorem rstripSlash_slash (s : Str) :
    PosixPath.rstripSlash (s ++ ['/']) = PosixPath.rstripSlash s :=
  List.rdropWhile_concat_pos _ _ '/' (by decide)

theorem rstripSlash_eq_self {s : Str} {c : Char} (h : s.getLast? = some c) (hc : c ≠ '/') :
    PosixPath.rstripSlash s = s := by
  refine List.rdropWhile_eq_self_iff.mpr fun hne => ?_
  rw [List.getLast?_eq_some_getLast hne] at h
  rw [Option.some.inj h]
  simpa using hc

theorem slashed_append {s : Str} (h : s ≠ []) (t : Str) : slashed (s ++ t) = slashed s ++ t := by
  obtain ⟨c,rest,rfl⟩ := List.exists_cons_of_ne_nil h
  by_cases hc : c = '/'
  · have hhead : ∀ tail : Str, slashed (c :: tail) = c :: tail := fun tail =>
      slashed_eq_self fun d hd => (Option.some.inj hd).symm.trans hc
    rw [hhead, List.cons_append, hhead]
  · have hhead : ∀ tail : Str, slashed (c :: tail) = '/' :: c :: tail := fun tail =>
      if_pos ⟨List.cons_ne_nil _ _, fun heq => hc (Option.some.inj heq)⟩
    rw [hhead, List.cons_append, hhead]
    rfl

theorem rstripSlash_relative (dirs : List Str) {segments : List Str} (hne : segments ≠ [])
    (h : ∀ seg ∈ segments, Plain seg) (n : Nat) :
    PosixPath.rstripSlash (slashed (['/'].intercalate (dirs ++ segments ++ slashEnd n))) =
      slashed (['/'].intercalate (dirs ++ segments)) := by
  obtain ⟨c,hlast,hc⟩ := plain_last hne h
  have hjoin : (['/'].intercalate (dirs ++ segments)).getLast? = some c := by
    by_cases hdirs : dirs = []
    · rw [hdirs, List.nil_append, hlast]
    · rw [intercalate_append hdirs, if_neg hne, List.getLast?_append, List.getLast?_cons, hlast]
      rfl
  have hkept : (slashed (['/'].intercalate (dirs ++ segments))).getLast? = some c := by
    rw [slashed]
    split
    · rw [List.getLast?_cons, hjoin]
      rfl
    · exact hjoin
  have hall : dirs ++ segments ≠ [] := List.append_ne_nil_of_right_ne_nil _ hne
  have hnil : ['/'].intercalate (dirs ++ segments) ≠ [] := by
    intro heq
    rw [heq] at hjoin
    cases hjoin
  cases n with
  | zero =>
    have hend : slashEnd 0 = [] := rfl
    rw [hend, List.append_nil, rstripSlash_eq_self hkept hc]
  | succ n =>
    have hend : slashEnd (n + 1) = [[]] := rfl
    rw [hend, intercalate_append hall, if_neg (List.cons_ne_nil _ _), List.intercalate_singleton,
      slashed_append hnil, rstripSlash_slash, rstripSlash_eq_self hkept hc]

theorem rstripSlash_append (s : Str) :
    ∃ n, s = PosixPath.rstripSlash s ++ List.replicate n '/' := by
  have htail : s.rtakeWhile (· = '/') = List.replicate (s.rtakeWhile (· = '/')).length '/' :=
    List.eq_replicate_iff.mpr ⟨rfl, fun c hc => by simpa using List.mem_rtakeWhile_imp hc⟩
  refine ⟨(s.rtakeWhile (· = '/')).length, ?_⟩
  rw [← htail]
  exact List.rdropWhile_append_rtakeWhile.symm

theorem withParams_path_prefix (s : SplitResult) : s.withParams.path <+: s.path := by
  have hunder : ∀ url : Str, (splitParams url).1 <+: url := by
    intro url
    conv_rhs => rw [← splitParams_front url]
    exact (List.prefix_append_right_inj _).mpr (List.takeWhile_prefix _)
  simp only [SplitResult.withParams]
  split
  · exact hunder s.path
  · exact List.prefix_rfl

end Segments

end PicoSentry.Foundation.Url
