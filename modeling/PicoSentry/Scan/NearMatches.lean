import PicoSentry.Scan.DeleteIndex

namespace PicoSentry.Scan.Corpus

open Foundation
open Foundation.EditDistance
open Typosquat

theorem filter_length_flatMap_perm (ns : List Str) (ls : List ℕ) (h : ls.Nodup) :
    (ls.flatMap fun l => ns.filter (·.length = l)).Perm (ns.filter (·.length ∈ ls)) := by
  induction ls with
  | nil => simp
  | cons l ls ih =>
    obtain ⟨hl,hls⟩ := List.nodup_cons.mp h
    have hsplit := List.filter_append_perm (fun n : Str => decide (n.length = l))
      (ns.filter (·.length ∈ l :: ls))
    simp only [List.filter_filter] at hsplit
    have hhead : ns.filter (fun n => decide (n.length = l) && decide (n.length ∈ l :: ls)) =
        ns.filter (·.length = l) := by
      apply List.filter_congr
      intro n _
      by_cases hn : n.length = l <;> simp [hn]
    have htail : ns.filter (fun n => !decide (n.length = l) && decide (n.length ∈ l :: ls)) =
        ns.filter (·.length ∈ ls) := by
      apply List.filter_congr
      intro n _
      by_cases hn : n.length = l
      · simp [hn, hl]
      · simp [hn]
    rw [hhead, htail] at hsplit
    rw [List.flatMap_cons]
    exact ((ih hls).append_left _).trans hsplit

namespace CorpusIndex

structure Built (names priorityNames : Finset Str) (ix : CorpusIndex) : Prop where
  priority : ix.priorityNames = priorityNames
  sorted : ix.names = sortedNames (names ∪ priorityNames)
  tries : ix.tries = ix.names.foldl insertName []
  deletes : Indexed ix.deleteIndex (ix.names.take (ix.deleteCursor.getD ix.names.length))

section Build

variable {names priorityNames : Finset Str} {ix : CorpusIndex}

theorem take_cursor_slice (ns : List Str) (c stop : ℕ) (h : min ns.length c ≤ stop) :
    ns.take c ++ (ns.take stop).drop c = ns.take stop := by
  have hsplit := List.take_append_drop c (ns.take stop)
  have hcut : (ns.take stop).take c = ns.take c := by
    rw [List.take_take, List.take_eq_take_iff]
    omega
  rwa [hcut] at hsplit

theorem min_cursor_le_deleteStop (step : ℕ) :
    min ix.names.length (ix.deleteCursor.getD 0) ≤ ix.deleteStop step := by
  cases hc : ix.deleteCursor with
  | none => simp
  | some c => simp only [deleteStop, hc, Option.getD_some]; omega

theorem deleteStop_le (step : ℕ) : ix.deleteStop step ≤ ix.names.length := by
  cases hc : ix.deleteCursor with
  | none => simp [deleteStop, hc]
  | some c => simp only [deleteStop, hc]; omega

theorem advanceDeleteBuild_indexed (step : ℕ)
    (h : Indexed ix.deleteIndex (ix.names.take (ix.deleteCursor.getD 0))) :
    Indexed (ix.advanceDeleteBuild step).deleteIndex
      (ix.names.take ((ix.advanceDeleteBuild step).deleteCursor.getD ix.names.length)) := by
  have hfold := h.foldl ((ix.names.take (ix.deleteStop step)).drop (ix.deleteCursor.getD 0))
  rw [take_cursor_slice _ _ _ (min_cursor_le_deleteStop step)] at hfold
  have hle : ix.deleteStop step ≤ ix.names.length := deleteStop_le step
  by_cases hlt : ix.deleteStop step < ix.names.length
  · simpa [advanceDeleteBuild, hlt] using hfold
  · have he : ix.deleteStop step = ix.names.length := by omega
    simpa [advanceDeleteBuild, he] using hfold

theorem stepDeleteBuild_names (step : ℕ) : (ix.stepDeleteBuild step).names = ix.names := by
  cases hc : ix.deleteCursor <;> simp [stepDeleteBuild, hc, advanceDeleteBuild]

theorem Built.step (h : Built names priorityNames ix) (step : ℕ) :
    Built names priorityNames (ix.stepDeleteBuild step) := by
  cases hc : ix.deleteCursor with
  | none => simpa [stepDeleteBuild, hc] using h
  | some c =>
    simp only [stepDeleteBuild, hc]
    refine ⟨h.priority, h.sorted, h.tries, ?_⟩
    apply advanceDeleteBuild_indexed
    simpa [hc] using h.deletes

theorem init_built (names priorityNames : Finset Str) (chunks : ℤ) :
    Built names priorityNames (init names priorityNames chunks) := by
  unfold init
  simp only
  split
  · next hle =>
    refine ⟨rfl, rfl, rfl, ?_⟩
    apply advanceDeleteBuild_indexed
    simpa [not_lt.mpr hle] using indexed_nil
  · next hgt =>
    refine ⟨rfl, rfl, rfl, ?_⟩
    simpa [not_le.mp hgt] using indexed_nil

theorem Built.candidateMatches (h : Built names priorityNames ix) (S : Search) :
    Built names priorityNames (ix.candidateMatches S).1 := by
  simp only [CorpusIndex.candidateMatches]
  split
  · exact h
  · split
    · exact h.step _
    · exact h.step _

theorem Built.applyOp (U : Unicode) (h : Built names priorityNames ix) (op : Op) :
    Built names priorityNames (applyOp U ix op) := by
  cases op with
  | nearMatches q d k =>
    simp only [Corpus.applyOp, nearMatches]
    split
    · exact h
    · exact h.candidateMatches _
  | finishDeleteIndex => exact h.step _

theorem Built.run (U : Unicode) (h : Built names priorityNames ix) (ops : List Op) :
    Built names priorityNames (ops.foldl (Corpus.applyOp U) ix) := by
  induction ops generalizing ix with
  | nil => exact h
  | cons op ops ih => exact ih (h.applyOp U op)

end Build

section Buckets

variable {names priorityNames : Finset Str} {ix : CorpusIndex} (S : Search)

theorem foldl_buckets_perm (hd : 0 ≤ S.maxDistance) (tries : Dict ℕ TrieNode)
    (hp : ∀ l, (bucketAt tries l).Placed) (ls : List ℕ) (found : List Match) :
    (ls.foldl (fun found length => match tries.get? length with
      | none => found
      | some root => S.searchBanded root found) found).Perm
      (found ++ ls.flatMap fun l => (bucketAt tries l).allNames.filterMap S.accept) := by
  induction ls generalizing found with
  | nil => simp
  | cons l ls ih =>
    rw [List.foldl_cons, List.flatMap_cons, ← List.append_assoc]
    refine (ih _).trans (List.Perm.append_right _ ?_)
    have hb := hp l
    cases hl : tries.get? l with
    | none => simp [bucketAt, hl, TrieNode.empty, TrieNode.allNames, Forest.allNames]
    | some root =>
      simp only [bucketAt, hl, Option.getD_some] at hb ⊢
      exact S.searchBanded_perm hd hb found

theorem searchLengthBuckets_perm (hd : 0 ≤ S.maxDistance) (h : Built names priorityNames ix) :
    (ix.searchLengthBuckets S (truncate S.maxDistance)).Perm (ix.names.filterMap S.accept) := by
  have hspec := insertNames_spec ix.names [] (fun _ => TrieNode.empty_placed)
  rw [← h.tries] at hspec
  unfold searchLengthBuckets
  simp only
  generalize hls : (List.range (S.query.length + truncate S.maxDistance + 1).toNat).filter
    (fun n : ℕ => decide (max 0 ((S.query.length : ℤ) - truncate S.maxDistance) ≤ n)) = ls
  have hnodup : ls.Nodup := by
    rw [← hls]
    exact List.nodup_range.filter _
  refine (foldl_buckets_perm S hd ix.tries (fun l => (hspec l).1) ls []).trans ?_
  rw [List.nil_append, ← List.filterMap_flatMap]
  have hbuckets : (ls.flatMap fun l => (bucketAt ix.tries l).allNames).Perm
      (ix.names.filter (·.length ∈ ls)) := by
    refine (List.Perm.flatMap_left ls fun l _ => ?_).trans
      (filter_length_flatMap_perm ix.names ls hnodup)
    simpa [bucketAt, Dict.get?, TrieNode.empty, TrieNode.allNames, Forest.allNames] using
      (hspec l).2
  refine (hbuckets.filterMap _).trans (List.Perm.of_eq ?_)
  rw [List.filterMap_filter]
  apply List.filterMap_congr
  intro n _
  split
  · rfl
  · next hlen =>
    symm
    apply S.accept_eq_none
    have hd' := hd
    by_contra hle
    have hfar : |(n.length : ℚ) - S.query.length| ≤ S.maxDistance := by
      have hx := length_le_dist_add S.sub_nonneg n.reverse S.query.reverse
      have hy := length_le_dist_add S.sub_nonneg S.query.reverse n.reverse
      rw [dist_comm S.sub_comm S.query.reverse] at hy
      simp only [List.length_reverse] at hx hy
      have hle' : dist S.sub n.reverse S.query.reverse ≤ S.maxDistance := not_lt.mp hle
      rw [abs_le]
      constructor <;> linarith
    obtain ⟨hlo,hhi⟩ := abs_le.mp hfar
    have hup := (le_truncate_iff hd ((n.length : ℤ) - S.query.length)).mpr (by push_cast; linarith)
    have hdown := (le_truncate_iff hd ((S.query.length : ℤ) - n.length)).mpr
      (by push_cast; linarith)
    apply hlen
    rw [← hls]
    simp only [List.mem_filter, List.mem_range, decide_eq_true_eq]
    omega

theorem candidateMatches_perm (hd : 0 ≤ S.maxDistance) (h : Built names priorityNames ix) :
    (ix.candidateMatches S).2.Perm (ix.names.filterMap S.accept) := by
  unfold CorpusIndex.candidateMatches
  simp only
  split
  · exact searchLengthBuckets_perm S hd h
  · next hpath =>
    simp only [not_or, Bool.not_eq_true, not_lt] at hpath
    obtain ⟨hkb,hm⟩ := hpath
    have hb := h.step ix.deleteStep
    rw [← show (ix.stepDeleteBuild ix.deleteStep).names = ix.names from stepDeleteBuild_names _]
    split
    · next hnone =>
      have hall := hb.deletes
      rw [hnone, Option.getD_none, List.take_length] at hall
      have hnd : (ix.stepDeleteBuild ix.deleteStep).names.Nodup := by
        rw [hb.sorted]
        exact sortedNames_nodup _
      exact searchDeletes_perm hd hkb hm hall hnd
    · have hS : { S with useKeyboard := false } = S := by
        rw [← hkb]
      rw [hS]
      exact searchLengthBuckets_perm S hd hb

end Buckets

end CorpusIndex

section Agreement

theorem sortMatches_eq_of_perm {ms ms' : List Match} (h : ms.Perm ms') :
    sortMatches ms = sortMatches ms' := by
  have htrans : ∀ a b c : Match, decide (a.key ≤ b.key) = true → decide (b.key ≤ c.key) = true →
      decide (a.key ≤ c.key) = true := by
    intro a b c hab hbc
    simp only [decide_eq_true_eq] at hab hbc ⊢
    exact hab.trans hbc
  have htotal : ∀ a b : Match, (decide (a.key ≤ b.key) || decide (b.key ≤ a.key)) = true := by
    intro a b
    simpa using le_total a.key b.key
  refine List.Perm.eq_of_pairwise ?_ (List.pairwise_mergeSort htrans htotal ms)
    (List.pairwise_mergeSort htrans htotal ms')
    ((List.mergeSort_perm _ _).trans (h.trans (List.mergeSort_perm _ _).symm))
  intro a b _ _ hab hba
  simp only [decide_eq_true_eq] at hab hba
  have hkey := congrArg ofLex (le_antisymm hab hba)
  simp only [Match.key, ofLex_toLex, Prod.mk.injEq] at hkey
  exact Prod.ext hkey.2 hkey.1

variable (U : Unicode) (q : Str) (d : ℚ) (k : Bool) (priorityNames : Finset Str)

theorem distTo_eq_distanceFn (n : Str) : Search.distTo ⟨U, q, d, k⟩ n = distanceFn U k q n := by
  rw [distanceFn_eq_dist, dist_comm (substitutionCost_comm U k)]
  rfl

def guardMatch (m : Match) : Except PyError (Option Match) :=
  if q.length < 4 then CorpusIndex.shortGuard priorityNames q m else .ok (some m)

theorem guardMatch_cases (m : Match) :
    guardMatch q priorityNames m = .error .indexError ∨
      ∃ r, guardMatch q priorityNames m = .ok r := by
  unfold guardMatch CorpusIndex.shortGuard
  split
  · split
    · exact .inr ⟨_, rfl⟩
    · split
      · exact .inr ⟨_, rfl⟩
      · split
        · cases q with
          | nil => exact .inl rfl
          | cons c cs => exact .inr ⟨_, rfl⟩
        · exact .inr ⟨_, rfl⟩
  · exact .inr ⟨_, rfl⟩

theorem checkCandidate_eq (n : Str) :
    checkCandidate U q d k priorityNames n =
      (Search.accept ⟨U, q, d, k⟩ n).elim (.ok none) (guardMatch q priorityNames) := by
  have hlen := length_diff_le_distanceFn U k q n
  unfold checkCandidate Search.accept guardMatch CorpusIndex.shortGuard
  simp only [distTo_eq_distanceFn]
  by_cases hn : n = q
  · simp [hn]
  · by_cases hd : distanceFn U k q n ≤ d
    · by_cases hs : q.length < 4
      · by_cases hp : n ∈ priorityNames
        · cases q with
          | nil =>
            simp only [hn, hd, hs, hp, not_lt.mpr hd, not_lt.mpr (hlen.trans hd), not_true,
              and_false, if_true, if_false, true_and, Option.elim]
          | cons c cs =>
            simp only [hn, hd, hs, hp, not_lt.mpr hd, not_lt.mpr (hlen.trans hd), not_true,
              and_false, if_true, if_false, true_and, Option.elim]
        · simp [hn, hd, hs, hp]
      · simp [hn, hd, hs, not_lt.mpr hd, not_lt.mpr (hlen.trans hd)]
    · simp [hn, hd, not_le.mp hd]

theorem collect_guardMatch (ms : List Match) :
    collect (guardMatch q priorityNames) ms =
      if q.length < 4 then collect (CorpusIndex.shortGuard priorityNames q) ms else .ok ms := by
  split
  · next h =>
    congr 1
    funext m
    simp [guardMatch, h]
  · next h =>
    have hall : ∀ m ∈ ms, guardMatch q priorityNames m = .ok (some m) := by
      intro m _
      simp [guardMatch, h]
    rw [collect_ok hall, List.filterMap_some]

theorem near_matches_eq_check_typosquat (names : Finset Str) (chunks : ℤ) (ops : List Op)
    (hd : 0 ≤ d) :
    (CorpusIndex.nearMatches U
      (ops.foldl (applyOp U) (CorpusIndex.init names priorityNames chunks)) q d k).2 =
      checkTyposquat U q (names ∪ priorityNames) d k (some priorityNames) := by
  have hb := (CorpusIndex.init_built names priorityNames chunks).run U ops
  generalize ops.foldl (applyOp U) (CorpusIndex.init names priorityNames chunks) = ix at hb
  unfold CorpusIndex.nearMatches checkTyposquat
  split
  · rfl
  · simp only [Option.getD_some]
    have hsame := hb.candidateMatches ⟨U, q, d, k⟩
    have hperm := CorpusIndex.candidateMatches_perm ⟨U, q, d, k⟩ hd hb
    rw [hsame.priority, ← collect_guardMatch, hb.sorted] at *
    have hcheck : collect (checkCandidate U q d k priorityNames)
        (sortedNames (names ∪ priorityNames)) =
        collect (guardMatch q priorityNames)
          ((sortedNames (names ∪ priorityNames)).filterMap (Search.accept ⟨U, q, d, k⟩)) := by
      rw [collect_filterMap]
      congr 1
      funext n
      exact checkCandidate_eq U q d k priorityNames n
    rw [hcheck]
    rcases collect_perm (guardMatch_cases q priorityNames) hperm with ⟨h,h'⟩ | ⟨bs,cs,h,h',hbc⟩
    · rw [h, h']
      rfl
    · rw [h, h']
      exact congrArg Except.ok (sortMatches_eq_of_perm hbc)

theorem near_matches_eq_check_typosquat_lodash :
    (0 : ℚ) ≤ 2 ∧
      (CorpusIndex.nearMatches Unicode.basic
        ([Op.nearMatches "reakt".toList 2 false, Op.finishDeleteIndex].foldl
          (applyOp Unicode.basic)
          (CorpusIndex.init {"lodash".toList, "react".toList} {"next".toList} deleteIndexChunks))
        "lodahs".toList 2 false).2 =
      checkTyposquat Unicode.basic "lodahs".toList
        ({"lodash".toList, "react".toList} ∪ {"next".toList}) 2 false (some {"next".toList}) :=
  ⟨by norm_num, near_matches_eq_check_typosquat _ _ _ _ _ _ _ _ (by norm_num)⟩

end Agreement

end PicoSentry.Scan.Corpus
