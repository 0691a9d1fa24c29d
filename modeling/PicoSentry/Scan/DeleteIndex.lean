import PicoSentry.Scan.BandedSearch

namespace PicoSentry.Scan.Corpus

open Foundation
open Foundation.EditDistance
open Typosquat

section Within

theorem withinRow_eq_distanceRow (ca : Char) (left : ℤ) (prev : List ℤ) (b : Str) :
    withinRow ca left prev b = distanceRow unitCost ca left prev b := by
  induction b generalizing left prev with
  | nil => cases prev <;> simp [withinRow, distanceRow]
  | cons cb b ih =>
    rcases prev with _ | ⟨p,_ | ⟨q,ps⟩⟩
    · simp [withinRow, distanceRow]
    · simp [withinRow, distanceRow]
    · have hsub : (if ca = cb then p else p + 1) = p + unitCost ca cb := by
        unfold unitCost
        split <;> simp
      have hcell : ∀ x y : ℤ, (if x < y then x else y) = min y x := by
        intro x y
        split <;> omega
      simp only [withinRow, distanceRow, hsub, hcell, ih]

theorem withinRows_spec (b : Str) (k : ℤ) (a xs : Str) :
    withinRows b k (xs.length + 1) (cells unitCost xs [] b) a =
        some (cells unitCost (a.reverse ++ xs) [] b) ∨
      (withinRows b k (xs.length + 1) (cells unitCost xs [] b) a = none ∧
        k < dist unitCost (a.reverse ++ xs) b.reverse) := by
  induction a generalizing xs with
  | nil => exact .inl (by simp [withinRows])
  | cons ca a ih =>
    have hrow : ((xs.length : ℤ) + 1) ::
        withinRow ca (xs.length + 1) (cells unitCost xs [] b) b =
        cells unitCost (ca :: xs) [] b := by
      have h := distanceRow_cells (unitCost (R := ℤ)) ca xs [] b
      rw [dist_nil_right] at h
      rw [withinRow_eq_distanceRow]
      simpa using h
    rw [withinRows, hrow]
    split
    · next hexit =>
      refine .inr ⟨rfl, ?_⟩
      have hcells : ∀ t ∈ cells unitCost (ca :: xs) [] b, k < t := by
        intro t ht
        by_contra hle
        refine absurd hexit (not_lt.mpr ((foldl_min_le_iff _ _ _).mpr ?_))
        rw [← hrow] at ht
        rcases List.mem_cons.mp ht with rfl | ht
        · exact .inl (not_lt.mp hle)
        · exact .inr ⟨t, ht, not_lt.mp hle⟩
      obtain ⟨ws,hw,hle⟩ := exists_suffix_le_of_suffix (unitCost_nonneg (R := ℤ))
        (List.suffix_append a.reverse (ca :: xs)) b.reverse
      have hp : ws.reverse <+: b := by simpa using List.reverse_prefix.mpr hw
      have hmem := dist_mem_cells (unitCost (R := ℤ)) (ca :: xs) [] hp
      simp only [List.reverse_reverse, List.append_nil] at hmem
      have hlt := hcells _ hmem
      simp only [List.reverse_cons, List.append_assoc, List.singleton_append]
      omega
    · have h := ih (ca :: xs)
      simpa using h

theorem levenshteinWithin_eq (a b : Str) (k : ℤ) :
    levenshteinWithin a b k = if editDistance a b ≤ k then editDistance a b else k + 1 := by
  have hdist : editDistance a b = dist unitCost a.reverse b.reverse :=
    distance_eq_dist unitCost_comm a b
  have hx := length_le_dist_add (unitCost_nonneg (R := ℤ)) a.reverse b.reverse
  have hy := length_le_dist_add (unitCost_nonneg (R := ℤ)) b.reverse a.reverse
  rw [dist_comm unitCost_comm b.reverse] at hy
  simp only [List.length_reverse, ← hdist] at hx hy
  unfold levenshteinWithin
  simp only
  split
  · rw [if_neg (by omega)]
  · split
    · next hzero =>
      have ha : a = [] := by simpa using hzero
      subst ha
      have hb : editDistance [] b = b.length := by simp [hdist]
      rw [hb]
    · have hspec := withinRows_spec b k a []
      simp only [List.length_nil, Nat.cast_zero, zero_add, List.append_nil,
        ← initialRow_eq_cells (unitCost (R := ℤ)) b] at hspec
      have hne : cells (unitCost (R := ℤ)) a.reverse [] b ≠ [] := by
        intro he
        simpa [he] using length_cells (unitCost (R := ℤ)) a.reverse [] b
      rcases hspec with h | ⟨h,hlt⟩
      · rw [h]
        simp only [List.getLastD_eq_getLast?, List.getLast?_eq_some_getLast hne, getLast_cells,
          Option.getD_some, List.append_nil, ← hdist]
      · rw [h, if_neg (by omega)]

theorem levenshtein_within_least (a b : Str) (k : ℕ) :
    ∃ n : ℕ, editDistance a b = n ∧ IsLeast {m | Edits m a b} n ∧
      (n ≤ k → levenshteinWithin a b k = editDistance a b) ∧ (k < n → (k : ℤ) < levenshteinWithin a b k) := by
  obtain ⟨n,hn,hedits,hleast⟩ := exists_isLeast_edits (R := ℤ) a.reverse b.reverse
  have hdist : editDistance a b = n := (distance_eq_dist unitCost_comm a b).trans hn
  refine ⟨n, hdist, ⟨?_, fun m hm => hleast (Edits.reverse hm)⟩, fun hle => ?_, fun hlt => ?_⟩
  · have hback := Edits.reverse hedits
    rwa [List.reverse_reverse, List.reverse_reverse] at hback
  · rw [levenshteinWithin_eq, if_pos (by omega)]
  · rw [levenshteinWithin_eq, if_neg (by omega)]
    omega

end Within

section Variants

theorem mem_deleteOne {u n : Str} (h : u.Sublist n) (hl : n.length = u.length + 1) :
    u ∈ deleteOne n := by
  have hex : ∃ i < n.length, u = n.take i ++ n.drop (i + 1) := by
    induction n generalizing u with
    | nil => simp at hl
    | cons x xs ih =>
      cases h with
      | cons _ h =>
        have he : u = xs := h.eq_of_length (by simpa using hl.symm)
        exact ⟨0, by simp, by simp [he]⟩
      | cons_cons _ h =>
        obtain ⟨i,hi,he⟩ := ih h (by simpa using hl)
        exact ⟨i + 1, by simpa using hi, by simp [← he]⟩
  obtain ⟨i,hi,he⟩ := hex
  exact List.mem_map.mpr ⟨i, List.mem_range.mpr hi, he.symm⟩

theorem mem_deleteTwo {u n : Str} (h : u.Sublist n) (hl : n.length = u.length + 2) :
    u ∈ deleteTwo n := by
  have hex : ∃ i j, i < j ∧ j < n.length ∧
      u = n.take i ++ (n.take j).drop (i + 1) ++ n.drop (j + 1) := by
    induction n generalizing u with
    | nil => simp at hl
    | cons x xs ih =>
      cases h with
      | cons _ h =>
        obtain ⟨j,hj,he⟩ := List.mem_map.mp (mem_deleteOne h (by simpa using hl))
        exact ⟨0, j + 1, by omega, by simpa using List.mem_range.mp hj, by simp [← he]⟩
      | cons_cons _ h =>
        obtain ⟨i,j,hij,hj,he⟩ := ih h (by simpa using hl)
        exact ⟨i + 1, j + 1, by omega, by simpa using hj, by simp [he]⟩
  obtain ⟨i,j,hij,hj,he⟩ := hex
  refine List.mem_flatMap.mpr ⟨i, List.mem_range.mpr (by omega), ?_⟩
  exact List.mem_map.mpr ⟨j, by simp [hij, hj], he.symm⟩

def variants (n : Str) : List Str :=
  [n] ++ deleteOne n ++ if 2 ≤ n.length then deleteTwo n else []

def queryVariants (q : Str) (maxDistInt : ℤ) : List Str :=
  [q] ++ deleteOne q ++ if 2 ≤ maxDistInt ∧ 2 ≤ q.length then deleteTwo q else []

theorem mem_queryVariants {u q : Str} {k : ℕ} (h : u.Sublist q) (hl : q.length ≤ u.length + k)
    (hk : k ≤ 2) : u ∈ queryVariants q k := by
  have hle := h.length_le
  simp only [queryVariants, List.mem_append, List.mem_singleton]
  rcases (by omega : q.length = u.length ∨ q.length = u.length + 1 ∨ q.length = u.length + 2)
    with hz | ho | ht
  · exact .inl (.inl (h.eq_of_length hz.symm))
  · exact .inl (.inr (mem_deleteOne h ho))
  · right
    rw [if_pos (by omega)]
    exact mem_deleteTwo h ht

theorem mem_variants {u n : Str} {k : ℕ} (h : u.Sublist n) (hl : n.length ≤ u.length + k)
    (hk : k ≤ 2) : u ∈ variants n := by
  have hmem := mem_queryVariants h (by omega : n.length ≤ u.length + 2) le_rfl
  simpa [queryVariants, variants] using hmem

end Variants

section Index

def bucketNames (index : Dict Str Bucket) (variant : Str) : List Str :=
  match index.get? variant with
  | none => []
  | some bucket => bucket.toList

theorem bucketNames_addVariant (name : Str) (index : Dict Str Bucket) (variant v : Str) :
    bucketNames (addVariant name index variant) v =
      bucketNames index v ++ if variant = v then [name] else [] := by
  unfold addVariant bucketNames
  by_cases hv : variant = v
  · subst hv
    cases index.get? variant with
    | none => simp [Bucket.toList]
    | some bucket => cases bucket <;> simp [Bucket.toList]
  · cases index.get? variant with
    | none => simp [Dict.get?_set, hv]
    | some bucket => cases bucket <;> simp [Dict.get?_set, hv]

theorem mem_bucketNames_foldl (name : Str) (vs : List Str) (index : Dict Str Bucket) (v n : Str) :
    n ∈ bucketNames (vs.foldl (addVariant name) index) v ↔
      n ∈ bucketNames index v ∨ (n = name ∧ v ∈ vs) := by
  induction vs generalizing index with
  | nil => simp
  | cons w vs ih =>
    rw [List.foldl_cons, ih, bucketNames_addVariant, List.mem_append, List.mem_cons]
    by_cases hw : w = v
    · simp only [hw, if_true, List.mem_singleton]
      tauto
    · simp only [hw, if_false, List.not_mem_nil, Ne.symm hw, or_false, false_or]

theorem indexName_eq (index : Dict Str Bucket) (name : Str) :
    indexName index name = (variants name).foldl (addVariant name) index := by
  unfold indexName variants
  simp only [List.foldl_append]
  split <;> rfl

def Indexed (index : Dict Str Bucket) (done : List Str) : Prop :=
  ∀ v n, n ∈ bucketNames index v ↔ n ∈ done ∧ v ∈ variants n

theorem indexed_nil : Indexed [] [] := by
  intro v n
  simp [bucketNames, Dict.get?]

theorem Indexed.foldl {index : Dict Str Bucket} {done : List Str} (h : Indexed index done)
    (ns : List Str) : Indexed (ns.foldl indexName index) (done ++ ns) := by
  induction ns generalizing index done with
  | nil => simpa using h
  | cons name ns ih =>
    have hstep : Indexed (indexName index name) (done ++ [name]) := by
      intro v n
      rw [indexName_eq, mem_bucketNames_foldl, h v n, List.mem_append, List.mem_singleton]
      constructor
      · rintro (⟨hn,hv⟩ | ⟨rfl,hv⟩)
        · exact ⟨.inl hn, hv⟩
        · exact ⟨.inr rfl, hv⟩
      · rintro ⟨hn | rfl,hv⟩
        · exact .inl ⟨hn, hv⟩
        · exact .inr ⟨rfl, hv⟩
    simpa using ih hstep

theorem mem_addBucket_foldl (index : Dict Str Bucket) (vs : List Str) (cs : Finset Str) (n : Str) :
    n ∈ vs.foldl (addBucket index) cs ↔ n ∈ cs ∨ ∃ v ∈ vs, n ∈ bucketNames index v := by
  induction vs generalizing cs with
  | nil => simp
  | cons v vs ih =>
    have hstep : n ∈ addBucket index cs v ↔ n ∈ cs ∨ n ∈ bucketNames index v := by
      unfold addBucket bucketNames
      cases index.get? v <;> simp
    rw [List.foldl_cons, ih, hstep]
    simp only [List.mem_cons, exists_eq_or_imp, or_assoc]

theorem mem_deleteCandidates (index : Dict Str Bucket) (q : Str) (m : ℤ) (n : Str) :
    n ∈ deleteCandidates index q m ↔ ∃ v ∈ queryVariants q m, n ∈ bucketNames index v := by
  have heq : deleteCandidates index q m = (queryVariants q m).foldl (addBucket index) ∅ := by
    unfold deleteCandidates queryVariants
    simp only [List.foldl_append]
    split <;> rfl
  rw [heq, mem_addBucket_foldl]
  simp

end Index

section SearchDeletes

variable {S : Search}

theorem distTo_eq_editDistance (hk : S.useKeyboard = false) (n : Str) :
    S.distTo n = (editDistance S.query n : ℚ) := by
  have h := distanceFn_eq_dist S.unicode false S.query n
  rw [dist_comm (substitutionCost_comm _ _)] at h
  rw [Search.distTo, Search.sub, hk, ← h]
  rfl

theorem mem_deleteCandidates_of_le {index : Dict Str Bucket} {names : List Str}
    (hix : Indexed index names) {n q : Str} (hn : n ∈ names) {k : ℕ} (hk : k ≤ 2)
    (hle : editDistance q n ≤ k) : n ∈ deleteCandidates index q k := by
  have hdist : editDistance q n = dist unitCost q.reverse n.reverse :=
    distance_eq_dist unitCost_comm q n
  rw [hdist] at hle
  obtain ⟨us,hq,hn',lq,ln⟩ := exists_common_sublist _ _ k (by exact_mod_cast hle)
  have hsq : us.reverse.Sublist q := by simpa using hq.reverse
  have hsn : us.reverse.Sublist n := by simpa using hn'.reverse
  simp only [List.length_reverse] at lq ln
  rw [mem_deleteCandidates]
  exact ⟨us.reverse, mem_queryVariants hsq (by simpa using lq) hk,
    (hix _ _).mpr ⟨hn, mem_variants hsn (by simpa using ln) hk⟩⟩

theorem searchDeletes_perm (hd : 0 ≤ S.maxDistance) (hkb : S.useKeyboard = false)
    (hm : truncate S.maxDistance ≤ 2) {index : Dict Str Bucket} {names : List Str}
    (hix : Indexed index names) (hnd : names.Nodup) :
    (searchDeletes index S.query (truncate S.maxDistance)).Perm (names.filterMap S.accept) := by
  have hnonneg : 0 ≤ truncate S.maxDistance := (le_truncate_iff hd 0).mpr (by simpa using hd)
  obtain ⟨k,hk⟩ := Int.eq_ofNat_of_zero_le hnonneg
  have hone : ∀ n, (if n = S.query then none else
      let dist := levenshteinWithin S.query n (truncate S.maxDistance)
      if dist ≤ truncate S.maxDistance then some (n, (dist : ℚ)) else none) = S.accept n := by
    intro n
    have hiff := le_truncate_iff hd (editDistance S.query n)
    simp only [Search.accept, distTo_eq_editDistance hkb, levenshteinWithin_eq]
    by_cases hle : editDistance S.query n ≤ truncate S.maxDistance
    · simp [hle, hiff.mp hle]
    · simp [hle, mt hiff.mpr hle]
  have hinj : ∀ (n n' : Str) (m : Match), m ∈ S.accept n → m ∈ S.accept n' → n = n' := by
    intro n n' m h h'
    simp only [Search.accept, Option.mem_def] at h h'
    split at h <;> simp at h
    split at h' <;> simp at h'
    rw [← h.2] at h'
    exact (congrArg Prod.fst h'.2).symm
  unfold searchDeletes
  simp only [hone]
  refine (List.perm_ext_iff_of_nodup ?_ ?_).mpr ?_
  · exact (sortedNames_nodup _).filterMap hinj
  · exact hnd.filterMap hinj
  · intro m
    simp only [List.mem_filterMap, mem_sortedNames]
    constructor
    · rintro ⟨n,hn,hacc⟩
      obtain ⟨v,_,hv⟩ := (mem_deleteCandidates _ _ _ _).mp hn
      exact ⟨n, ((hix v n).mp hv).1, hacc⟩
    · rintro ⟨n,hn,hacc⟩
      refine ⟨n, ?_, hacc⟩
      have hle : S.distTo n ≤ S.maxDistance := by
        by_contra hgt
        rw [S.accept_eq_none (not_le.mp hgt)] at hacc
        cases hacc
      rw [distTo_eq_editDistance hkb, ← le_truncate_iff hd, hk] at hle
      rw [hk]
      exact mem_deleteCandidates_of_le hix hn (by omega) hle

end SearchDeletes

end PicoSentry.Scan.Corpus
