import PicoSentry.Scan.CorpusTrie

namespace PicoSentry.Scan.Corpus

open Foundation
open Foundation.EditDistance
open Typosquat

theorem lt_truncate_add_one {q : ℚ} (h : 0 ≤ q) : q < truncate q + 1 := by
  simp only [truncate, not_lt.mpr h, if_false]
  exact Int.lt_floor_add_one q

theorem le_truncate_iff {q : ℚ} (h : 0 ≤ q) (n : ℤ) : n ≤ truncate q ↔ (n : ℚ) ≤ q := by
  simp only [truncate, not_lt.mpr h, if_false]
  exact Int.le_floor

namespace Search

variable (S : Search)

def sub : Char → Char → ℚ := substitutionCost S.unicode S.useKeyboard

theorem cost_eq_sub (ch c : Char) : S.cost ch c = S.sub ch c := by
  unfold cost sub substitutionCost keyboardCost unitCost
  cases S.useKeyboard <;> simp

theorem sub_comm (a b : Char) : S.sub a b = S.sub b a := substitutionCost_comm _ _ a b

theorem sub_nonneg (a b : Char) : 0 ≤ S.sub a b := substitutionCost_nonneg _ _ a b

def distTo (n : Str) : ℚ := dist S.sub n.reverse S.query.reverse

def accept (n : Str) : Option Match :=
  if n = S.query then none
  else if S.distTo n ≤ S.maxDistance then some (n, S.distTo n) else none

theorem accept_eq_none {n : Str} (h : S.maxDistance < S.distTo n) : S.accept n = none := by
  simp [accept, not_le.mpr h]

def RowFor (path : Str) (row : List ℚ) : Prop :=
  List.Forall₂ (Capped S.maxDistance) (cells S.sub path [] S.query) row

theorem lt_sentinel : S.maxDistance < S.sentinel := by
  unfold sentinel
  linarith

theorem rowMin_le_iff (row : List ℚ) :
    S.rowMin row ≤ S.maxDistance ↔ ∃ r ∈ row, r ≤ S.maxDistance := by
  rw [rowMin, foldl_min_le_iff]
  have := S.lt_sentinel
  simp [not_le.mpr this]

theorem exists_mem_le_iff {ts rs : List ℚ} {d : ℚ} (h : List.Forall₂ (Capped d) ts rs) :
    (∃ r ∈ rs, r ≤ d) ↔ ∃ t ∈ ts, t ≤ d := by
  induction h with
  | nil => simp
  | cons hc _ ih => simp only [List.mem_cons, exists_eq_or_imp, ih, hc.le_iff]

theorem getLastD_capped {ts rs : List ℚ} {d : ℚ} (h : List.Forall₂ (Capped d) ts rs) (hts : ts ≠ []) :
    Capped d (ts.getLast hts) (rs.getLastD 0) := by
  induction h with
  | nil => exact absurd rfl hts
  | @cons t r ts rs hc hrest ih =>
    cases hrest with
    | nil => simpa using hc
    | cons hc' hrest' => simpa using ih (by simp)

theorem startRow_rowFor : S.RowFor [] S.startRow := by
  unfold RowFor startRow
  rw [← initialRow_eq_cells S.sub S.query, initialRow, List.forall₂_map_left_iff,
    List.forall₂_map_right_iff, List.forall₂_same]
  intro k _
  split
  · exact Capped.refl _ _
  · next h => exact Capped.of_lt (not_le.mp h) S.lt_sentinel

theorem dist_gt_of_band {xs ys : Str} (hd : 0 ≤ S.maxDistance)
    (h : S.band < (xs.length : ℤ) - ys.length ∨ S.band < (ys.length : ℤ) - xs.length) :
    S.maxDistance < dist S.sub xs ys := by
  have hb : S.maxDistance < ((S.band : ℤ) : ℚ) := by
    rw [band]
    push_cast
    exact lt_truncate_add_one hd
  have hx := length_le_dist_add S.sub_nonneg xs ys
  have hy := length_le_dist_add S.sub_nonneg ys xs
  rw [dist_comm S.sub_comm ys xs] at hy
  rcases h with h | h
  · have h' : ((S.band : ℤ) : ℚ) < (xs.length : ℚ) - ys.length := by exact_mod_cast h
    linarith
  · have h' : ((S.band : ℤ) : ℚ) < (ys.length : ℚ) - xs.length := by exact_mod_cast h
    linarith

theorem ite_lt_eq_min (a b : ℚ) : (if a < b then a else b) = min b a := by
  rw [min_def]
  split <;> split <;> linarith

theorem cell_capped {d : ℚ} {ch c : Char} {xs ys : Str} {p q left : ℚ}
    (hp : Capped d (dist S.sub xs ys) p) (hq : Capped d (dist S.sub xs (c :: ys)) q)
    (hl : Capped d (dist S.sub (ch :: xs) ys) left) :
    Capped d (dist S.sub (ch :: xs) (c :: ys))
      (min (min (q + 1) (left + 1)) (p + S.cost ch c)) := by
  rw [dist_cons_cons, cost_eq_sub]
  exact ((hq.add zero_le_one).min (hl.add zero_le_one)).min (hp.add (S.sub_nonneg ch c))

theorem bandedCells_capped {ch : Char} {xs : Str} {lo hi : ℤ} {n : ℕ}
    (hout : ∀ ys : Str, ys.length ≤ n → ¬(lo ≤ ys.length ∧ (ys.length : ℤ) ≤ hi) → ys ≠ [] →
      S.maxDistance < dist S.sub (ch :: xs) ys)
    (cs ys : Str) (hn : ys.length + cs.length ≤ n) (prev : List ℚ) (left : ℚ)
    (hprev : List.Forall₂ (Capped S.maxDistance) (cells S.sub xs ys cs) prev)
    (hleft : Capped S.maxDistance (dist S.sub (ch :: xs) ys) left) :
    List.Forall₂ (Capped S.maxDistance) (cells S.sub (ch :: xs) ys cs)
      (left :: S.bandedCells ch lo hi (ys.length + 1) left prev cs) := by
  induction cs generalizing ys prev left with
  | nil =>
    cases prev with
    | nil => simp [cells] at hprev
    | cons p ps => simpa [cells, bandedCells] using hleft
  | cons c cs ih =>
    cases hprev with
    | @cons _ p _ ps hp hps =>
      have hlen : (c :: ys).length + cs.length ≤ n := by
        simp only [List.length_cons] at hn ⊢
        omega
      cases ps with
      | nil => cases cs <;> simp [cells] at hps
      | cons q ps =>
        have hq : Capped S.maxDistance (dist S.sub xs (c :: ys)) q := by
          cases cs with
          | nil => exact (List.forall₂_cons.mp hps).1
          | cons c' cs => exact (List.forall₂_cons.mp hps).1
        rw [cells]
        apply List.Forall₂.cons hleft
        rw [bandedCells]
        have hj : ((ys.length : ℤ) + 1 + 1) = (((c :: ys).length : ℤ) + 1) := by simp
        rw [hj]
        apply ih (c :: ys) hlen _ _ hps
        split
        · rw [ite_lt_eq_min, ite_lt_eq_min]
          exact S.cell_capped hp hq hleft
        · next hband =>
          refine Capped.of_lt (hout (c :: ys) (by omega) ?_ (by simp)) S.lt_sentinel
          simpa using hband

theorem bandedRow_rowFor (hd : 0 ≤ S.maxDistance) {ch : Char} {path : Str} {row : List ℚ}
    (h : S.RowFor path row) : S.RowFor (ch :: path) (S.bandedRow ch row (path.length + 1)) := by
  unfold RowFor bandedRow
  refine S.bandedCells_capped (n := S.query.length) ?_ S.query [] (by simp) row _ h ?_
  · intro ys hlen hband hne
    have hpos : 0 < ys.length := List.length_pos_iff.mpr hne
    apply S.dist_gt_of_band hd
    simp only [List.length_cons]
    split at hband <;> split at hband <;> push_cast at * <;> omega
  · rw [dist_nil_right]
    simpa using Capped.refl S.maxDistance _

theorem distTo_gt_of_pruned {path n : Str} {row : List ℚ} (h : S.RowFor path row)
    (hn : path <:+ n.reverse) (hmin : ¬ S.rowMin row ≤ S.maxDistance) :
    S.maxDistance < S.distTo n := by
  rw [rowMin_le_iff, exists_mem_le_iff h] at hmin
  obtain ⟨ws,hw,hle⟩ := exists_suffix_le_of_suffix S.sub_nonneg hn S.query.reverse
  have hmem : dist S.sub path ws ∈ cells S.sub path [] S.query := by
    have hp : ws.reverse <+: S.query := by simpa using List.reverse_prefix.mpr hw
    simpa using dist_mem_cells S.sub path [] hp
  by_contra hlt
  exact hmin ⟨_, hmem, hle.trans (not_lt.mp hlt)⟩

theorem nodeMatches_eq (node : TrieNode) (depth : ℕ) {path : Str} {row : List ℚ}
    (h : S.RowFor path row) (hn : ∀ n ∈ node.names, n.reverse = path) :
    S.nodeMatches ⟨node, row, depth⟩ = node.names.filterMap S.accept := by
  have hne : cells S.sub path [] S.query ≠ [] := by
    intro he
    simpa [he] using length_cells S.sub path [] S.query
  have hlast := getLastD_capped h hne
  rw [getLast_cells, List.append_nil] at hlast
  apply List.filterMap_congr
  intro n hm
  have hdist : S.distTo n = dist S.sub path S.query.reverse := by rw [distTo, hn n hm]
  simp only [accept, hdist]
  split
  · rfl
  · by_cases hle : dist S.sub path S.query.reverse ≤ S.maxDistance
    · simp only [hlast.1 hle, hle, if_true]
    · have hgt := hlast.2 (not_le.mp hle)
      simp only [hle, not_le.mpr hgt, if_false]

def visitForest (prevRow : List ℚ) (i : ℕ) : Forest → List Match
  | .nil => []
  | .cons ch names children siblings =>
      let cur := S.bandedRow ch prevRow i
      visitForest prevRow i siblings ++
        if S.rowMin cur ≤ S.maxDistance then
          S.nodeMatches ⟨⟨names, children⟩, cur, i⟩ ++ visitForest cur (i + 1) children
        else []

def visitFrame (f : Frame) : List Match :=
  S.nodeMatches f ++ S.visitForest f.row (f.depth + 1) f.node.children

theorem flatMap_pushChildren (prevRow : List ℚ) (i : ℕ) (fs : Forest) (stack : List Frame) :
    (S.pushChildren prevRow i fs stack).flatMap S.visitFrame =
      S.visitForest prevRow i fs ++ stack.flatMap S.visitFrame := by
  induction fs generalizing stack with
  | nil => rfl
  | cons ch names children siblings _ ih =>
    simp only [pushChildren, visitForest, ih]
    split
    · simp [visitFrame]
    · simp

theorem searchLoop_eq (stack : List Frame) (found : List Match) :
    S.searchLoop stack found = found ++ stack.flatMap S.visitFrame := by
  induction stack, found using Search.searchLoop.induct S with
  | case1 found => simp [searchLoop]
  | case2 f stack found ih =>
    rw [searchLoop, ih, flatMap_pushChildren]
    simp [visitFrame]

theorem visitForest_perm (hd : 0 ≤ S.maxDistance) {fs : Forest} {path : Str} {row : List ℚ}
    (hfs : fs.Placed path) (h : S.RowFor path row) :
    (S.visitForest row (path.length + 1) fs).Perm (fs.allNames.filterMap S.accept) := by
  induction fs generalizing path row with
  | nil => exact .refl _
  | cons ch names children siblings ihc ihs =>
    obtain ⟨hn,hc,hs⟩ := hfs
    have hcur : S.RowFor (ch :: path) _ := S.bandedRow_rowFor hd h
    simp only [visitForest, Forest.allNames, List.filterMap_append]
    refine List.perm_append_comm.trans (List.Perm.append ?_ (ihs hs h))
    split
    · rw [S.nodeMatches_eq _ _ hcur hn]
      exact (ihc hc hcur).append_left _
    · next hmin =>
      have hnil : ∀ n ∈ names ++ children.allNames, S.accept n = none := by
        intro n hm
        apply S.accept_eq_none
        refine S.distTo_gt_of_pruned hcur ?_ hmin
        rcases List.mem_append.mp hm with hm | hm
        · rw [hn n hm]
        · exact Forest.suffix_of_placed hc hm
      rw [← List.filterMap_append, List.filterMap_eq_nil_iff.mpr hnil]

theorem searchBanded_perm (hd : 0 ≤ S.maxDistance) {root : TrieNode} (h : root.Placed)
    (found : List Match) :
    (S.searchBanded root found).Perm (found ++ root.allNames.filterMap S.accept) := by
  have hnode := S.nodeMatches_eq root 0 S.startRow_rowFor
    (fun n hn => by rw [h.names n hn]; rfl)
  have hkids := S.visitForest_perm hd h.children S.startRow_rowFor
  simp only [searchBanded, searchLoop_eq, List.flatMap_cons, List.flatMap_nil, List.append_nil,
    visitFrame, hnode, TrieNode.allNames, List.filterMap_append]
  exact (hkids.append_left _).append_left _

end Search

end PicoSentry.Scan.Corpus
