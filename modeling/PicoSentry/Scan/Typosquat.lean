import PicoSentry.Foundation.EditDistance
import PicoSentry.Foundation.Text
import PicoSentry.Foundation.Result
import Mathlib.Data.List.Lex
import Mathlib.Data.Finset.Sort
import Mathlib.Data.Prod.Lex
import Mathlib.Data.Rat.Floor

namespace PicoSentry.Scan.Typosquat

open Foundation
open Foundation.EditDistance

def keyboardAdj : List (Char × List Char) :=
  [('q', ['w', 'a']),
   ('w', ['q', 'e', 'a', 's']),
   ('e', ['w', 'r', 's', 'd']),
   ('r', ['e', 't', 'd', 'f']),
   ('t', ['r', 'y', 'f', 'g']),
   ('y', ['t', 'u', 'g', 'h']),
   ('u', ['y', 'i', 'h', 'j']),
   ('i', ['u', 'o', 'j', 'k']),
   ('o', ['i', 'p', 'k', 'l']),
   ('p', ['o', 'l']),
   ('a', ['q', 'w', 's', 'z']),
   ('s', ['w', 'e', 'a', 'd', 'z', 'x']),
   ('d', ['e', 'r', 's', 'f', 'x', 'c']),
   ('f', ['r', 't', 'd', 'g', 'c', 'v']),
   ('g', ['t', 'y', 'f', 'h', 'v', 'b']),
   ('h', ['y', 'u', 'g', 'j', 'b', 'n']),
   ('j', ['u', 'i', 'h', 'k', 'n', 'm']),
   ('k', ['i', 'o', 'j', 'l', 'm']),
   ('l', ['o', 'p', 'k']),
   ('z', ['a', 's', 'x']),
   ('x', ['s', 'd', 'z', 'c']),
   ('c', ['d', 'f', 'x', 'v']),
   ('v', ['f', 'g', 'c', 'b']),
   ('b', ['g', 'h', 'v', 'n']),
   ('n', ['h', 'j', 'b', 'm']),
   ('m', ['j', 'k', 'n'])]

def keyboardNeighbours : Str → List Str
  | [c] => ((keyboardAdj.lookup c).getD []).map ([·])
  | _ => []

def isKeyboardAdjacent (U : Unicode) (a b : Char) : Bool :=
  let al := U.lowerStr [a]
  let bl := U.lowerStr [b]
  if al = bl then false
  else decide (bl ∈ keyboardNeighbours al) || decide (al ∈ keyboardNeighbours bl)

section Rows

variable {R : Type} [CommRing R] [LinearOrder R]

def distanceRow (sub : Char → Char → R) (ca : Char) : R → List R → Str → List R
  | left, p :: q :: ps, cb :: bs =>
      let cell := min (min (q + 1) (left + 1)) (p + sub ca cb)
      cell :: distanceRow sub ca cell (q :: ps) bs
  | _, _, _ => []

def distanceRows (sub : Char → Char → R) (b : Str) : R → List R → Str → List R
  | _, prev, [] => prev
  | i, prev, ca :: a =>
      distanceRows sub b (i + 1) ((i + 1) :: distanceRow sub ca (i + 1) prev b) a

def initialRow (n : Nat) : List R := (List.range (n + 1)).map fun k => (k : R)

def distanceOrdered (sub : Char → Char → R) (a b : Str) : R :=
  if b.length = 0 then a.length
  else (distanceRows sub b 0 (initialRow b.length) a).getLastD 0

def distance (sub : Char → Char → R) (a b : Str) : R :=
  if a.length < b.length then distanceOrdered sub b a else distanceOrdered sub a b

end Rows

def editDistance (a b : Str) : ℤ := distance unitCost a b

def keyboardCost (U : Unicode) (a b : Char) : ℚ :=
  if a = b then 0 else if isKeyboardAdjacent U a b then 1 / 2 else 1

def keyboardDistance (U : Unicode) (a b : Str) : ℚ := distance (keyboardCost U) a b

abbrev Match := Str × ℚ

def Match.key (m : Match) : ℚ ×ₗ Str := toLex (m.2, m.1)

def sortMatches (ms : List Match) : List Match :=
  ms.mergeSort fun m m' => decide (m.key ≤ m'.key)

def distanceFn (U : Unicode) (useKeyboard : Bool) (a b : Str) : ℚ :=
  if useKeyboard then keyboardDistance U a b else (editDistance a b : ℚ)

def startsWith (s : Str) (c : Char) : Bool := s.head? = some c

def checkCandidate (U : Unicode) (depName : Str) (maxDistance : ℚ) (useKeyboard : Bool)
    (priority : Finset Str) (popular : Str) : Except PyError (Option Match) :=
  let shortQuery := depName.length < 4
  if popular = depName then .ok none
  else if shortQuery ∧ popular ∉ priority then .ok none
  else if maxDistance < |(depName.length : ℚ) - popular.length| then .ok none
  else
    let dist := distanceFn U useKeyboard depName popular
    if maxDistance < dist then .ok none
    else if shortQuery ∧ popular.length < 4 ∧ 1 < dist then .ok none
    else if shortQuery ∧ 4 ≤ popular.length then
      match depName with
      | [] => .error .indexError
      | c :: _ => .ok (if startsWith popular c then some (popular, dist) else none)
    else .ok (some (popular, dist))

def sortedNames (names : Finset Str) : List Str := names.sort (· ≤ ·)

@[simp] theorem mem_sortedNames {names : Finset Str} {n : Str} :
    n ∈ sortedNames names ↔ n ∈ names := Finset.mem_sort _

theorem sortedNames_nodup (names : Finset Str) : (sortedNames names).Nodup :=
  Finset.sort_nodup _ _

def checkTyposquat (U : Unicode) (depName : Str) (corpus : Finset Str) (maxDistance : ℚ)
    (useKeyboard : Bool) (priorityNames : Option (Finset Str)) :
    Except PyError (List Match) := do
  if startsWith depName '@' then return []
  let priority := priorityNames.getD corpus
  let found ← collect (checkCandidate U depName maxDistance useKeyboard priority)
    (sortedNames corpus)
  return sortMatches found

section RowSpec

variable {R : Type} [CommRing R] [LinearOrder R] (sub : Char → Char → R)

theorem distanceRow_cells (ca : Char) (xs ys bs : Str) :
    dist sub (ca :: xs) ys :: distanceRow sub ca (dist sub (ca :: xs) ys) (cells sub xs ys bs) bs =
      cells sub (ca :: xs) ys bs := by
  induction bs generalizing ys with
  | nil => simp [cells, distanceRow]
  | cons cb bs ih =>
    have hcell : min (min (dist sub xs (cb :: ys) + 1) (dist sub (ca :: xs) ys + 1))
        (dist sub xs ys + sub ca cb) = dist sub (ca :: xs) (cb :: ys) :=
      (dist_cons_cons sub ca cb xs ys).symm
    cases bs with
    | nil => simp [cells, distanceRow, hcell]
    | cons cb' bs =>
      have hrest := ih (cb :: ys)
      simp only [cells, distanceRow, hcell, List.cons.injEq, true_and] at hrest ⊢
      exact hrest

theorem initialRow_eq_cells (bs : Str) : initialRow bs.length = cells sub [] [] bs := by
  have hgen : ∀ ys : Str, cells sub [] ys bs =
      (List.range' ys.length (bs.length + 1)).map fun k => (k : R) := by
    induction bs with
    | nil => simp [cells]
    | cons b bs ih =>
      intro ys
      simp [cells, ih, List.range'_succ]
  rw [hgen, initialRow, List.range_eq_range', List.length_nil]

theorem distanceRows_cells (bs a xs : Str) (i : R) (hi : i = xs.length) :
    distanceRows sub bs i (cells sub xs [] bs) a = cells sub (a.reverse ++ xs) [] bs := by
  induction a generalizing xs i with
  | nil => simp [distanceRows]
  | cons ca a ih =>
    have hrow : (i + 1) :: distanceRow sub ca (i + 1) (cells sub xs [] bs) bs =
        cells sub (ca :: xs) [] bs := by
      have h := distanceRow_cells sub ca xs [] bs
      rw [dist_nil_right] at h
      simpa [hi] using h
    rw [distanceRows, hrow, ih (ca :: xs) (i + 1) (by simp [hi])]
    simp

theorem distanceOrdered_eq_dist (a b : Str) :
    distanceOrdered sub a b = dist sub a.reverse b.reverse := by
  unfold distanceOrdered
  split
  · next h => simp [List.length_eq_zero_iff.mp h]
  · have hne : cells sub a.reverse [] b ≠ [] := by
      intro he
      simpa [he] using length_cells sub a.reverse [] b
    rw [initialRow_eq_cells sub b, distanceRows_cells sub b a [] 0 (by simp), List.append_nil,
      List.getLastD_eq_getLast?, List.getLast?_eq_some_getLast hne, getLast_cells]
    simp

theorem distance_eq_dist {sub : Char → Char → R} (hsym : ∀ a b, sub a b = sub b a) (a b : Str) :
    distance sub a b = dist sub a.reverse b.reverse := by
  unfold distance
  split
  · rw [distanceOrdered_eq_dist, dist_comm hsym]
  · rw [distanceOrdered_eq_dist]

end RowSpec

theorem isKeyboardAdjacent_comm (U : Unicode) (a b : Char) :
    isKeyboardAdjacent U a b = isKeyboardAdjacent U b a := by
  unfold isKeyboardAdjacent
  simp only [eq_comm (a := U.lowerStr [a]), Bool.or_comm]

theorem keyboardCost_comm (U : Unicode) (a b : Char) : keyboardCost U a b = keyboardCost U b a := by
  simp only [keyboardCost, isKeyboardAdjacent_comm U a b, eq_comm (a := a)]

def substitutionCost (U : Unicode) (useKeyboard : Bool) (a b : Char) : ℚ :=
  if useKeyboard then keyboardCost U a b else unitCost a b

theorem substitutionCost_comm (U : Unicode) (useKeyboard : Bool) (a b : Char) :
    substitutionCost U useKeyboard a b = substitutionCost U useKeyboard b a := by
  simp only [substitutionCost, keyboardCost_comm U a b, unitCost_comm (R := ℚ) a b]

theorem substitutionCost_nonneg (U : Unicode) (useKeyboard : Bool) (a b : Char) :
    0 ≤ substitutionCost U useKeyboard a b := by
  unfold substitutionCost
  split
  · unfold keyboardCost
    split
    · exact le_rfl
    · split <;> norm_num
  · exact unitCost_nonneg a b

theorem cast_dist_unitCost (xs ys : Str) :
    ((dist (unitCost (R := ℤ)) xs ys : ℤ) : ℚ) = dist unitCost xs ys := by
  induction xs generalizing ys with
  | nil => simp
  | cons x xs ihx =>
    induction ys with
    | nil => simp only [dist_nil_right]; norm_cast
    | cons y ys ihy =>
      rw [dist_cons_cons, dist_cons_cons]
      push_cast
      rw [ihx, ihx, ihy]
      congr 2
      unfold unitCost
      split <;> simp

theorem distanceFn_eq_dist (U : Unicode) (useKeyboard : Bool) (a b : Str) :
    distanceFn U useKeyboard a b =
      dist (substitutionCost U useKeyboard) a.reverse b.reverse := by
  unfold distanceFn
  split
  · next h =>
    subst h
    exact distance_eq_dist (keyboardCost_comm U) a b
  · next h =>
    rw [editDistance, distance_eq_dist unitCost_comm, cast_dist_unitCost]
    simp only [Bool.not_eq_true] at h
    subst h
    rfl

theorem length_diff_le_distanceFn (U : Unicode) (useKeyboard : Bool) (a b : Str) :
    |(a.length : ℚ) - b.length| ≤ distanceFn U useKeyboard a b := by
  rw [distanceFn_eq_dist]
  have hl := length_le_dist_add (substitutionCost_nonneg U useKeyboard) a.reverse b.reverse
  have hr := length_le_dist_add (substitutionCost_nonneg U useKeyboard) b.reverse a.reverse
  rw [dist_comm (substitutionCost_comm U useKeyboard) b.reverse] at hr
  simp only [List.length_reverse] at hl hr
  rw [abs_le]
  constructor <;> linarith

section Metric

theorem keyboardCost_cases (U : Unicode) (a b : Char) :
    (a = b ∧ keyboardCost U a b = 0) ∨
      a ≠ b ∧ (keyboardCost U a b = 1 / 2 ∨ keyboardCost U a b = 1) := by
  unfold keyboardCost
  split
  · next h => exact .inl ⟨h, rfl⟩
  · next h =>
    split
    · exact .inr ⟨h, .inl rfl⟩
    · exact .inr ⟨h, .inr rfl⟩

theorem unitCost_cases (a b : Char) :
    (a = b ∧ (unitCost a b : ℚ) = 0) ∨ a ≠ b ∧ (unitCost a b : ℚ) = 1 := by
  unfold unitCost
  split
  · next h => exact .inl ⟨h, rfl⟩
  · next h => exact .inr ⟨h, rfl⟩

theorem substitutionCost_cases (U : Unicode) (useKeyboard : Bool) (a b : Char) :
    (a = b ∧ substitutionCost U useKeyboard a b = 0) ∨
      a ≠ b ∧ 1 / 2 ≤ substitutionCost U useKeyboard a b ∧ substitutionCost U useKeyboard a b ≤ 1 := by
  unfold substitutionCost
  cases useKeyboard with
  | true =>
    rw [if_pos rfl]
    rcases keyboardCost_cases U a b with h | ⟨hne,h | h⟩
    · exact .inl h
    · exact .inr ⟨hne, by rw [h]; norm_num⟩
    · exact .inr ⟨hne, by rw [h]; norm_num⟩
  | false =>
    rw [if_neg (by decide)]
    rcases unitCost_cases a b with h | ⟨hne,h⟩
    · exact .inl h
    · exact .inr ⟨hne, by rw [h]; norm_num⟩

theorem substitutionCost_eq_zero_iff (U : Unicode) (useKeyboard : Bool) (a b : Char) :
    substitutionCost U useKeyboard a b = 0 ↔ a = b := by
  rcases substitutionCost_cases U useKeyboard a b with ⟨heq,hzero⟩ | ⟨hne,hhalf,-⟩
  · exact iff_of_true hzero heq
  · exact iff_of_false (by linarith) hne

theorem substitutionCost_triangle (U : Unicode) (useKeyboard : Bool) (a b c : Char) :
    substitutionCost U useKeyboard a c ≤
      substitutionCost U useKeyboard a b + substitutionCost U useKeyboard b c := by
  rcases substitutionCost_cases U useKeyboard a b with ⟨rfl,hab⟩ | ⟨-,hab,-⟩
  · rw [hab, zero_add]
  · rcases substitutionCost_cases U useKeyboard b c with ⟨rfl,hbc⟩ | ⟨-,hbc,-⟩
    · rw [hbc, add_zero]
    · rcases substitutionCost_cases U useKeyboard a c with ⟨-,hac⟩ | ⟨-,-,hac⟩ <;> linarith

theorem distance_fn_metric (U : Unicode) (useKeyboard : Bool) (a b c : Str) :
    (distanceFn U useKeyboard a b = 0 ↔ a = b) ∧
      distanceFn U useKeyboard a b = distanceFn U useKeyboard b a ∧
        distanceFn U useKeyboard a c ≤ distanceFn U useKeyboard a b + distanceFn U useKeyboard b c := by
  simp only [distanceFn_eq_dist]
  have hnonneg := substitutionCost_nonneg U useKeyboard
  have hcomm := substitutionCost_comm U useKeyboard
  refine ⟨?_, dist_comm hcomm _ _, ?_⟩
  · rw [dist_eq_zero_iff hnonneg (substitutionCost_eq_zero_iff U useKeyboard), List.reverse_inj]
  · exact dist_triangle hnonneg hcomm (substitutionCost_triangle U useKeyboard) _ _ _

theorem keyboard_distance_bounds (U : Unicode) (a b : Str) :
    (editDistance a b : ℚ) / 2 ≤ keyboardDistance U a b ∧ keyboardDistance U a b ≤ editDistance a b := by
  rw [editDistance, distance_eq_dist unitCost_comm, cast_dist_unitCost, keyboardDistance,
    distance_eq_dist (keyboardCost_comm U)]
  constructor
  · have hhalf : ∀ x y, (1 / 2 : ℚ) * unitCost x y ≤ keyboardCost U x y := fun x y => by
      rcases keyboardCost_cases U x y with ⟨rfl,h⟩ | ⟨hne,h | h⟩
      · rw [h, unitCost, if_pos rfl, mul_zero]
      · rw [h, unitCost, if_neg hne, mul_one]
      · rw [h, unitCost, if_neg hne]
        norm_num
    have hle := mul_dist_le (by norm_num) hhalf (by norm_num) a.reverse b.reverse
    linarith
  · have hone : ∀ x y, (1 : ℚ) * keyboardCost U x y ≤ unitCost x y := fun x y => by
      rcases keyboardCost_cases U x y with ⟨rfl,h⟩ | ⟨hne,h | h⟩
      · rw [h, unitCost, if_pos rfl, mul_zero]
      · rw [h, unitCost, if_neg hne]
        norm_num
      · rw [h, unitCost, if_neg hne, mul_one]
    have hle := mul_dist_le le_rfl hone zero_le_one a.reverse b.reverse
    rwa [one_mul] at hle

theorem distanceFn_keyboard_le (U : Unicode) (a b : Str) :
    distanceFn U true a b ≤ distanceFn U false a b := (keyboard_distance_bounds U a b).2

theorem distanceFn_nil (U : Unicode) (useKeyboard : Bool) (b : Str) :
    distanceFn U useKeyboard [] b = b.length := by
  rw [distanceFn_eq_dist, List.reverse_nil, dist_nil_left, List.length_reverse]

theorem checkCandidate_keyboard (U : Unicode) {depName : Str} (hne : depName ≠ []) (maxDistance : ℚ)
    (priority : Finset Str) (popular : Str) {r : Option Match}
    (h : checkCandidate U depName maxDistance false priority popular = .ok r) :
    ∃ r', checkCandidate U depName maxDistance true priority popular = .ok r' ∧
      ∀ m ∈ r, ∃ m' ∈ r', m'.1 = m.1 ∧ m'.2 ≤ m.2 := by
  obtain ⟨c,depName,rfl⟩ := List.exists_cons_of_ne_nil hne
  have hle := distanceFn_keyboard_le U (c :: depName) popular
  have hok : ∃ r', checkCandidate U (c :: depName) maxDistance true priority popular = .ok r' := by
    unfold checkCandidate
    dsimp only
    repeat' split
    all_goals exact ⟨_, rfl⟩
  cases r with
  | none =>
    obtain ⟨r',hr'⟩ := hok
    exact ⟨r', hr', by simp⟩
  | some m =>
    unfold checkCandidate at h ⊢
    dsimp only at h ⊢
    split at h
    · cases h
    · next hpopular =>
      rw [if_neg hpopular]
      split at h
      · cases h
      · next hpriority =>
        rw [if_neg hpriority]
        split at h
        · cases h
        · next hlength =>
          rw [if_neg hlength]
          split at h
          · cases h
          · next hfar =>
            rw [if_neg (fun hgt => hfar (hgt.trans_le hle))]
            split at h
            · cases h
            · next hpair =>
              rw [if_neg (fun hgt => hpair ⟨hgt.1, hgt.2.1, hgt.2.2.trans_le hle⟩)]
              split at h
              · next hshort =>
                rw [if_pos hshort]
                split at h
                · next hfirst =>
                  cases h
                  exact ⟨_, congrArg Except.ok (if_pos hfirst), by simpa using hle⟩
                · cases h
              · next hshort =>
                rw [if_neg hshort]
                cases h
                exact ⟨_, rfl, by simpa using hle⟩

theorem checkCandidate_nil (U : Unicode) (useKeyboard : Bool) (maxDistance : ℚ) (priority : Finset Str)
    (popular : Str) : checkCandidate U [] maxDistance useKeyboard priority popular =
      checkCandidate U [] maxDistance false priority popular := by
  simp only [checkCandidate, distanceFn_nil]

theorem mem_sortMatches {ms : List Match} {m : Match} : m ∈ sortMatches ms ↔ m ∈ ms :=
  (List.mergeSort_perm ms _).mem_iff

theorem check_typosquat_keyboard_superset (U : Unicode) (depName : Str) (corpus : Finset Str)
    (maxDistance : ℚ) (priorityNames : Option (Finset Str)) (ms : List Match)
    (h : checkTyposquat U depName corpus maxDistance false priorityNames = .ok ms) :
    ∃ ms', checkTyposquat U depName corpus maxDistance true priorityNames = .ok ms' ∧
      ∀ m ∈ ms, ∃ m' ∈ ms', m'.1 = m.1 ∧ m'.2 ≤ m.2 := by
  unfold checkTyposquat at h ⊢
  split at h
  · next hscoped =>
    cases h
    exact ⟨[], by rw [if_pos hscoped]; rfl, by simp⟩
  · next hscoped =>
    rw [if_neg hscoped]
    obtain ⟨found,hfound,hms⟩ := bind_eq_ok.mp h
    cases hms
    have hone : ∀ popular ∈ sortedNames corpus, ∀ r,
        checkCandidate U depName maxDistance false (priorityNames.getD corpus) popular = .ok r →
          ∃ r', checkCandidate U depName maxDistance true (priorityNames.getD corpus) popular = .ok r' ∧
            ∀ m ∈ r, ∃ m' ∈ r', m'.1 = m.1 ∧ m'.2 ≤ m.2 := by
      intro popular _ r hr
      by_cases hne : depName = []
      · subst hne
        exact ⟨r, (checkCandidate_nil U true _ _ _).trans hr, fun m hm => ⟨m, hm, rfl, le_rfl⟩⟩
      · exact checkCandidate_keyboard U hne _ _ _ hr
    obtain ⟨found',hfound',hsub⟩ := collect_related hone hfound
    refine ⟨sortMatches found', bind_eq_ok.mpr ⟨found', hfound', rfl⟩, fun m hm => ?_⟩
    obtain ⟨m',hm',hle⟩ := hsub m (mem_sortMatches.mp hm)
    exact ⟨m', mem_sortMatches.mpr hm', hle⟩

theorem check_typosquat_keyboard_superset_lodash :
    ∃ ms', checkTyposquat Unicode.basic "lodahs".toList {"lodash".toList} 2 true none = .ok ms' ∧
      ∀ m ∈ [("lodash".toList, (2 : ℚ))], ∃ m' ∈ ms', m'.1 = m.1 ∧ m'.2 ≤ m.2 := by
  refine check_typosquat_keyboard_superset _ _ _ _ _ _ ?_
  have hcandidate : checkCandidate Unicode.basic "lodahs".toList 2 false {"lodash".toList}
      "lodash".toList = .ok (some ("lodash".toList, 2)) := by decide +kernel
  rw [checkTyposquat, if_neg (by decide)]
  dsimp only
  rw [Option.getD_none, sortedNames, Finset.sort_singleton, collect_cons_ok hcandidate, collect]
  exact congrArg Except.ok (List.mergeSort_singleton _)

end Metric

end PicoSentry.Scan.Typosquat
