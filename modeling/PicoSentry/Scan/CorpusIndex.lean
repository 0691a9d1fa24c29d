import PicoSentry.Foundation.Dict
import PicoSentry.Scan.Typosquat

namespace PicoSentry.Scan.Corpus

open Foundation
open Typosquat

def symspellMaxDistance : ℤ := 2

def deleteIndexChunks : ℤ := 16

def withinRow (ca : Char) : ℤ → List ℤ → Str → List ℤ
  | left, p :: q :: ps, cb :: bs =>
      let val := q + 1
      let deletion := left + 1
      let val := if deletion < val then deletion else val
      let substitution := if ca = cb then p else p + 1
      let val := if substitution < val then substitution else val
      val :: withinRow ca val (q :: ps) bs
  | _, _, _ => []

def withinRows (b : Str) (maxDistance : ℤ) : ℤ → List ℤ → Str → Option (List ℤ)
  | _, prev, [] => some prev
  | i, prev, ca :: a =>
      let row := withinRow ca i prev b
      if maxDistance < row.foldl min i then none
      else withinRows b maxDistance (i + 1) (i :: row) a

def levenshteinWithin (a b : Str) (maxDistance : ℤ) : ℤ :=
  let la : ℤ := a.length
  let lb : ℤ := b.length
  if maxDistance < la - lb ∨ maxDistance < lb - la then maxDistance + 1
  else if la = 0 then (if lb ≤ maxDistance then lb else maxDistance + 1)
  else match withinRows b maxDistance 1 (initialRow b.length) a with
    | none => maxDistance + 1
    | some prev =>
        let last := prev.getLastD 0
        if last ≤ maxDistance then last else maxDistance + 1

-- The children dictionary of a node, each entry followed by the entries inserted after it.
inductive Forest where
  | nil
  | cons (ch : Char) (names : List Str) (children siblings : Forest)

structure TrieNode where
  names : List Str
  children : Forest

namespace Forest

def size : Forest → Nat
  | nil => 0
  | cons _ _ children siblings => children.size + 1 + siblings.size

def chain (name : Str) : Char → Str → Forest
  | c, [] => cons c [name] nil nil
  | c, d :: rest => cons c [] (chain name d rest) nil

def insert (name : Str) : Forest → Char → Str → Forest
  | nil, c, rest => chain name c rest
  | cons ch names children siblings, c, rest =>
      if ch = c then
        match rest with
        | [] => cons ch (names ++ [name]) children siblings
        | d :: rest => cons ch names (children.insert name d rest) siblings
      else cons ch names children (siblings.insert name c rest)

end Forest

namespace TrieNode

def empty : TrieNode := ⟨[], .nil⟩

def insert (node : TrieNode) (name : Str) : TrieNode :=
  match name with
  | [] => { node with names := node.names ++ [name] }
  | c :: rest => { node with children := node.children.insert name c rest }

end TrieNode

def insertName (tries : Dict ℕ TrieNode) (name : Str) : Dict ℕ TrieNode :=
  let root := (tries.get? name.length).getD .empty
  tries.set name.length (root.insert name)

-- int() of a float drops the fraction towards zero.
def truncate (q : ℚ) : ℤ := if q < 0 then ⌈q⌉ else ⌊q⌋

structure Search where
  unicode : Unicode
  query : Str
  maxDistance : ℚ
  useKeyboard : Bool

structure Frame where
  node : TrieNode
  row : List ℚ
  depth : ℕ

namespace Search

variable (S : Search)

def sentinel : ℚ := S.maxDistance + 1

def band : ℤ := truncate S.maxDistance + 1

def cost (ch c : Char) : ℚ :=
  if ch = c then 0
  else if S.useKeyboard && isKeyboardAdjacent S.unicode ch c then 1 / 2
  else 1

def bandedCells (ch : Char) (lo hi : ℤ) : ℤ → ℚ → List ℚ → Str → List ℚ
  | j, left, p :: q :: ps, c :: cs =>
      let cell :=
        if lo ≤ j ∧ j ≤ hi then
          let val := q + 1
          let deletion := left + 1
          let val := if deletion < val then deletion else val
          let substitution := p + S.cost ch c
          if substitution < val then substitution else val
        else S.sentinel
      cell :: bandedCells ch lo hi (j + 1) cell (q :: ps) cs
  | _, _, _, _ => []

def bandedRow (ch : Char) (prevRow : List ℚ) (i : ℕ) : List ℚ :=
  let lo := if (i : ℤ) - S.band < 1 then 1 else (i : ℤ) - S.band
  let hi := if (S.query.length : ℤ) < i + S.band then (S.query.length : ℤ) else i + S.band
  (i : ℚ) :: S.bandedCells ch lo hi 1 i prevRow S.query

def rowMin (row : List ℚ) : ℚ := row.foldl min S.sentinel

def startRow : List ℚ :=
  (List.range (S.query.length + 1)).map fun k =>
    if (k : ℚ) ≤ S.maxDistance then (k : ℚ) else S.sentinel

def nodeMatches (f : Frame) : List Match :=
  f.node.names.filterMap fun candidate =>
    if candidate = S.query then none
    else if f.row.getLastD 0 ≤ S.maxDistance then some (candidate, f.row.getLastD 0)
    else none

def pushChildren (prevRow : List ℚ) (i : ℕ) : Forest → List Frame → List Frame
  | .nil, stack => stack
  | .cons ch names children siblings, stack =>
      let cur := S.bandedRow ch prevRow i
      pushChildren prevRow i siblings
        (if S.rowMin cur ≤ S.maxDistance then ⟨⟨names, children⟩, cur, i⟩ :: stack else stack)

end Search

def Frame.size (f : Frame) : ℕ := f.node.children.size + 1

theorem Search.size_pushChildren (S : Search) (prevRow : List ℚ) (i : ℕ) (fs : Forest)
    (stack : List Frame) :
    ((S.pushChildren prevRow i fs stack).map Frame.size).sum ≤
      fs.size + (stack.map Frame.size).sum := by
  induction fs generalizing stack with
  | nil => simp [pushChildren, Forest.size]
  | cons ch names children siblings _ ih =>
    simp only [pushChildren, Forest.size]
    refine (ih _).trans ?_
    split
    · simp only [List.map_cons, List.sum_cons, Frame.size]; omega
    · omega

def Search.searchLoop (S : Search) : List Frame → List Match → List Match
  | [], found => found
  | f :: stack, found =>
      S.searchLoop (S.pushChildren f.row (f.depth + 1) f.node.children stack)
        (found ++ S.nodeMatches f)
termination_by stack => (stack.map Frame.size).sum
decreasing_by
  have h := S.size_pushChildren f.row (f.depth + 1) f.node.children stack
  simp only [List.map_cons, List.sum_cons, Frame.size] at h ⊢
  omega

def Search.searchBanded (S : Search) (root : TrieNode) (found : List Match) : List Match :=
  S.searchLoop [⟨root, S.startRow, 0⟩] found

inductive Bucket where
  | one (name : Str)
  | many (names : List Str)

def Bucket.toList : Bucket → List Str
  | one name => [name]
  | many names => names

def deleteOne (name : Str) : List Str :=
  (List.range name.length).map fun i => name.take i ++ name.drop (i + 1)

def deleteTwo (name : Str) : List Str :=
  (List.range name.length).flatMap fun i =>
    ((List.range name.length).filter (i < ·)).map fun j =>
      name.take i ++ (name.take j).drop (i + 1) ++ name.drop (j + 1)

def addVariant (name : Str) (index : Dict Str Bucket) (variant : Str) : Dict Str Bucket :=
  match index.get? variant with
  | none => index.set variant (.one name)
  | some (.one current) => index.set variant (.many [current, name])
  | some (.many current) => index.set variant (.many (current ++ [name]))

def indexName (index : Dict Str Bucket) (name : Str) : Dict Str Bucket :=
  let index := ([name] ++ deleteOne name).foldl (addVariant name) index
  if 2 ≤ name.length then (deleteTwo name).foldl (addVariant name) index else index

def addBucket (index : Dict Str Bucket) (candidates : Finset Str) (variant : Str) : Finset Str :=
  match index.get? variant with
  | none => candidates
  | some bucket => candidates ∪ bucket.toList.toFinset

def deleteCandidates (index : Dict Str Bucket) (query : Str) (maxDistInt : ℤ) : Finset Str :=
  let candidates := ([query] ++ deleteOne query).foldl (addBucket index) ∅
  if 2 ≤ maxDistInt ∧ 2 ≤ query.length then (deleteTwo query).foldl (addBucket index) candidates
  else candidates

def searchDeletes (index : Dict Str Bucket) (query : Str) (maxDistInt : ℤ) : List Match :=
  (sortedNames (deleteCandidates index query maxDistInt)).filterMap fun candidate =>
    if candidate = query then none
    else
      let dist := levenshteinWithin query candidate maxDistInt
      if dist ≤ maxDistInt then some (candidate, (dist : ℚ)) else none

structure CorpusIndex where
  priorityNames : Finset Str
  names : List Str
  tries : Dict ℕ TrieNode
  deleteIndex : Dict Str Bucket
  deleteStep : ℕ
  deleteCursor : Option ℕ

namespace CorpusIndex

def deleteStop (ix : CorpusIndex) (step : ℕ) : ℕ :=
  match ix.deleteCursor with
  | none => ix.names.length
  | some cursor => min ix.names.length (cursor + step)

def advanceDeleteBuild (ix : CorpusIndex) (step : ℕ) : CorpusIndex :=
  let stop := ix.deleteStop step
  { ix with
    deleteIndex := ((ix.names.take stop).drop (ix.deleteCursor.getD 0)).foldl indexName
      ix.deleteIndex
    deleteCursor := if stop < ix.names.length then some stop else none }

def stepDeleteBuild (ix : CorpusIndex) (step : ℕ) : CorpusIndex :=
  match ix.deleteCursor with
  | none => ix
  | some _ => ix.advanceDeleteBuild step

def init (names priorityNames : Finset Str) (chunks : ℤ) : CorpusIndex :=
  let sorted := sortedNames (names ∪ priorityNames)
  let ix : CorpusIndex :=
    { priorityNames := priorityNames
      names := sorted
      tries := sorted.foldl insertName []
      deleteIndex := []
      deleteStep :=
        if 0 < chunks then (max 1 (-(Int.fdiv (-(sorted.length : ℤ)) chunks))).toNat
        else sorted.length
      deleteCursor := if 0 < chunks then some 0 else none }
  if chunks ≤ 0 then ix.advanceDeleteBuild sorted.length else ix

def searchLengthBuckets (ix : CorpusIndex) (S : Search) (maxDistInt : ℤ) : List Match :=
  let queryLen : ℤ := S.query.length
  let minLen := max 0 (queryLen - maxDistInt)
  let maxLen := queryLen + maxDistInt
  ((List.range (maxLen + 1).toNat).filter fun n : ℕ => minLen ≤ n).foldl (fun found length =>
    match ix.tries.get? length with
    | none => found
    | some root => S.searchBanded root found) []

def finishDeleteIndex (ix : CorpusIndex) : CorpusIndex := ix.stepDeleteBuild ix.names.length

def shortGuard (priorityNames : Finset Str) (name : Str) (m : Match) :
    Except PyError (Option Match) :=
  if m.1 ∉ priorityNames then .ok none
  else if m.1.length < 4 ∧ 1 < m.2 then .ok none
  else if 4 ≤ m.1.length then
    match name with
    | [] => .error .indexError
    | c :: _ => .ok (if startsWith m.1 c then some m else none)
  else .ok (some m)

def candidateMatches (ix : CorpusIndex) (S : Search) : CorpusIndex × List Match :=
  let maxDistInt := truncate S.maxDistance
  if S.useKeyboard ∨ symspellMaxDistance < maxDistInt then
    (ix, ix.searchLengthBuckets S maxDistInt)
  else
    let ix := ix.stepDeleteBuild ix.deleteStep
    if ix.deleteCursor = none then (ix, searchDeletes ix.deleteIndex S.query maxDistInt)
    else (ix, ix.searchLengthBuckets { S with useKeyboard := false } maxDistInt)

def nearMatches (U : Unicode) (ix : CorpusIndex) (name : Str) (maxDistance : ℚ)
    (useKeyboard : Bool) : CorpusIndex × Except PyError (List Match) :=
  if startsWith name '@' then (ix, .ok [])
  else
    let (ix, found) := ix.candidateMatches ⟨U, name, maxDistance, useKeyboard⟩
    let found :=
      if name.length < 4 then collect (shortGuard ix.priorityNames name) found else .ok found
    (ix, found.map sortMatches)

end CorpusIndex

inductive Op where
  | nearMatches (name : Str) (maxDistance : ℚ) (useKeyboard : Bool)
  | finishDeleteIndex

def applyOp (U : Unicode) (ix : CorpusIndex) : Op → CorpusIndex
  | .nearMatches name maxDistance useKeyboard => (ix.nearMatches U name maxDistance useKeyboard).1
  | .finishDeleteIndex => ix.finishDeleteIndex

end PicoSentry.Scan.Corpus
