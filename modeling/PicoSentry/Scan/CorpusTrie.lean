import PicoSentry.Scan.CorpusIndex

namespace PicoSentry.Scan.Corpus

open Foundation
open Foundation.EditDistance
open Typosquat

namespace Forest

def allNames : Forest → List Str
  | nil => []
  | cons _ names children siblings => names ++ children.allNames ++ siblings.allNames

-- Labels are read from the node back to the root, as the distance reads both words.
def Placed (path : Str) : Forest → Prop
  | nil => True
  | cons ch names children siblings =>
      (∀ n ∈ names, n.reverse = ch :: path) ∧ children.Placed (ch :: path) ∧ siblings.Placed path

theorem allNames_chain (name : Str) (c : Char) (rest : Str) :
    (chain name c rest).allNames = [name] := by
  induction rest generalizing c with
  | nil => rfl
  | cons d rest ih => simp [chain, allNames, ih]

theorem allNames_insert (name : Str) (fs : Forest) (c : Char) (rest : Str) :
    (fs.insert name c rest).allNames.Perm (name :: fs.allNames) := by
  induction fs generalizing c rest with
  | nil => simp [insert, allNames_chain, allNames]
  | cons ch names children siblings ihc ihs =>
    by_cases hc : ch = c
    · cases rest with
      | nil =>
        simp only [insert, hc, if_true, allNames, List.append_assoc]
        exact List.perm_middle
      | cons d rest =>
        simp only [insert, hc, if_true, allNames, List.append_assoc]
        exact ((ihc d rest).append_right _).append_left names |>.trans List.perm_middle
    · simp only [insert, hc, if_false, allNames]
      exact ((ihs c rest).append_left _).trans List.perm_middle

theorem placed_chain {name path : Str} {c : Char} {rest : Str}
    (h : name.reverse = rest.reverse ++ c :: path) : (chain name c rest).Placed path := by
  induction rest generalizing c path with
  | nil => simpa [chain, Placed] using h
  | cons d rest ih =>
    refine ⟨by simp, ih ?_, trivial⟩
    simpa using h

theorem placed_insert {name path : Str} {fs : Forest} {c : Char} {rest : Str}
    (hfs : fs.Placed path) (h : name.reverse = rest.reverse ++ c :: path) :
    (fs.insert name c rest).Placed path := by
  induction fs generalizing c rest path with
  | nil => exact placed_chain h
  | cons ch names children siblings ihc ihs =>
    obtain ⟨hn,hc,hs⟩ := hfs
    by_cases hch : ch = c
    · subst hch
      cases rest with
      | nil =>
        simp only [insert, if_true]
        refine ⟨?_, hc, hs⟩
        intro n hm
        rcases List.mem_append.mp hm with hm | hm
        · exact hn n hm
        · rw [List.mem_singleton.mp hm]
          simpa using h
      | cons d rest =>
        simp only [insert, if_true]
        exact ⟨hn, ihc hc (by simpa using h), hs⟩
    · simp only [insert, hch, if_false]
      exact ⟨hn, hc, ihs hs h⟩

theorem suffix_of_placed {path : Str} {fs : Forest} (h : fs.Placed path) {n : Str}
    (hn : n ∈ fs.allNames) : path <:+ n.reverse := by
  induction fs generalizing path with
  | nil => simp [allNames] at hn
  | cons ch names children siblings ihc ihs =>
    obtain ⟨hnames,hc,hs⟩ := h
    simp only [allNames, List.mem_append] at hn
    rcases hn with (hn | hn) | hn
    · rw [hnames n hn]
      exact List.suffix_cons _ _
    · exact (List.suffix_cons ch path).trans (ihc hc hn)
    · exact ihs hs hn

end Forest

namespace TrieNode

def allNames (node : TrieNode) : List Str := node.names ++ node.children.allNames

structure Placed (node : TrieNode) : Prop where
  names : ∀ n ∈ node.names, n = []
  children : node.children.Placed []

theorem empty_placed : empty.Placed := ⟨by simp [empty], trivial⟩

theorem allNames_insert (node : TrieNode) (name : Str) :
    (node.insert name).allNames.Perm (name :: node.allNames) := by
  cases name with
  | nil =>
    simp only [insert, allNames, List.append_assoc]
    exact List.perm_middle
  | cons c rest =>
    simp only [insert, allNames]
    exact ((Forest.allNames_insert _ _ c rest).append_left _).trans List.perm_middle

theorem Placed.insert {node : TrieNode} (h : node.Placed) (name : Str) :
    (node.insert name).Placed := by
  cases name with
  | nil =>
    refine ⟨?_, h.children⟩
    intro n hn
    rcases List.mem_append.mp hn with hn | hn
    · exact h.names n hn
    · exact List.mem_singleton.mp hn
  | cons c rest => exact ⟨h.names, Forest.placed_insert h.children (by simp)⟩

end TrieNode

section Tries

def bucketAt (tries : Dict ℕ TrieNode) (length : ℕ) : TrieNode := (tries.get? length).getD .empty

theorem bucketAt_insertName (tries : Dict ℕ TrieNode) (name : Str) (length : ℕ) :
    bucketAt (insertName tries name) length =
      if name.length = length then (bucketAt tries length).insert name
      else bucketAt tries length := by
  simp only [bucketAt, insertName, Dict.get?_set]
  split
  · next h => simp [h]
  · rfl

theorem insertNames_spec (ns : List Str) (tries : Dict ℕ TrieNode)
    (hp : ∀ length, (bucketAt tries length).Placed) (length : ℕ) :
    (bucketAt (ns.foldl insertName tries) length).Placed ∧
      (bucketAt (ns.foldl insertName tries) length).allNames.Perm
        ((ns.filter (·.length = length)) ++ (bucketAt tries length).allNames) := by
  induction ns generalizing tries with
  | nil => exact ⟨hp length, by simp⟩
  | cons n ns ih =>
    have hp' : ∀ l, (bucketAt (insertName tries n) l).Placed := by
      intro l
      rw [bucketAt_insertName]
      split
      · exact (hp l).insert n
      · exact hp l
    obtain ⟨hplaced,hperm⟩ := ih (insertName tries n) hp'
    refine ⟨hplaced, hperm.trans ?_⟩
    rw [bucketAt_insertName]
    by_cases hl : n.length = length
    · simp only [hl, if_true, List.filter_cons_of_pos, decide_true, List.cons_append]
      exact ((TrieNode.allNames_insert _ n).append_left _).trans List.perm_middle
    · simp [hl]

end Tries

end PicoSentry.Scan.Corpus
