import Mathlib.Data.List.Dedup
import Mathlib.Data.List.Lex
import Mathlib.Data.List.Sort
import PicoSentry.Watch.RegexTree

namespace PicoSentry.Watch.Regex

open Foundation

abbrev Group := List Str

abbrev Branch := List Group

def minPrefilterLiteral : Nat := 2

def maxPrefilterBranches : Nat := 64

def maxClassAlternatives : Nat := 32

def sortedSet (xs : List Str) : List Str := xs.dedup.insertionSort (· ≤ ·)

theorem mem_sortedSet {xs : List Str} {x : Str} : x ∈ sortedSet xs ↔ x ∈ xs := by
  rw [sortedSet, List.mem_insertionSort, List.mem_dedup]

section Extract

variable (U : Unicode)

def alternatives (chars : List Char) : Group :=
  sortedSet (chars.map (fun c => U.lowerStr [c]) ++
    chars.map (fun c => U.lowerStr (U.upperStr [c])))

def setChars (items : List SetItem) : Option (List Char) :=
  (explicitChars items).filter fun chars =>
    decide (1 ≤ chars.length) && decide (chars.length ≤ maxClassAlternatives)

def classAlternatives (items : List SetItem) : Option Group :=
  (setChars items).map (alternatives U)

def merge (branches variants : List Branch) : List Branch :=
  if variants = [] then branches
  else if maxPrefilterBranches < branches.length * variants.length then
    let union := sortedSet (variants.flatMap List.flatten)
    branches.map (· ++ [union])
  else branches.flatMap fun branch => variants.map (branch ++ ·)

def required (run : Str) : Bool :=
  decide (minPrefilterLiteral ≤ run.length) && run.all fun c => decide (c.toNat < 128)

def flush (branches : List Branch) (run : Str) : List Branch :=
  if required run then branches.map (· ++ [[U.lowerStr run]]) else branches

def mergeVariants (branches variants : List Branch) : List Branch :=
  if variants.any List.isEmpty then branches
  else merge branches (variants.filter fun v => !v.isEmpty)

mutual

def absorb (branches : List Branch) : Node → List Branch
  | .branch alts => mergeVariants branches (walkAlts alts)
  | .repeated _ least _ body =>
    if 1 ≤ least then mergeVariants branches (walkSequence [[]] [] body) else branches
  | .subpattern _ _ _ body => mergeVariants branches (walkSequence [[]] [] body)
  | .inSet items =>
    match classAlternatives U items with
    | some alts => branches.map (· ++ [alts])
    | none => branches
  | .literal _ => branches
  | .other _ _ => branches

def walkSequence (branches : List Branch) (run : Str) : Seq → List Branch
  | .nil => flush U branches run
  | .cons (.literal c) seq => walkSequence branches (run ++ [c]) seq
  | .cons node seq => walkSequence (absorb (flush U branches run) node) [] seq

def walkAlts : Alts → List Branch
  | .nil => []
  | .cons seq alts => walkSequence [[]] [] seq ++ walkAlts alts

end

def extractRequiredLiterals (parsed : Seq) : List Branch :=
  (walkSequence U [[]] [] parsed).filter fun branch => !branch.isEmpty

end Extract

end PicoSentry.Watch.Regex
