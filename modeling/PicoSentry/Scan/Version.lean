import Mathlib.Data.List.Lex
import Mathlib.Data.Prod.Lex
import Mathlib.Data.Sum.Order
import Mathlib.Order.WithBot
import PicoSentry.Foundation.Decimal

namespace PicoSentry.Scan.Version

open Foundation

abbrev Identifier := Int ⊕ₗ Str

abbrev VersionTuple := Nat ×ₗ Nat ×ₗ Nat ×ₗ WithTop (List Identifier)

def versionTuple (major minor patch : Nat) (pre : WithTop (List Identifier)) : VersionTuple :=
  toLex (major, toLex (minor, toLex (patch, pre)))

def identChar (c : Char) : Bool := c.isAlphanum || c = '.' || c = '_' || c = '-'

section Scan

variable (U : Unicode)

def digits (s : Str) : Option (Str × Str) :=
  let isDigit := fun c => (U.digit c).isSome
  if s.takeWhile isDigit = [] then none else some (s.takeWhile isDigit, s.dropWhile isDigit)

def dot : Str → Option Str
  | '.' :: s => some s
  | _ => none

def int (ds : Str) : Nat := ds.foldl (fun n c => 10 * n + (U.digit c).getD 0) 0

def preRelease : Str → Str
  | c :: s => if c = '-' ∨ c = '.' then s.takeWhile identChar else []
  | [] => []

def semverAt (s : Str) : Option (Nat × Nat × Nat × Str) := do
  let (major, s) ← digits U s
  let s ← dot s
  let (minor, s) ← digits U s
  let s ← dot s
  let (patch, s) ← digits U s
  return (int U major, int U minor, int U patch, preRelease s)

def semverSearch : Str → Option (Nat × Nat × Nat × Str)
  | [] => none
  | c :: s => (semverAt U (c :: s)).or (semverSearch s)

def dropV : Str → Str
  | 'v' :: s => s
  | s => s

def shortVersion (s : Str) : Option (Nat × Nat) := do
  let (major, s) ← digits U (dropV s)
  if s = [] then return (int U major, 0)
  let s ← dot s
  let (minor, s) ← digits U s
  if s = [] then return (int U major, int U minor)
  none

end Scan

section PreRelease

def unsigned (s : Str) : Option Nat :=
  let groups := s.splitOn '_'
  if groups.all (fun g => !g.isEmpty && g.all isDigit) then some (digitsValue 0 groups.flatten)
  else none

def identifierInt : Str → Option Int
  | '-' :: s => (unsigned s).map fun n => -(n : Int)
  | s => (unsigned s).map fun n => (n : Int)

def identifier (s : Str) : Identifier :=
  match identifierInt s with
  | some n => toLex (.inl n)
  | none => toLex (.inr s)

def preTuple (pre : Str) : WithTop (List Identifier) :=
  let pre := pre.takeWhile (· ≠ '+')
  if pre = [] then ⊤ else some ((pre.splitOn '.').map identifier)

end PreRelease

def parseVersion (U : Unicode) (versionStr : Str) : Option VersionTuple :=
  match semverSearch U versionStr with
  | some (major, minor, patch, pre) => some (versionTuple major minor patch (preTuple pre))
  | none =>
    (shortVersion U (U.strip versionStr)).map fun (major, minor) => versionTuple major minor 0 ⊤

def versionInRange (U : Unicode) (v : VersionTuple) (rangeStr : Str) : Bool :=
  match U.strip rangeStr with
  | '>' :: '=' :: s => (parseVersion U s).any fun r => decide (r ≤ v)
  | '<' :: '=' :: s => (parseVersion U s).any fun r => decide (v ≤ r)
  | '>' :: s => (parseVersion U s).any fun r => decide (r < v)
  | '<' :: s => (parseVersion U s).any fun r => decide (v < r)
  | s => parseVersion U s = some v

end PicoSentry.Scan.Version
