import Mathlib.Data.List.Basic
import PicoSentry.Foundation.Dict
import PicoSentry.Foundation.Text

namespace PicoSentry.Foundation.PosixPath

def isAbs (path : Str) : Bool := path.head? = some '/'

def join (a b : Str) : Str :=
  if isAbs b then b
  else if a = [] ∨ a.getLast? = some '/' then a ++ b
  else a ++ '/' :: b

def rstripSlash (s : Str) : Str := (s.reverse.dropWhile (· = '/')).reverse

def dirname (p : Str) : Str :=
  let head := (p.reverse.dropWhile (· ≠ '/')).reverse
  if head.all (· = '/') then head else rstripSlash head

-- The suffix of pathlib for the last component of a path.
def suffix (name : Str) : Str :=
  let ext := (name.reverse.takeWhile (· ≠ '.')).reverse
  if '.' ∈ name ∧ ext ≠ [] ∧ ext.length + 1 < name.length then '.' :: ext else []

def initialSlashes (path : Str) : Nat :=
  if path.take 1 = ['/'] then
    if path.take 2 = ['/', '/'] ∧ path.take 3 ≠ ['/', '/', '/'] then 2 else 1
  else 0

-- The kept components are held in reverse, the last one first.
def normComponent (rooted : Bool) (kept : List Str) (comp : Str) : List Str :=
  if comp = [] ∨ comp = ['.'] then kept
  else if comp ≠ ['.', '.'] ∨ (rooted = false ∧ kept = []) ∨ kept.head? = some ['.', '.'] then
    comp :: kept
  else kept.tail

def normpath (path : Str) : Str :=
  let slashes := initialSlashes path
  let kept := (path.splitOn '/').foldl (normComponent (slashes ≠ 0)) []
  let joined := List.replicate slashes '/' ++ (kept.reverse.intersperse ['/']).flatten
  if joined = [] then ['.'] else joined

example : normpath "/usr/lib/../bin/./x//y".toList = "/usr/bin/x/y".toList := by decide

end PicoSentry.Foundation.PosixPath

namespace PicoSentry.Foundation

-- What reading a file as UTF-8 text meets: the text, other bytes, or an OSError.
inductive FileContent where
  | text (s : Str)
  | undecodable
  | unreadable
deriving DecidableEq

namespace Dict

variable {κ ν : Type} [DecidableEq κ]

def Holds (P : κ → ν → Prop) (d : Dict κ ν) : Prop := ∀ k v, d.get? k = some v → P k v

variable {P Q : κ → ν → Prop} {d : Dict κ ν}

theorem holds_nil : Holds P ([] : Dict κ ν) :=
  fun _ _ hget => absurd hget.symm (Option.some_ne_none _)

theorem Holds.mono (h : Holds P d) (himp : ∀ k v, P k v → Q k v) : Holds Q d :=
  fun k v hget => himp k v (h k v hget)

theorem Holds.set (h : Holds P d) {k : κ} {v : ν} (hv : P k v) : Holds P (d.set k v) := by
  intro k' v' hget
  rw [get?_set] at hget
  split at hget
  · next heq =>
    cases hget
    exact heq ▸ hv
  · exact h k' v' hget

theorem Holds.erase (h : Holds P d) (k : κ) : Holds P (d.erase k) := by
  intro k' v hget
  rw [get?_erase] at hget
  split at hget
  · cases hget
  · exact h k' v hget

theorem Holds.eraseAll (h : Holds P d) (ks : List κ) : Holds P (ks.foldl Dict.erase d) := by
  induction ks generalizing d with
  | nil => exact h
  | cons k ks ih => exact ih (h.erase k)

end Dict

end PicoSentry.Foundation
