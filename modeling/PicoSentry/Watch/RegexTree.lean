import Mathlib.Data.List.Infix
import PicoSentry.Foundation.Text

namespace PicoSentry.Watch.Regex

open Foundation

inductive SetItem where
  | literal (c : Char)
  | range (lo hi : Nat)
  | negate
  | category (name : Str)
  deriving DecidableEq

inductive Op where
  | any
  | at
  | notLiteral
  | category
  | groupref
  | grouprefExists
  | assert
  | assertNot
  | atomicGroup
  | possessiveRepeat
  | failure
  deriving DecidableEq

mutual

inductive Node where
  | literal (c : Char)
  | branch (alts : Alts)
  | repeated (greedy : Bool) (least : Nat) (most : Option Nat) (body : Seq)
  | subpattern (group : Option Nat) (addFlags delFlags : Nat) (body : Seq)
  | inSet (items : List SetItem)
  | other (op : Op) (args : Str)

inductive Seq where
  | nil
  | cons (node : Node) (seq : Seq)

inductive Alts where
  | nil
  | cons (seq : Seq) (alts : Alts)

end

def literals : Str → Seq
  | [] => .nil
  | c :: s => .cons (.literal c) (literals s)

def single (node : Node) : Seq := .cons node .nil

def explicitChars : List SetItem → Option (List Char)
  | [] => some []
  | .literal c :: items => (explicitChars items).map (c :: ·)
  | .range lo hi :: items =>
    (explicitChars items).map ((List.range' lo (hi + 1 - lo)).map Char.ofNat ++ ·)
  | .negate :: _ => none
  | .category _ :: _ => none

section Language

variable (U : Unicode)

def setMatches (items : List SetItem) (x : Char) : Prop :=
  ∀ chars, explicitChars items = some chars → ∃ c ∈ chars, U.sameIgnoringCase c x = true

mutual

def Node.Matches : Node → Str → Prop
  | .literal c, w => ∃ x, w = [x] ∧ U.sameIgnoringCase c x = true
  | .branch alts, w => Alts.Matches alts w
  | .repeated _ least most body, w =>
    ∃ ws : List Str, least ≤ ws.length ∧ (∀ m ∈ most, ws.length ≤ m) ∧ w = ws.flatten ∧
      ∀ u ∈ ws, Seq.Matches body u
  | .subpattern _ _ _ body, w => Seq.Matches body w
  | .inSet items, w => ∃ x, w = [x] ∧ setMatches U items x
  | .other _ _, _ => True

def Seq.Matches : Seq → Str → Prop
  | .nil, w => w = []
  | .cons node seq, w => ∃ u v, w = u ++ v ∧ Node.Matches node u ∧ Seq.Matches seq v

def Alts.Matches : Alts → Str → Prop
  | .nil, _ => False
  | .cons seq alts, w => Seq.Matches seq w ∨ Alts.Matches alts w

end

def MatchesIn (seq : Seq) (text : Str) : Prop := ∃ w, w <:+: text ∧ seq.Matches U w

def runMatches (run w : Str) : Prop := List.Forall₂ (fun c x => U.sameIgnoringCase c x = true) run w

end Language

structure Engine (U : Unicode) (μ : Type) where
  search : Seq → Str → Option μ
  sound : ∀ seq text, (search seq text).isSome → MatchesIn U seq text
  literals_found : ∀ run text w, w <:+: text → runMatches U run w →
    (search (literals run) text).isSome
  chars_found : ∀ (chars : List Char) (text : Str), (∃ c ∈ chars, ∃ x ∈ text, U.sameIgnoringCase c x = true) →
    (search (single (.inSet (chars.map .literal))) text).isSome

end PicoSentry.Watch.Regex
