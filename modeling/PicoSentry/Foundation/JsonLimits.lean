import PicoSentry.Foundation.Json

namespace PicoSentry.Foundation.Json

section Raising

def maxDigits : Nat := 4300

-- int() refuses a literal of more digits.
def overlong (s : Str) : Bool :=
  match parseAtom s with
  | some (.int n, _) => decide (10 ^ maxDigits ≤ n.natAbs)
  | _ => false

mutual

-- Whether the scan meets an overlong integer or runs out of depth before any syntax error.
def raisesValue : Nat → Nat → Str → Bool
  | 0, _, _ => false
  | fuel + 1, depth, s =>
    match s, depth with
    | '[' :: _, 0 => true
    | '[' :: rest, depth + 1 =>
      match skipSpace rest with
      | ']' :: _ => false
      | rest' => raisesItems fuel depth rest'
    | '\x7b' :: _, 0 => true
    | '\x7b' :: rest, depth + 1 =>
      match skipSpace rest with
      | '\x7d' :: _ => false
      | rest' => raisesFields fuel depth rest'
    | s, _ => overlong s

def raisesItems : Nat → Nat → Str → Bool
  | 0, _, _ => false
  | fuel + 1, depth, s =>
    raisesValue fuel depth s ||
      match parseValue fuel s with
      | some (_, rest) =>
        match skipSpace rest with
        | ',' :: rest' => raisesItems fuel depth (skipSpace rest')
        | _ => false
      | none => false

def raisesFields : Nat → Nat → Str → Bool
  | 0, _, _ => false
  | fuel + 1, depth, s =>
    match s with
    | '"' :: quoted =>
      match scanString (quoted.length + 1) quoted with
      | some (_, rest) =>
        match skipSpace rest with
        | ':' :: rest' =>
          raisesValue fuel depth (skipSpace rest') ||
            match parseValue fuel (skipSpace rest') with
            | some (_, rest'') =>
              match skipSpace rest'' with
              | ',' :: tail => raisesFields fuel depth (skipSpace tail)
              | _ => false
            | none => false
        | _ => false
      | none => false
    | _ => false

end

-- json.loads raises, and no JSONDecodeError: a ValueError of int() or a RecursionError.
def loadsRaises (depth : Nat) (s : Str) : Bool :=
  s.head? ≠ some byteOrderMark && raisesValue (2 * s.length + 2) depth (skipSpace s)

end Raising

section Surrogates

def isSurrogate (n : Nat) : Bool := 0xD800 ≤ n && n < 0xE000

-- The escape stands for half of a pair.
def loneEscape : Str → Bool
  | 'u' :: rest =>
    match hexFour rest with
    | some (n, rest') => isSurrogate n && (0xDC00 ≤ n || (lowSurrogate rest').isNone)
    | none => false
  | _ => false

def loneSurrogate : Nat → Str → Bool
  | 0, _ => false
  | _ + 1, [] => false
  | fuel + 1, c :: rest =>
    if c = '"' then false
    else if c = '\\' then
      loneEscape rest ||
        match unescape rest with
        | some (_, rest') => loneSurrogate fuel rest'
        | none => false
    else loneSurrogate fuel rest

def fieldTexts : Nat → Str → List (Str × Str)
  | 0, _ => []
  | fuel + 1, s =>
    match s with
    | '"' :: quoted =>
      match scanString (quoted.length + 1) quoted with
      | some (k, rest) =>
        match skipSpace rest with
        | ':' :: rest' =>
          (k, skipSpace rest') ::
            match parseValue fuel (skipSpace rest') with
            | some (_, rest'') =>
              match skipSpace rest'' with
              | ',' :: tail => fieldTexts fuel (skipSpace tail)
              | _ => []
            | none => []
        | _ => []
      | none => []
    | _ => []

def surrogateAt (key s : Str) : Bool :=
  match skipSpace s with
  | '\x7b' :: rest =>
    match Dict.lastOf (fieldTexts (2 * s.length + 2) (skipSpace rest)) key with
    | some ('"' :: quoted) => loneSurrogate (quoted.length + 1) quoted
    | _ => false
  | _ => false

end Surrogates

example : loadsRaises 2 "[[1], [[2]]]".toList = true ∧ loadsRaises 3 "[[1], [[2]]]".toList = false ∧
    loadsRaises 1 "[1 [".toList = false := by
  decide +kernel

example : surrogateAt "a".toList "\x7b\"a\": \"\\ud83d\\ude00\"\x7d".toList = false ∧
    surrogateAt "a".toList "\x7b\"a\": \"\\ude00\"\x7d".toList = true := by
  decide +kernel

end PicoSentry.Foundation.Json
