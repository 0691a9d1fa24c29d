import PicoSentry.Foundation.Base64
import PicoSentry.Foundation.CharTables
import PicoSentry.Foundation.FindAll
import PicoSentry.Foundation.FirstOf
import PicoSentry.Foundation.Unquote

namespace PicoSentry.Watch.Normalizer

open Foundation

section Patterns

def isStandard (c : Char) : Bool := c.isAlphanum || c == '+' || c == '/'

def isUrlsafe (c : Char) : Bool := c.isAlphanum || c == '_' || c == '-'

def isHex (c : Char) : Bool := (Json.hexValue c).isSome

def padsOf (text : Str) : Str := (text.takeWhile (· = '=')).take 2

-- A run of at least twelve characters and up to two padding signs.
def readRun (p : Char → Bool) (text : Str) : Option (Str × Str) :=
  if (text.takeWhile p).length < 12 then none
  else some (text.takeWhile p ++ padsOf (text.dropWhile p),
    (text.dropWhile p).drop (padsOf (text.dropWhile p)).length)

def base64Re : Matcher Str := fun _ => readRun isStandard

def base64UrlsafeRe : Matcher Str := fun _ => readRun isUrlsafe

def readHexDigits (text : Str) : Option (Str × Str) :=
  if (text.takeWhile isHex).length < 20 then none else some (text.takeWhile isHex, text.dropWhile isHex)

def readHex (text : Str) : Option (Str × Str) :=
  match literal "0x".toList text with
  | some rest =>
    match readHexDigits rest with
    | some found => some ("0x".toList ++ found.1, found.2)
    | none => readHexDigits text
  | none => readHexDigits text

def hexRe : Matcher Str := fun _ => readHex

def urlEncAt : Str → Bool
  | '%' :: a :: b :: _ => isHex a && isHex b
  | _ => false

-- &#(?:[0-9]{2,}|x[0-9a-fA-F]{2,});?|&[a-zA-Z]{2,8};
def htmlEntityAt : Str → Bool
  | '&' :: '#' :: 'x' :: a :: b :: _ => isHex a && isHex b
  | '&' :: '#' :: a :: b :: _ => a.isDigit && b.isDigit
  | '&' :: rest =>
    let name := rest.takeWhile Char.isAlpha
    2 ≤ name.length && name.length ≤ 8 && (rest.dropWhile Char.isAlpha).head? = some ';'
  | _ => false

def rot13GateWords : List Str :=
  ["vtaber", "sbetrg", "qvfertneq", "bireevqr", "qvfnoyr", "ercrng", "rivy", "znyvpvbhf", "unpxre", "pbafrag",
   "cebzcg", "rkgenpg", "erfbyir", "qroht", "hfre", "vachg", "grkg", "genafsre", "erdhrfg", "dhrel",
   "naq"].map String.toList

def rot13GatePhrases : List (List Str) :=
  [["flfgrz", "cebzcg"], ["gheavat", "bss"], ["lbh", "ner"], ["npg", "nf"], ["sebz", "abj", "ba"],
   ["fgbc", "orvat"], ["fubj", "lbhe"], ["ghea", "bss"], ["naq", "gura"]].map fun words => words.map String.toList

end Patterns

section Payloads

variable (T : CharTables)

def isControl (c : Char) : Bool := c.toNat < 32 || c.toNat = 0x7F

def stripControlChars (payload : Str) : Str := payload.filter fun c => !isControl c

def printableCount (payload : Str) : Nat :=
  if payload.all fun c => c.toNat < 128 then (stripControlChars payload).length else payload.countP T.printable

-- The two quotients are compared as quotients of integers.
def isTextlike (raw : List Nat) (payload : Str) : Bool :=
  if payload.length < 6 ∨ 10 * payload.length < 7 * raw.length then false
  else 6 * payload.length ≤ 10 * printableCount T payload

def textPayload (raw : List Nat) : Option Str :=
  let payload := Url.decodeIgnoring raw
  if isTextlike T raw payload then some (stripControlChars payload) else none

def addDecoded (decoder : Str → Option (List Nat)) (run : Str) : Option Str := (decoder run).bind (textPayload T)

def removeHexPrefix (run : Str) : Str := (literal "0x".toList run).getD run

def hexPayload (run : Str) : Option Str := (Base64.fromHex (removeHexPrefix run)).bind (textPayload T)

def matchWord : Str → Str → Option Str
  | [], text => some text
  | _ :: _, [] => none
  | c :: word, x :: text => if T.sameIgnoringCase c x then matchWord word text else none

def matchPhrase : List Str → Str → Option Str
  | [], text => some text
  | [word], text => matchWord T word text
  | word :: words, text => do
      let gap ← matchWord T word text
      let rest ← spaces T.space gap
      matchPhrase words rest

def rot13GateHits (text : Str) : Bool :=
  let lowered := T.lowerStr text
  rot13GateWords.any (fun word => word <:+: lowered) ||
    rot13GatePhrases.any fun words =>
      words.all (fun word => word <:+: lowered) && text.tails.any fun rest => (matchPhrase T words rest).isSome

def rot13Char (c : Char) : Char :=
  if 'a' ≤ c ∧ c ≤ 'z' then Char.ofNat (97 + (c.toNat - 97 + 13) % 26)
  else if 'A' ≤ c ∧ c ≤ 'Z' then Char.ofNat (65 + (c.toNat - 65 + 13) % 26)
  else c

def decodeRot13 (text : Str) : Str := text.map rot13Char

end Payloads

section DecodePass

variable (T : CharTables) (htmlUnescape : Str → Option Str)

def standardRuns (text : Str) : List Str := finditer base64Re text

def urlsafeRuns (text : Str) : List Str := finditer base64UrlsafeRe text

def base64Payloads (text : Str) : List Str :=
  (standardRuns text).filterMap (addDecoded T Base64.decode) ++
    (urlsafeRuns text).filterMap (addDecoded T Base64.urlsafeDecode)

def subScannedHex (text : Str) : List Str :=
  (standardRuns text).flatMap fun run => (finditer hexRe run).filterMap (hexPayload T)

-- What html.unescape adds; the number of a reference can be too long for int, which raises.
def htmlPayloads (text : Str) : Option (List Str) :=
  if text.tails.any htmlEntityAt then (htmlUnescape text).map fun unescaped => [unescaped] else some []

def accepted (text : Str) (offered : List Str) : List Str :=
  firstOf id [] (offered.filter fun cand => cand ≠ [] ∧ cand ≠ text)

def decodePass (text : Str) : Option (List Str) := do
  let unescaped ← htmlPayloads htmlUnescape text
  return accepted text
    (base64Payloads T text ++
      ((if rot13GateHits T text then [decodeRot13 text] else []) ++
        ((if text.tails.any urlEncAt then [Url.unquote text] else []) ++ (subScannedHex T text ++ unescaped))))

def hexPayloads (text : Str) : List Str := firstOf id [] ((finditer hexRe text).filterMap (hexPayload T))

end DecodePass

end PicoSentry.Watch.Normalizer
