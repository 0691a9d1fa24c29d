import PicoSentry.Foundation.CharTables
import PicoSentry.Foundation.Cut
import PicoSentry.Foundation.Decimal
import PicoSentry.Foundation.Substitute

namespace PicoSentry.Watch.Normalizer

open Foundation

section SpacedText

variable (T : CharTables)

-- (?:\s(\w))* in front of a text, and what it leaves.
def readUnits : Str → Str × Str
  | s :: w :: rest =>
    if T.space s && T.word w then (s :: w :: (readUnits rest).1, (readUnits rest).2) else ([], s :: w :: rest)
  | rest => ([], rest)

-- (?=\s|$|[,.;!?])
def unitsEnd : Str → Bool
  | [] => true
  | c :: _ => T.space c || [',', '.', ';', '!', '?'].contains c

-- Where nothing follows that may end the run, the run gives its last unit back.
def spacedSingleChar : Matcher Str
  | _, [] => none
  | before, c :: rest =>
    if before.all T.space && T.word c then
      let units := readUnits T rest
      if unitsEnd T units.2 then if units.1.length < 4 then none else some (c :: units.1, units.2)
      else if units.1.length < 6 then none
      else some (c :: units.1.take (units.1.length - 2), units.1.drop (units.1.length - 2) ++ units.2)
    else none

-- (\w)\s+(?=\w)
def gapAt : Matcher Str
  | _, [] => none
  | _, c :: rest =>
    if T.word c && rest.head?.any T.space && (rest.dropWhile T.space).head?.any T.word then
      some ([c], rest.dropWhile T.space)
    else none

def rejoin (raw : Str) : Str :=
  let collapsed := sub (gapAt T) raw
  if collapsed.length < 3 then raw
  else if raw.head?.any T.isUpper && (raw.drop 1).all fun c => T.isLower c || T.space c then
    collapsed.take 1 ++ T.lowerStr (collapsed.drop 1)
  else collapsed

def spacedAt : Matcher Str := fun before text => (spacedSingleChar T before text).map fun m => (rejoin T m.1, m.2)

-- \s{2,}
def blanksAt : Matcher Str := fun _ text =>
  if (text.takeWhile T.space).length < 2 then none else some ([' '], text.dropWhile T.space)

def collapseSpacedText (text : Str) : Str := sub (blanksAt T) (sub (spacedAt T) text)

end SpacedText

section SeparatorPunctuation

variable (T : CharTables)

def isSeparator (c : Char) : Bool := c == '.' || c == '-' || c == '_' || c == '/'

-- (?<=\w)[.\-_/](?=\w)
def separatorAt : Matcher Str
  | before, c :: d :: rest =>
    if before.any T.word && isSeparator c && T.word d then some ([' '], d :: rest) else none
  | _, _ => none

def llmTokenMarker : Matcher Str := fun _ text => do
  let rest ← literal "<|".toList text
  let after ← literal "|>".toList (rest.dropWhile (· ≠ '|'))
  if rest.takeWhile (· ≠ '|') = [] then none
  else return ("<|".toList ++ rest.takeWhile (· ≠ '|') ++ "|>".toList, after)

def isDecimal (c : Char) : Bool := (T.digit c).isSome

def digitDotDigitAt : Str → Bool
  | a :: '.' :: b :: _ => isDecimal T a && isDecimal T b
  | _ => false

-- \d{1,3}
def readOctet (text : Str) : Option (Str × Str) :=
  let digits := (text.takeWhile (isDecimal T)).take 3
  if digits = [] then none else some (digits, text.drop digits.length)

-- (?:\d{1,3}\.){n}
def readOctets : Nat → Str → Option (Str × Str)
  | 0, text => some ([], text)
  | n + 1, text => do
    let octet ← readOctet T text
    let rest ← literal ['.'] octet.2
    let octets ← readOctets n rest
    return (octet.1 ++ '.' :: octets.1, octets.2)

-- A digit is a word character, so each \b asks what stands on the other side.
def ipAddress : Matcher Str := fun before text =>
  if before.any T.word then none
  else do
    let octets ← readOctets T 3 text
    let octet ← readOctet T octets.2
    if octet.2.head?.any T.word then none else return (octets.1 ++ octet.1, octet.2)

def urlSchemes : List Str :=
  ["https", "http", "ftp", "postgres", "mysql", "mongodb", "redis", "mssql"].map String.toList

def urlScheme : Matcher Str := fun _ text =>
  urlSchemes.findSome? fun scheme => do
    let rest ← literal (scheme ++ "://".toList) text
    return (scheme ++ "://".toList, rest)

def nul : Char := Char.ofNat 0

def placeholder (name : String) (idx : Nat) : Str := nul :: (name.toList ++ decimal idx) ++ [nul]

def numbered (name : String) (originals : List Str) : List (Str × Str) :=
  originals.zipIdx.map fun original => (placeholder name original.2, original.1)

def placeholders (text : Str) : List (Str × Str) :=
  (if "<|".toList <:+: text then numbered "LLMTOKEN" (finditer llmTokenMarker text) else []) ++
    ((if text.tails.any (digitDotDigitAt T) then numbered "IPADDR" (finditer (ipAddress T) text) else []) ++
      (if "://".toList <:+: text then numbered "URLSCHEME" (finditer urlScheme text) else []))

def protect (pairs : List (Str × Str)) (text : Str) : Str :=
  pairs.foldl (fun result pair => replaceStr pair.2 pair.1 result) text

def restore (pairs : List (Str × Str)) (text : Str) : Str :=
  pairs.foldl (fun result pair => replaceStr pair.1 pair.2 result) text

def spaceSeparators (text : Str) : Str :=
  if finditer (separatorAt T) text = [] then text else sub (separatorAt T) text

def collapseSeparatorPunctuation (text : Str) : Str :=
  let pairs := placeholders T text
  restore pairs (collapseSpacedText T (spaceSeparators T (protect pairs text)))

end SeparatorPunctuation

section Whitespace

variable (T : CharTables)

def wsExceptNl : List Nat :=
  [0x09, 0x0B, 0x0C, 0x0D, 0x1C, 0x1D, 0x1E, 0x1F, 0x20, 0x85, 0xA0, 0x1680, 0x2000, 0x2001, 0x2002, 0x2003, 0x2004,
   0x2005, 0x2006, 0x2007, 0x2008, 0x2009, 0x200A, 0x2028, 0x2029, 0x202F, 0x205F, 0x3000]

def wsToSpace (c : Char) : Char := if wsExceptNl.contains c.toNat then ' ' else c

-- replace, translate and strip, as normalize has them.
def fusedWhitespace (text : Str) : Str := T.strip ((replaceStr ['\r'] ['\n'] text).map wsToSpace)

-- [^\S\n]+
def lineBlanksAt : Matcher Str := fun _ text =>
  let run := text.takeWhile fun c => T.space c && c ≠ '\n'
  if run = [] then none else some ([' '], text.drop run.length)

-- \n{3,}
def newlinesAt : Matcher Str := fun _ text =>
  if (text.takeWhile (· = '\n')).length < 3 then none else some (['\n', '\n'], text.dropWhile (· = '\n'))

def normalizeWhitespace (text : Str) : Str :=
  let result := replaceStr ['\r'] ['\n'] (replaceStr ['\r', '\n'] ['\n'] text)
  T.strip (sub newlinesAt (sub (lineBlanksAt T) result))

end Whitespace

section Comments

-- What stands between the marks is dropped, an open mark without its end is kept.
def stripDelimited (startMark endMark : Str) : Nat → Str → Str
  | 0, text => text
  | fuel + 1, text =>
    match splitOnce startMark text with
    | none => text
    | some (before, rest) =>
      match splitOnce endMark rest with
      | none => text
      | some (_, after) => before ++ stripDelimited startMark endMark fuel after

-- (?<!['"/:])//(?!/).*$
def lineComment : Matcher Str := fun before text =>
  if before.any fun c => ['\'', '"', '/', ':'].contains c then none
  else do
    let rest ← literal "//".toList text
    if rest.head? = some '/' then none else return ([], rest.dropWhile (· ≠ '\n'))

def stripComments (text : Str) : Str :=
  let result := stripDelimited "<!--".toList "-->".toList text.length text
  let result := stripDelimited "/*".toList "*/".toList result.length result
  sub lineComment result

end Comments

section Normalize

variable (T : CharTables) (nfkc : Str → Str)

def zeroWidth : List Nat := [0x200C, 0x200D, 0x200B, 0xFEFF, 0x200E, 0x200F]

def isZeroWidth (c : Char) : Bool := zeroWidth.contains c.toNat

def deobfuscateMarkdown (text : Str) : Str := text.filter fun c => !isZeroWidth c

def normalize (text : Str) : Str :=
  let result := collapseSeparatorPunctuation T (collapseSpacedText T (nfkc text))
  deobfuscateMarkdown (stripComments (fusedWhitespace T result))

end Normalize

section Variants

variable (T : CharTables) (nfkc : Str → Str)

def hasZeroWidth (text : Str) : Bool := text.any isZeroWidth

-- (?<!['"/:])//(?!/)
def lineCommentMark : Matcher Str := fun before text =>
  if before.any fun c => ['\'', '"', '/', ':'].contains c then none
  else do
    let rest ← literal "//".toList text
    if rest.head? = some '/' then none else return ([' ', ' '], rest)

def neutralizeCommentMarkers (text : Str) : Str :=
  let result := replaceStr "-->".toList [' '] (replaceStr "<!--".toList [' '] text)
  let result := replaceStr "*/".toList [' '] (replaceStr "/*".toList [' '] result)
  sub lineCommentMark result

def hasSeparatorPunct (text : Str) : Bool := finditer (separatorAt T) text ≠ []

def separatorRemoved : Matcher Str := fun before text => (separatorAt T before text).map fun found => ([], found.2)

def normalizeSeparatorRemoved (text : Str) : Str :=
  let pairs := placeholders T text
  normalize T nfkc (restore pairs (collapseSpacedText T (sub (separatorRemoved T) (protect pairs text))))

end Variants

end PicoSentry.Watch.Normalizer
