import Mathlib.Data.List.Lex
import PicoSentry.Foundation.Decimal
import PicoSentry.Foundation.Dict

namespace PicoSentry.Foundation

mutual

inductive Json where
  | null
  | bool (b : Bool)
  | int (n : Int)
  | float (text : Str)
  | str (s : Str)
  | arr (items : JsonItems)
  | obj (fields : JsonFields)

inductive JsonItems where
  | nil
  | cons (item : Json) (rest : JsonItems)

inductive JsonFields where
  | nil
  | cons (key : Str) (value : Json) (rest : JsonFields)

end

def JsonItems.toList : JsonItems → List Json
  | .nil => []
  | .cons j js => j :: js.toList

def JsonItems.ofList : List Json → JsonItems
  | [] => .nil
  | j :: js => .cons j (ofList js)

def JsonFields.toList : JsonFields → List (Str × Json)
  | .nil => []
  | .cons k j fs => (k, j) :: fs.toList

def JsonFields.ofList : List (Str × Json) → JsonFields
  | [] => .nil
  | (k, j) :: fs => .cons k j (ofList fs)

namespace Json

section Dumps

def hexDigit (d : Nat) : Char := if d < 10 then Char.ofNat (48 + d) else Char.ofNat (87 + d)

def unicodeEscape (n : Nat) : Str :=
  ['\\', 'u', hexDigit (n / 4096), hexDigit (n / 256 % 16), hexDigit (n / 16 % 16),
   hexDigit (n % 16)]

def escapeChar (c : Char) : Str :=
  if c = '"' then ['\\', '"']
  else if c = '\\' then ['\\', '\\']
  else if c = '\n' then ['\\', 'n']
  else if c = '\r' then ['\\', 'r']
  else if c = '\t' then ['\\', 't']
  else if c.toNat = 12 then ['\\', 'f']
  else if c.toNat = 8 then ['\\', 'b']
  else if 32 ≤ c.toNat ∧ c.toNat ≤ 126 then [c]
  else if c.toNat < 0x10000 then unicodeEscape c.toNat
  else
    unicodeEscape (0xD800 + (c.toNat - 0x10000) / 1024) ++
      unicodeEscape (0xDC00 + (c.toNat - 0x10000) % 1024)

def quote (s : Str) : Str := '"' :: s.flatMap escapeChar ++ ['"']

def insertField (k : Str) (j : Json) : JsonFields → JsonFields
  | .nil => .cons k j .nil
  | .cons k' j' fs => if k' < k then .cons k' j' (insertField k j fs) else .cons k j (.cons k' j' fs)

mutual

def sortKeys : Json → Json
  | .arr items => .arr (sortItems items)
  | .obj fields => .obj (sortFields fields)
  | j => j

def sortItems : JsonItems → JsonItems
  | .nil => .nil
  | .cons j js => .cons (sortKeys j) (sortItems js)

def sortFields : JsonFields → JsonFields
  | .nil => .nil
  | .cons k j fs => insertField k (sortKeys j) (sortFields fs)

end

mutual

def render : Json → Str
  | .null => "null".toList
  | .bool true => "true".toList
  | .bool false => "false".toList
  | .int n => intText n
  | .float text => text
  | .str s => quote s
  | .arr .nil => "[]".toList
  | .arr (.cons j js) => '[' :: render j ++ renderItems js
  | .obj .nil => "\x7b\x7d".toList
  | .obj (.cons k j fs) => '\x7b' :: quote k ++ ": ".toList ++ render j ++ renderFields fs

def renderItems : JsonItems → Str
  | .nil => [']']
  | .cons j js => ", ".toList ++ render j ++ renderItems js

def renderFields : JsonFields → Str
  | .nil => ['\x7d']
  | .cons k j fs => ", ".toList ++ quote k ++ ": ".toList ++ render j ++ renderFields fs

end

def dumps (j : Json) : Str := render (sortKeys j)

end Dumps

section Fields

theorem toList_ofList (fs : List (Str × Json)) : (JsonFields.ofList fs).toList = fs := by
  induction fs with
  | nil => rfl
  | cons f fs ih => rw [JsonFields.ofList, JsonFields.toList, ih]

theorem ofList_toList (fs : JsonFields) : JsonFields.ofList fs.toList = fs :=
  match fs with
  | .nil => rfl
  | .cons k j fs => by rw [JsonFields.toList, JsonFields.ofList, ofList_toList fs]

theorem get?_insertField (k : Str) (j : Json) (fs : JsonFields) (k' : Str) :
    Dict.get? (insertField k j fs).toList k' = if k = k' then some j else Dict.get? fs.toList k' :=
  match fs with
  | .nil => rfl
  | .cons k₁ j₁ fs => by
    rw [insertField]
    split
    · next hlt =>
      rw [JsonFields.toList, JsonFields.toList, Dict.get?, Dict.get?, get?_insertField k j fs]
      by_cases h : k = k'
      · subst h
        simp [ne_of_lt hlt]
      · rw [if_neg h, if_neg h]
    · rfl

theorem get?_sortFields (fs : JsonFields) (k : Str) :
    Dict.get? (sortFields fs).toList k = (Dict.get? fs.toList k).map sortKeys :=
  match fs with
  | .nil => rfl
  | .cons k₁ j₁ fs => by
    rw [sortFields, get?_insertField, get?_sortFields fs k, JsonFields.toList, Dict.get?]
    split <;> rfl

section Sorted

theorem mem_insertField (k : Str) (j : Json) (fs : JsonFields) (p : Str × Json) :
    p ∈ (insertField k j fs).toList ↔ p = (k, j) ∨ p ∈ fs.toList :=
  match fs with
  | .nil => List.mem_cons
  | .cons k' j' fs => by
    rw [insertField]
    split
    · rw [JsonFields.toList, JsonFields.toList, List.mem_cons, mem_insertField k j fs, List.mem_cons,
        or_left_comm]
    · exact List.mem_cons

theorem pairwise_insertField (k : Str) (j : Json) (fs : JsonFields)
    (h : fs.toList.Pairwise fun p q => p.1 ≤ q.1) :
    (insertField k j fs).toList.Pairwise fun p q => p.1 ≤ q.1 :=
  match fs with
  | .nil => List.pairwise_singleton _ _
  | .cons k' j' fs => by
    obtain ⟨hhead,htail⟩ := List.pairwise_cons.mp h
    rw [insertField]
    split
    · next hlt =>
      refine List.pairwise_cons.mpr ⟨fun p hp => ?_, pairwise_insertField k j fs htail⟩
      rcases (mem_insertField k j fs p).mp hp with rfl | hp
      · exact hlt.le
      · exact hhead p hp
    · next hlt =>
      refine List.pairwise_cons.mpr ⟨fun p hp => ?_, h⟩
      rcases List.mem_cons.mp hp with rfl | hp
      · exact not_lt.mp hlt
      · exact (not_lt.mp hlt).trans (hhead p hp)

theorem pairwise_sortFields (fs : JsonFields) :
    (sortFields fs).toList.Pairwise fun p q => p.1 ≤ q.1 :=
  match fs with
  | .nil => List.Pairwise.nil
  | .cons k j fs => pairwise_insertField k (sortKeys j) (sortFields fs) (pairwise_sortFields fs)

theorem sortFields_of_sorted (fs : JsonFields) (h : fs.toList.Pairwise fun p q => p.1 ≤ q.1)
    (hfixed : ∀ p ∈ fs.toList, sortKeys p.2 = p.2) : sortFields fs = fs :=
  match fs with
  | .nil => rfl
  | .cons k j fs => by
    obtain ⟨hhead,htail⟩ := List.pairwise_cons.mp h
    obtain ⟨hj,hrest⟩ := List.forall_mem_cons.mp hfixed
    rw [sortFields, hj, sortFields_of_sorted fs htail hrest]
    cases fs with
    | nil => rfl
    | cons k' j' fs => rw [insertField, if_neg (not_lt.mpr (hhead (k', j') List.mem_cons_self))]

mutual

theorem sortKeys_sortKeys (j : Json) : sortKeys (sortKeys j) = sortKeys j := by
  cases j with
  | arr js => rw [sortKeys, sortKeys, sortItems_sortItems js]
  | obj fs =>
    rw [sortKeys, sortKeys, sortFields_of_sorted _ (pairwise_sortFields fs) (fixed_sortFields fs)]
  | _ => rfl

theorem sortItems_sortItems (js : JsonItems) : sortItems (sortItems js) = sortItems js := by
  cases js with
  | nil => rfl
  | cons j js => rw [sortItems, sortItems, sortKeys_sortKeys j, sortItems_sortItems js]

theorem fixed_sortFields (fs : JsonFields) :
    ∀ p ∈ (sortFields fs).toList, sortKeys p.2 = p.2 := by
  cases fs with
  | nil => exact fun p hp => absurd hp List.not_mem_nil
  | cons k j fs =>
    intro p hp
    rcases (mem_insertField k (sortKeys j) (sortFields fs) p).mp hp with rfl | hp
    · exact sortKeys_sortKeys j
    · exact fixed_sortFields fs p hp

end

end Sorted

theorem renderFields_ends (fs : JsonFields) : ∃ t, renderFields fs = t ++ ['\x7d'] :=
  match fs with
  | .nil => ⟨[], rfl⟩
  | .cons k j fs => by
    obtain ⟨t,ht⟩ := renderFields_ends fs
    refine ⟨", ".toList ++ quote k ++ ": ".toList ++ render j ++ t, ?_⟩
    rw [renderFields, ht, ← List.append_assoc]

theorem render_obj_ends (fs : JsonFields) :
    (render (.obj fs)).head? = some '\x7b' ∧ ∃ t, render (.obj fs) = t ++ ['\x7d'] := by
  cases fs with
  | nil => exact ⟨rfl, ['\x7b'], rfl⟩
  | cons k j fs =>
    obtain ⟨t,ht⟩ := renderFields_ends fs
    refine ⟨rfl, '\x7b' :: quote k ++ ": ".toList ++ render j ++ t, ?_⟩
    rw [render, ht, ← List.append_assoc]

end Fields

section Loads

def isSpace (c : Char) : Bool := c = ' ' || c = '\t' || c = '\n' || c = '\r'

def skipSpace (s : Str) : Str := s.dropWhile isSpace

def hexValue (c : Char) : Option Nat :=
  if isDigit c then some (c.toNat - 48)
  else if 'a' ≤ c ∧ c ≤ 'f' then some (c.toNat - 87)
  else if 'A' ≤ c ∧ c ≤ 'F' then some (c.toNat - 55)
  else none

def hexFour : Str → Option (Nat × Str)
  | a :: b :: c :: d :: rest => do
      let a ← hexValue a
      let b ← hexValue b
      let c ← hexValue c
      let d ← hexValue d
      return (4096 * a + 256 * b + 16 * c + d, rest)
  | _ => none

def lowSurrogate : Str → Option (Nat × Str)
  | '\\' :: 'u' :: rest => do
      let (lo, rest') ← hexFour rest
      if 0xDC00 ≤ lo ∧ lo < 0xE000 then return (lo, rest') else none
  | _ => none

def unescape : Str → Option (Char × Str)
  | '"' :: rest => some ('"', rest)
  | '\\' :: rest => some ('\\', rest)
  | '/' :: rest => some ('/', rest)
  | 'b' :: rest => some (Char.ofNat 8, rest)
  | 'f' :: rest => some (Char.ofNat 12, rest)
  | 'n' :: rest => some ('\n', rest)
  | 'r' :: rest => some ('\r', rest)
  | 't' :: rest => some ('\t', rest)
  | 'u' :: rest => do
      let (hi, rest') ← hexFour rest
      if 0xD800 ≤ hi ∧ hi < 0xDC00 then
        match lowSurrogate rest' with
        | some (lo, rest'') =>
          return (Char.ofNat (0x10000 + (hi - 0xD800) * 1024 + (lo - 0xDC00)), rest'')
        | none => return (Char.ofNat hi, rest')
      else return (Char.ofNat hi, rest')
  | _ => none

def scanString : Nat → Str → Option (Str × Str)
  | 0, _ => none
  | _ + 1, [] => none
  | fuel + 1, c :: rest =>
    if c = '"' then some ([], rest)
    else if c = '\\' then do
      let (d, rest') ← unescape rest
      let (s, rest'') ← scanString fuel rest'
      return (d :: s, rest'')
    else if c.toNat < 32 then none
    else do
      let (s, rest') ← scanString fuel rest
      return (c :: s, rest')

def scanFraction : Str → Str × Str
  | '.' :: c :: rest =>
    if isDigit c then ('.' :: c :: rest.takeWhile isDigit, rest.dropWhile isDigit)
    else ([], '.' :: c :: rest)
  | rest => ([], rest)

def isExponentMark (c : Char) : Bool := c = 'e' || c = 'E'

def scanExponent : Str → Str × Str
  | e :: c :: d :: rest =>
    if isExponentMark e && (c = '+' || c = '-') && isDigit d then
      (e :: c :: d :: rest.takeWhile isDigit, rest.dropWhile isDigit)
    else if isExponentMark e && isDigit c then
      (e :: c :: (d :: rest).takeWhile isDigit, (d :: rest).dropWhile isDigit)
    else ([], e :: c :: d :: rest)
  | [e, c] => if isExponentMark e && isDigit c then ([e, c], []) else ([], [e, c])
  | rest => ([], rest)

def finishNumber (negative : Bool) (digits rest : Str) : Json × Str :=
  let (fraction, rest') := scanFraction rest
  let (exponent, rest'') := scanExponent rest'
  if fraction = [] ∧ exponent = [] then
    (.int (if negative then -(digitsValue 0 digits : Int) else digitsValue 0 digits), rest)
  else
    (.float ((if negative then ['-'] else []) ++ digits ++ fraction ++ exponent), rest'')

def scanNatural (negative : Bool) : Str → Option (Json × Str)
  | [] => none
  | c :: rest =>
    if c = '0' then some (finishNumber negative ['0'] rest)
    else if isDigit c then
      some (finishNumber negative (c :: rest.takeWhile isDigit) (rest.dropWhile isDigit))
    else none

def scanNumber : Str → Option (Json × Str)
  | '-' :: rest => scanNatural true rest
  | s => scanNatural false s

def literals : List (Str × Json) :=
  [("null".toList, .null), ("true".toList, .bool true), ("false".toList, .bool false),
   ("NaN".toList, .float "NaN".toList), ("Infinity".toList, .float "Infinity".toList),
   ("-Infinity".toList, .float "-Infinity".toList)]

def parseAtom (s : Str) : Option (Json × Str) :=
  match literals.find? fun lit => lit.1.isPrefixOf s with
  | some lit => some (lit.2, s.drop lit.1.length)
  | none => scanNumber s

mutual

def parseValue : Nat → Str → Option (Json × Str)
  | 0, _ => none
  | fuel + 1, s =>
    match s with
    | '"' :: rest => do
        let (t, rest') ← scanString (rest.length + 1) rest
        return (.str t, rest')
    | '[' :: rest =>
      match skipSpace rest with
      | ']' :: rest' => some (.arr .nil, rest')
      | rest' => do
          let (items, rest'') ← parseItems fuel rest'
          return (.arr items, rest'')
    | '\x7b' :: rest =>
      match skipSpace rest with
      | '\x7d' :: rest' => some (.obj .nil, rest')
      | rest' => do
          let (fields, rest'') ← parseFields fuel rest'
          return (.obj fields, rest'')
    | _ => parseAtom s

def parseItems : Nat → Str → Option (JsonItems × Str)
  | 0, _ => none
  | fuel + 1, s => do
      let (j, rest) ← parseValue fuel s
      match skipSpace rest with
      | ']' :: rest' => return (.cons j .nil, rest')
      | ',' :: rest' => do
          let (js, rest'') ← parseItems fuel (skipSpace rest')
          return (.cons j js, rest'')
      | _ => none

def parseFields : Nat → Str → Option (JsonFields × Str)
  | 0, _ => none
  | fuel + 1, s =>
    match s with
    | '"' :: quoted => do
        let (k, rest) ← scanString (quoted.length + 1) quoted
        match skipSpace rest with
        | ':' :: rest' => do
            let (j, rest'') ← parseValue fuel (skipSpace rest')
            match skipSpace rest'' with
            | '\x7d' :: tail => return (.cons k j .nil, tail)
            | ',' :: tail => do
                let (fs, tail') ← parseFields fuel (skipSpace tail)
                return (.cons k j fs, tail')
            | _ => none
        | _ => none
    | _ => none

end

def byteOrderMark : Char := Char.ofNat 0xFEFF

def loads (s : Str) : Option Json :=
  if s.head? = some byteOrderMark then none
  else
    match parseValue (2 * s.length + 2) (skipSpace s) with
    | some (j, rest) => if skipSpace rest = [] then some j else none
    | none => none

end Loads

section Escape

theorem hexValue_hexDigit {d : Nat} (h : d < 16) : hexValue (hexDigit d) = some d := by
  have hall : ∀ d < 16, hexValue (hexDigit d) = some d := by decide
  exact hall d h

theorem hexFour_digits {n : Nat} (h : n < 0x10000) (rest : Str) :
    hexFour (hexDigit (n / 4096) :: hexDigit (n / 256 % 16) :: hexDigit (n / 16 % 16) ::
      hexDigit (n % 16) :: rest) = some (n, rest) := by
  have hn : 4096 * (n / 4096) + 256 * (n / 256 % 16) + 16 * (n / 16 % 16) + n % 16 = n := by omega
  simp only [hexFour, hexValue_hexDigit (show n / 4096 < 16 by omega),
    hexValue_hexDigit (Nat.mod_lt _ (by omega : 0 < 16)), Option.bind_eq_bind, Option.bind_some,
    Option.pure_def, hn]

theorem unescape_unicodeEscape {n : Nat} (h : n < 0x10000) (hs : ¬(0xD800 ≤ n ∧ n < 0xDC00))
    (rest : Str) : unescape ((unicodeEscape n).tail ++ rest) = some (Char.ofNat n, rest) := by
  simp only [unicodeEscape, List.tail_cons, List.cons_append, List.nil_append, unescape,
    hexFour_digits h, Option.bind_eq_bind, Option.bind_some, if_neg hs, Option.pure_def]

theorem unescape_surrogates {m : Nat} (h : m < 0x100000) (rest : Str) :
    unescape ((unicodeEscape (0xD800 + m / 1024)).tail ++
      (unicodeEscape (0xDC00 + m % 1024) ++ rest)) = some (Char.ofNat (0x10000 + m), rest) := by
  have hm : 0x10000 + (0xD800 + m / 1024 - 0xD800) * 1024 + (0xDC00 + m % 1024 - 0xDC00) =
      0x10000 + m := by omega
  have hhi : 0xD800 ≤ 0xD800 + m / 1024 ∧ 0xD800 + m / 1024 < 0xDC00 := by omega
  have hlo : 0xDC00 ≤ 0xDC00 + m % 1024 ∧ 0xDC00 + m % 1024 < 0xE000 := by omega
  simp only [unicodeEscape, List.tail_cons, List.cons_append, List.nil_append, unescape,
    lowSurrogate, hexFour_digits (show 0xD800 + m / 1024 < 0x10000 by omega),
    hexFour_digits (show 0xDC00 + m % 1024 < 0x10000 by omega), Option.bind_eq_bind,
    Option.bind_some, if_pos hhi, if_pos hlo, Option.pure_def, hm]

def scanChar : Str → Option (Char × Str)
  | [] => none
  | c :: rest => if c = '\\' then unescape rest else some (c, rest)

theorem scanChar_escapeChar (c : Char) (rest : Str) :
    scanChar (escapeChar c ++ rest) = some (c, rest) := by
  have hvalid : c.toNat < 0xD800 ∨ 0xDFFF < c.toNat ∧ c.toNat < 0x110000 := c.valid
  rw [escapeChar]
  split
  · next h => subst h; rfl
  split
  · next h => subst h; rfl
  split
  · next h => subst h; rfl
  split
  · next h => subst h; rfl
  split
  · next h => subst h; rfl
  split
  · next h =>
    rw [← Char.ofNat_toNat c, h]
    rfl
  split
  · next h =>
    rw [← Char.ofNat_toNat c, h]
    rfl
  split
  · next hne _ _ _ _ _ _ => simp [scanChar, hne]
  split
  · next h =>
    have hs : ¬(0xD800 ≤ c.toNat ∧ c.toNat < 0xDC00) := by omega
    have hun := unescape_unicodeEscape h hs rest
    rw [Char.ofNat_toNat] at hun
    exact hun
  · next h =>
    have hun := unescape_surrogates (m := c.toNat - 0x10000) (by omega) rest
    rw [show 0x10000 + (c.toNat - 0x10000) = c.toNat by omega, Char.ofNat_toNat] at hun
    rw [List.append_assoc]
    exact hun

theorem escapeChar_ne_quote (c : Char) (x r : Str) : escapeChar c ++ x ≠ '"' :: r := by
  intro h
  have hscan := congrArg scanChar h
  rw [scanChar_escapeChar, scanChar, if_neg (by decide), Option.some.injEq, Prod.mk.injEq] at hscan
  rw [hscan.1] at h
  cases h

theorem escapeChar_cases (c : Char) :
    (∃ t, escapeChar c = '\\' :: t) ∨ escapeChar c = [c] ∧ 32 ≤ c.toNat ∧ c ≠ '\\' := by
  rw [escapeChar]
  split
  · exact .inl ⟨_, rfl⟩
  split
  · exact .inl ⟨_, rfl⟩
  · next hslash =>
    repeat' split
    all_goals first
      | exact .inl ⟨_, rfl⟩
      | next hprintable => exact .inr ⟨rfl, hprintable.1, hslash⟩

theorem scanString_escapeChar (c : Char) (fuel : Nat) (t : Str) :
    scanString (fuel + 1) (escapeChar c ++ t) = (scanString fuel t).map fun p => (c :: p.1, p.2) := by
  have hscan := scanChar_escapeChar c t
  have hquote := escapeChar_ne_quote c t
  rcases escapeChar_cases c with ⟨e,he⟩ | ⟨he,hprintable,hslash⟩
  · rw [he, List.cons_append, scanChar, if_pos rfl] at hscan
    rw [he, List.cons_append, scanString, if_neg (by decide), if_pos rfl, hscan]
    simp only [Option.bind_eq_bind, Option.bind_some]
    cases scanString fuel t <;> rfl
  · rw [he] at hquote ⊢
    have hne : c ≠ '"' := by
      rintro rfl
      exact hquote t rfl
    rw [List.cons_append, List.nil_append, scanString, if_neg hne, if_neg hslash,
      if_neg (not_lt.mpr hprintable)]
    cases scanString fuel t <;> rfl

theorem length_le_escaped (s : Str) : s.length ≤ (s.flatMap escapeChar).length := by
  induction s with
  | nil => exact le_refl _
  | cons c s ih =>
    have hpos : 1 ≤ (escapeChar c).length := by
      rcases escapeChar_cases c with ⟨e,he⟩ | ⟨he,_⟩ <;> simp [he]
    rw [List.flatMap_cons, List.length_append, List.length_cons]
    omega

theorem scanString_escaped (s r : Str) {fuel : Nat} (hf : s.length < fuel) :
    scanString fuel (s.flatMap escapeChar ++ '"' :: r) = some (s, r) := by
  induction s generalizing fuel with
  | nil =>
    cases fuel with
    | zero => simp at hf
    | succ fuel => simp [scanString]
  | cons c s ih =>
    cases fuel with
    | zero => simp at hf
    | succ fuel =>
      rw [List.flatMap_cons, List.append_assoc, scanString_escapeChar, ih (by simpa using hf)]
      rfl

theorem scanString_quoted (s r : Str) :
    scanString ((s.flatMap escapeChar ++ '"' :: r).length + 1) (s.flatMap escapeChar ++ '"' :: r) =
      some (s, r) := by
  refine scanString_escaped s r ?_
  have hlen := length_le_escaped s
  rw [List.length_append]
  omega

end Escape

section RoundTrip

def plainChar (c : Char) : Bool :=
  decide (32 ≤ c.toNat) && decide (c.toNat ≤ 126) && c != '"' && c != '\\'

mutual

def plain : Json → Bool
  | .float _ => false
  | .str s => s.all plainChar
  | .arr items => plainItems items
  | .obj fields => plainFields fields
  | _ => true

def plainItems : JsonItems → Bool
  | .nil => true
  | .cons j js => plain j && plainItems js

def plainFields : JsonFields → Bool
  | .nil => true
  | .cons k j fs => k.all plainChar && plain j && plainFields fs

end

def Fraction (text : Str) : Prop :=
  text = [] ∨ ∃ d ds, text = '.' :: d :: ds ∧ ∀ c ∈ d :: ds, isDigit c = true

def Exponent (text : Str) : Prop :=
  text = [] ∨ ∃ sign d ds, text = 'e' :: sign :: d :: ds ∧ (sign = '+' ∨ sign = '-') ∧
    ∀ c ∈ d :: ds, isDigit c = true

-- The texts that float.__repr__ gives.
def FloatText (text : Str) : Prop :=
  text = "NaN".toList ∨ text = "Infinity".toList ∨ text = "-Infinity".toList ∨
    ∃ (negative : Bool) (n : Nat) (fraction exponent : Str), Fraction fraction ∧ Exponent exponent ∧
      ¬(fraction = [] ∧ exponent = []) ∧
      text = (if negative then ['-'] else []) ++ decimal n ++ fraction ++ exponent

mutual

def WellFormed : Json → Prop
  | .float text => FloatText text
  | .arr items => WellFormedItems items
  | .obj fields => WellFormedFields fields
  | _ => True

def WellFormedItems : JsonItems → Prop
  | .nil => True
  | .cons j js => WellFormed j ∧ WellFormedItems js

def WellFormedFields : JsonFields → Prop
  | .nil => True
  | .cons _ j fs => WellFormed j ∧ WellFormedFields fs

end

mutual

theorem wellFormed_of_plain {j : Json} (h : plain j = true) : WellFormed j := by
  cases j with
  | float text => cases h
  | arr items => exact wellFormedItems_of_plain h
  | obj fields => exact wellFormedFields_of_plain h
  | _ => trivial

theorem wellFormedItems_of_plain {js : JsonItems} (h : plainItems js = true) : WellFormedItems js := by
  cases js with
  | nil => trivial
  | cons j js =>
    simp only [plainItems, Bool.and_eq_true] at h
    exact ⟨wellFormed_of_plain h.1, wellFormedItems_of_plain h.2⟩

theorem wellFormedFields_of_plain {fs : JsonFields} (h : plainFields fs = true) :
    WellFormedFields fs := by
  cases fs with
  | nil => trivial
  | cons k j fs =>
    simp only [plainFields, Bool.and_eq_true] at h
    exact ⟨wellFormed_of_plain h.1.2, wellFormedFields_of_plain h.2⟩

end

mutual

def need : Json → Nat
  | .arr items => needItems items + 1
  | .obj fields => needFields fields + 1
  | _ => 1

def needItems : JsonItems → Nat
  | .nil => 0
  | .cons j js => max (need j) (needItems js) + 1

def needFields : JsonFields → Nat
  | .nil => 0
  | .cons _ j fs => max (need j) (needFields fs) + 1

end

def stopChars : Str := [',', ']', '\x7d', ' ', '\t', '\n', '\r']

def Stops (r : Str) : Prop := ∀ c, r.head? = some c → c ∈ stopChars

theorem stops_nil : Stops [] := by simp [Stops]

theorem stops_cons {c : Char} {r : Str} (h : c ∈ stopChars) : Stops (c :: r) := by
  rintro d hd
  cases hd
  exact h

theorem mem_stopChars_of_isSpace {c : Char} (h : isSpace c = true) : c ∈ stopChars := by
  simp only [isSpace, Bool.or_eq_true, decide_eq_true_eq] at h
  simp only [stopChars, List.mem_cons, List.not_mem_nil, or_false]
  tauto

theorem Stops.elim {r : Str} (h : Stops r) {c : Char} (hc : r.head? = some c) {p : Char → Bool}
    (hp : stopChars.all p = true) : p c = true := List.all_eq_true.mp hp c (h c hc)

theorem ne_of_isDigit {c d : Char} (hc : isDigit c = true) (hd : isDigit d = false) : c ≠ d := by
  rintro rfl
  rw [hc] at hd
  cases hd

def NoDigit (r : Str) : Prop := ∀ c, r.head? = some c → isDigit c = false

theorem Stops.noDigit {r : Str} (h : Stops r) : NoDigit r := by
  intro c hc
  have hd : (!isDigit c) = true := h.elim hc (p := fun c => !isDigit c) (by decide)
  simpa using hd

theorem takeWhile_digits {ds r : Str} (hds : ∀ c ∈ ds, isDigit c = true) (hr : NoDigit r) :
    (ds ++ r).takeWhile isDigit = ds ∧ (ds ++ r).dropWhile isDigit = r := run_append hds hr

theorem scanFraction_none {r : Str} (hr : ∀ rest, r ≠ '.' :: rest) : scanFraction r = ([], r) := by
  rw [scanFraction]
  rintro c rest rfl
  exact hr _ rfl

theorem scanExponent_stops {r : Str} (hr : Stops r) : scanExponent r = ([], r) := by
  have hmark : ∀ e t, r = e :: t → isExponentMark e = false := by
    rintro e t rfl
    have hm : (!isExponentMark e) = true := hr.elim rfl (p := fun c => !isExponentMark c) (by decide)
    simpa using hm
  rw [scanExponent.eq_def]
  split
  · simp [hmark _ _ rfl]
  · simp [hmark _ _ rfl]
  · rfl

theorem Stops.ne_point {r : Str} (hr : Stops r) (rest : Str) : r ≠ '.' :: rest := by
  rintro rfl
  exact absurd (hr _ rfl) (by decide)

theorem scanFraction_fraction {fraction r : Str} (h : Fraction fraction) (hr : NoDigit r)
    (hpoint : ∀ rest, r ≠ '.' :: rest) : scanFraction (fraction ++ r) = (fraction, r) := by
  rcases h with rfl | ⟨d,ds,rfl,hdigits⟩
  · exact scanFraction_none hpoint
  · have hrest : ∀ c ∈ ds, isDigit c = true := fun c hc => hdigits c (by simp [hc])
    obtain ⟨htake,hdrop⟩ := takeWhile_digits hrest hr
    simp [scanFraction, hdigits d (by simp), htake, hdrop]

theorem scanExponent_exponent {exponent r : Str} (h : Exponent exponent) (hr : Stops r) :
    scanExponent (exponent ++ r) = (exponent, r) := by
  rcases h with rfl | ⟨sign,d,ds,rfl,hsign,hdigits⟩
  · exact scanExponent_stops hr
  · have hrest : ∀ c ∈ ds, isDigit c = true := fun c hc => hdigits c (by simp [hc])
    obtain ⟨htake,hdrop⟩ := takeWhile_digits hrest hr.noDigit
    simp [scanExponent, isExponentMark, hsign, hdigits d (by simp), htake, hdrop]

theorem exponent_head {exponent r : Str} (h : Exponent exponent) (hr : Stops r) :
    NoDigit (exponent ++ r) ∧ ∀ rest, exponent ++ r ≠ '.' :: rest := by
  rcases h with rfl | ⟨sign,d,ds,rfl,_⟩
  · exact ⟨hr.noDigit, hr.ne_point⟩
  · refine ⟨?_, by simp⟩
    rintro c hc
    cases hc
    decide

theorem fraction_head {fraction exponent r : Str} (hf : Fraction fraction) (he : Exponent exponent)
    (hr : Stops r) : NoDigit (fraction ++ (exponent ++ r)) := by
  rcases hf with rfl | ⟨d,ds,rfl,_⟩
  · exact (exponent_head he hr).1
  · rintro c hc
    cases hc
    decide

theorem finishNumber_stops (negative : Bool) (digits : Str) {r : Str} (hr : Stops r) :
    finishNumber negative digits r =
      (.int (if negative then -(digitsValue 0 digits : Int) else digitsValue 0 digits), r) := by
  simp [finishNumber, scanFraction_none hr.ne_point, scanExponent_stops hr]

theorem finishNumber_float (negative : Bool) (digits : Str) {fraction exponent r : Str}
    (hf : Fraction fraction) (he : Exponent exponent) (hne : ¬(fraction = [] ∧ exponent = []))
    (hr : Stops r) : finishNumber negative digits (fraction ++ (exponent ++ r)) =
      (.float ((if negative then ['-'] else []) ++ digits ++ fraction ++ exponent), r) := by
  obtain ⟨hdigit,hpoint⟩ := exponent_head he hr
  simp only [finishNumber, scanFraction_fraction hf hdigit hpoint, scanExponent_exponent he hr,
    if_neg hne]

theorem scanNatural_decimal (negative : Bool) (n : Nat) {r : Str} (hr : Stops r) :
    scanNatural negative (decimal n ++ r) =
      some (.int (if negative then -(n : Int) else n), r) := by
  obtain ⟨d,ds,heq,hdig,hval,hzero⟩ := decimal_spec n
  rw [heq, List.cons_append, scanNatural]
  split
  · next h0 =>
    obtain ⟨rfl,rfl⟩ := hzero h0
    rw [List.nil_append, finishNumber_stops _ _ hr]
    simp [digitsValue]
  · rw [if_pos (hdig d (by simp))]
    have hds : ∀ c ∈ ds, isDigit c = true := fun c hc => hdig c (by simp [hc])
    obtain ⟨htake,hdrop⟩ := takeWhile_digits hds hr.noDigit
    rw [htake, hdrop, finishNumber_stops _ _ hr, hval]

theorem scanNatural_float (negative : Bool) (n : Nat) {fraction exponent r : Str}
    (hf : Fraction fraction) (he : Exponent exponent) (hne : ¬(fraction = [] ∧ exponent = []))
    (hr : Stops r) : scanNatural negative (decimal n ++ (fraction ++ (exponent ++ r))) =
      some (.float ((if negative then ['-'] else []) ++ decimal n ++ fraction ++ exponent), r) := by
  obtain ⟨d,ds,heq,hdig,_,hzero⟩ := decimal_spec n
  rw [heq, List.cons_append, scanNatural]
  split
  · next h0 =>
    obtain ⟨rfl,rfl⟩ := hzero h0
    rw [List.nil_append, finishNumber_float negative ['0'] hf he hne hr, ← h0]
  · rw [if_pos (hdig d (by simp))]
    have hds : ∀ c ∈ ds, isDigit c = true := fun c hc => hdig c (by simp [hc])
    obtain ⟨htake,hdrop⟩ := takeWhile_digits hds (fraction_head hf he hr)
    rw [htake, hdrop, finishNumber_float negative (d :: ds) hf he hne hr]

theorem parseAtom_number {s : Str}
    (h : ∀ lit ∈ literals, lit.1.isPrefixOf s = false) : parseAtom s = scanNumber s := by
  have hnone : (literals.find? fun lit => lit.1.isPrefixOf s) = none := by
    rw [List.find?_eq_none]
    intro lit hlit
    simp [h lit hlit]
  rw [parseAtom, hnone]

theorem parseAtom_numeral (negative : Bool) (n : Nat) (r : Str) :
    parseAtom ((if negative then ['-'] else []) ++ (decimal n ++ r)) =
      scanNatural negative (decimal n ++ r) := by
  obtain ⟨d,ds,heq,hdig,_⟩ := decimal_spec n
  have hd := hdig d (by simp)
  have hne : ∀ c, isDigit c = false → c ≠ d := fun c hc => (ne_of_isDigit hd hc).symm
  rw [heq, List.cons_append]
  cases negative with
  | false =>
    simp only [Bool.false_eq_true, if_false, List.nil_append]
    rw [parseAtom_number, scanNumber]
    · rintro rest he
      cases he
      exact hne '-' (by decide) rfl
    · simp [literals, List.isPrefixOf, hne 'n' (by decide), hne 't' (by decide),
        hne 'f' (by decide), hne 'N' (by decide), hne 'I' (by decide), hne '-' (by decide)]
  | true =>
    simp only [if_true, List.cons_append, List.nil_append]
    rw [parseAtom_number, scanNumber]
    simp [literals, List.isPrefixOf, hne 'I' (by decide)]

theorem parseAtom_intText (n : Int) {r : Str} (hr : Stops r) :
    parseAtom (intText n ++ r) = some (.int n, r) := by
  cases n with
  | ofNat n =>
    have hatom := parseAtom_numeral false n r
    rw [scanNatural_decimal false n hr] at hatom
    exact hatom
  | negSucc n =>
    have hatom := parseAtom_numeral true (n + 1) r
    rw [scanNatural_decimal true (n + 1) hr] at hatom
    rw [Int.negSucc_eq]
    exact hatom

theorem parseAtom_float {text r : Str} (h : FloatText text) (hr : Stops r) :
    parseAtom (text ++ r) = some (.float text, r) := by
  rcases h with rfl | rfl | rfl | ⟨negative,n,fraction,exponent,hf,he,hne,rfl⟩
  · rfl
  · rfl
  · rfl
  · have hatom := parseAtom_numeral negative n (fraction ++ (exponent ++ r))
    rw [scanNatural_float negative n hf he hne hr] at hatom
    simpa only [List.append_assoc] using hatom

theorem skipSpace_cons {c : Char} (h : isSpace c = false) (r : Str) :
    skipSpace (c :: r) = c :: r := by
  simp [skipSpace, h]

theorem parseValue_atom {c : Char} (hq : c ≠ '"') (ha : c ≠ '[') (ho : c ≠ '\x7b') (fuel : Nat)
    (t : Str) : parseValue (fuel + 1) (c :: t) = parseAtom (c :: t) := by
  rw [parseValue]
  · rintro rest h
    cases h
    exact hq rfl
  · rintro rest h
    cases h
    exact ha rfl
  · rintro rest h
    cases h
    exact ho rfl

theorem intText_head (n : Int) : ∃ c t, intText n = c :: t ∧ (c = '-' ∨ isDigit c = true) := by
  cases n with
  | ofNat n =>
    obtain ⟨d,ds,heq,hdig,_⟩ := decimal_spec n
    exact ⟨d, ds, heq, .inr (hdig d (by simp))⟩
  | negSucc n => exact ⟨'-', _, rfl, .inl rfl⟩

theorem parseValue_intText (n : Int) (fuel : Nat) {r : Str} (hr : Stops r) :
    parseValue (fuel + 1) (intText n ++ r) = some (.int n, r) := by
  have hatom := parseAtom_intText n hr
  obtain ⟨c,t,heq,hc⟩ := intText_head n
  have hne : ∀ d : Char, d ≠ '-' → isDigit d = false → c ≠ d := by
    intro d hd hdig
    rcases hc with rfl | hc
    · exact hd.symm
    · exact ne_of_isDigit hc hdig
  rw [heq, List.cons_append] at hatom ⊢
  rw [parseValue_atom (hne _ (by decide) (by decide)) (hne _ (by decide) (by decide))
    (hne _ (by decide) (by decide)), hatom]

theorem float_head {text : Str} (h : FloatText text) :
    ∃ c t, text = c :: t ∧ (c = '-' ∨ c = 'N' ∨ c = 'I' ∨ isDigit c = true) := by
  rcases h with rfl | rfl | rfl | ⟨negative,n,fraction,exponent,_,_,_,rfl⟩
  · exact ⟨'N', _, rfl, by decide⟩
  · exact ⟨'I', _, rfl, by decide⟩
  · exact ⟨'-', _, rfl, by decide⟩
  · obtain ⟨d,ds,heq,hdig,_⟩ := decimal_spec n
    cases negative with
    | true => exact ⟨'-', _, rfl, .inl rfl⟩
    | false => exact ⟨d, ds ++ fraction ++ exponent, by simp [heq], .inr (.inr (.inr (hdig d (by simp))))⟩

theorem numeral_head {c d : Char} (h : c = '-' ∨ c = 'N' ∨ c = 'I' ∨ isDigit c = true)
    (hd : isDigit d = false) (hne : d ≠ '-' ∧ d ≠ 'N' ∧ d ≠ 'I') : c ≠ d := by
  rcases h with rfl | rfl | rfl | h
  · exact hne.1.symm
  · exact hne.2.1.symm
  · exact hne.2.2.symm
  · exact ne_of_isDigit h hd

theorem parseValue_float {text r : Str} (h : FloatText text) (fuel : Nat) (hr : Stops r) :
    parseValue (fuel + 1) (text ++ r) = some (.float text, r) := by
  have hatom := parseAtom_float h hr
  obtain ⟨c,t,heq,hc⟩ := float_head h
  rw [heq, List.cons_append] at hatom ⊢
  rw [parseValue_atom (numeral_head hc (by decide) (by decide))
    (numeral_head hc (by decide) (by decide)) (numeral_head hc (by decide) (by decide)), hatom]

theorem render_head {j : Json} (hp : WellFormed j) :
    ∃ c t, render j = c :: t ∧ isSpace c = false ∧ c ≠ ']' ∧ c ≠ byteOrderMark := by
  cases j with
  | null => exact ⟨'n', _, rfl, by decide, by decide, by decide⟩
  | bool b => cases b with
    | true => exact ⟨'t', _, rfl, by decide, by decide, by decide⟩
    | false => exact ⟨'f', _, rfl, by decide, by decide, by decide⟩
  | int n =>
    obtain ⟨c,t,heq,hc⟩ := intText_head n
    refine ⟨c, t, heq, ?_⟩
    rcases hc with rfl | hc
    · decide
    · have hs := fun d hd => ne_of_isDigit (d := d) hc hd
      exact ⟨by simp [isSpace, hs ' ' (by decide), hs '\t' (by decide), hs '\n' (by decide),
        hs '\r' (by decide)], hs _ (by decide), hs _ (by decide)⟩
  | float text =>
    obtain ⟨c,t,heq,hc⟩ := float_head hp
    have hs := fun d hd hne => numeral_head (d := d) hc hd hne
    exact ⟨c, t, heq, by simp [isSpace, hs ' ' (by decide) (by decide), hs '\t' (by decide) (by decide),
      hs '\n' (by decide) (by decide), hs '\r' (by decide) (by decide)],
      hs _ (by decide) (by decide), hs _ (by decide) (by decide)⟩
  | str s => exact ⟨'"', _, rfl, by decide, by decide, by decide⟩
  | arr items => cases items with
    | nil => exact ⟨'[', _, rfl, by decide, by decide, by decide⟩
    | cons j js => exact ⟨'[', _, rfl, by decide, by decide, by decide⟩
  | obj fields => cases fields with
    | nil => exact ⟨'\x7b', _, rfl, by decide, by decide, by decide⟩
    | cons k j fs => exact ⟨'\x7b', _, rfl, by decide, by decide, by decide⟩

end RoundTrip

section Layout

def Blank (s : Str) : Prop := ∀ c ∈ s, isSpace c = true

theorem blank_nil : Blank [] := fun _ hc => absurd hc List.not_mem_nil

theorem blank_space : Blank [' '] := by simp [Blank, isSpace]

-- The white space that json.dumps puts around the brackets, commas and colons of one level.
structure Layout where
  opening : Nat → Str
  between : Nat → Str
  colon : Str
  closing : Nat → Str
  blank_opening : ∀ level, Blank (opening level)
  blank_between : ∀ level, Blank (between level)
  blank_colon : Blank colon
  blank_closing : ∀ level, Blank (closing level)

variable (L : Layout)

mutual

def laid (level : Nat) : Json → Str
  | .arr (.cons j js) =>
    '[' :: L.opening level ++ laid (level + 1) j ++ laidItems level js
  | .obj (.cons k j fs) =>
    '\x7b' :: L.opening level ++ quote k ++ ':' :: L.colon ++ laid (level + 1) j ++
      laidFields level fs
  | j => render j

def laidItems (level : Nat) : JsonItems → Str
  | .nil => L.closing level ++ [']']
  | .cons j js => ',' :: L.between level ++ laid (level + 1) j ++ laidItems level js

def laidFields (level : Nat) : JsonFields → Str
  | .nil => L.closing level ++ ['\x7d']
  | .cons k j fs =>
    ',' :: L.between level ++ quote k ++ ':' :: L.colon ++ laid (level + 1) j ++
      laidFields level fs

end

variable {L}

theorem skipSpace_append {s : Str} (h : Blank s) (t : Str) : skipSpace (s ++ t) = skipSpace t :=
  List.dropWhile_append_of_pos h

theorem laid_head {j : Json} (hp : WellFormed j) (level : Nat) :
    ∃ c t, laid L level j = c :: t ∧ isSpace c = false ∧ c ≠ ']' ∧ c ≠ byteOrderMark := by
  cases j with
  | arr items => cases items with
    | nil => exact render_head hp
    | cons j js => exact ⟨'[', _, rfl, by decide, by decide, by decide⟩
  | obj fields => cases fields with
    | nil => exact render_head hp
    | cons k j fs => exact ⟨'\x7b', _, rfl, by decide, by decide, by decide⟩
  | _ => exact render_head hp

theorem skipSpace_laid {j : Json} (hp : WellFormed j) (level : Nat) (r : Str) :
    skipSpace (laid L level j ++ r) = laid L level j ++ r := by
  obtain ⟨c,t,heq,hs,_⟩ := laid_head hp level
  rw [heq, List.cons_append, skipSpace_cons hs]

theorem stops_blank {s r : Str} (hs : Blank s) (hr : Stops r) : Stops (s ++ r) := by
  cases s with
  | nil => exact hr
  | cons c s => exact stops_cons (mem_stopChars_of_isSpace (hs c List.mem_cons_self))

theorem stops_laidItems (level : Nat) (js : JsonItems) (r : Str) :
    Stops (laidItems L level js ++ r) := by
  cases js with
  | nil =>
    rw [laidItems, List.append_assoc]
    exact stops_blank (L.blank_closing level) (stops_cons (by decide))
  | cons j js => exact stops_cons (by decide)

theorem stops_laidFields (level : Nat) (fs : JsonFields) (r : Str) :
    Stops (laidFields L level fs ++ r) := by
  cases fs with
  | nil =>
    rw [laidFields, List.append_assoc]
    exact stops_blank (L.blank_closing level) (stops_cons (by decide))
  | cons k j fs => exact stops_cons (by decide)

def itemsBody (L : Layout) (level : Nat) : JsonItems → Str
  | .nil => []
  | .cons j js => laid L (level + 1) j ++ laidItems L level js

def fieldsBody (L : Layout) (level : Nat) : JsonFields → Str
  | .nil => []
  | .cons k j fs => quote k ++ ':' :: L.colon ++ laid L (level + 1) j ++ laidFields L level fs

theorem parseValue_bracket {c : Char} (hne : c ≠ ']') {fuel : Nat} {s t r : Str}
    {items : JsonItems} (hskip : skipSpace s = c :: t)
    (hi : parseItems fuel (c :: t) = some (items, r)) :
    parseValue (fuel + 1) ('[' :: s) = some (.arr items, r) := by
  simp only [parseValue, hskip]
  split
  · next h => cases h; exact absurd rfl hne
  · rw [hi]
    rfl

theorem parseValue_brace {fuel : Nat} {s t r : Str} {fields : JsonFields}
    (hskip : skipSpace s = '"' :: t) (hi : parseFields fuel ('"' :: t) = some (fields, r)) :
    parseValue (fuel + 1) ('\x7b' :: s) = some (.obj fields, r) := by
  simp only [parseValue, hskip]
  split
  · next h => cases h
  · rw [hi]
    rfl

theorem parseItems_last {fuel : Nat} {s t r : Str} {j : Json} (h : parseValue fuel s = some (j, t))
    (ht : skipSpace t = ']' :: r) : parseItems (fuel + 1) s = some (.cons j .nil, r) := by
  rw [parseItems, h]
  simp [ht]

theorem parseItems_more {fuel : Nat} {s t t' r : Str} {j : Json} {js : JsonItems}
    (h : parseValue fuel s = some (j, ',' :: t)) (ht : skipSpace t = t')
    (hi : parseItems fuel t' = some (js, r)) :
    parseItems (fuel + 1) s = some (.cons j js, r) := by
  rw [parseItems, h]
  simp [skipSpace_cons (show isSpace ',' = false by decide), ht, hi]

theorem parseFields_key {fuel : Nat} {k s t t' : Str} {j : Json} (hs : skipSpace s = t)
    (h : parseValue fuel t = some (j, t')) :
    parseFields (fuel + 1) (quote k ++ ':' :: s) =
      match skipSpace t' with
      | '\x7d' :: tail => some (.cons k j .nil, tail)
      | ',' :: tail =>
        (parseFields fuel (skipSpace tail)).map fun p => (.cons k j p.1, p.2)
      | _ => none := by
  have hstr := scanString_quoted k (':' :: s)
  have hquote : quote k ++ ':' :: s = '"' :: (k.flatMap escapeChar ++ '"' :: ':' :: s) := by
    simp [quote]
  rw [hquote, parseFields, hstr]
  simp only [Option.bind_eq_bind, Option.bind_some,
    skipSpace_cons (show isSpace ':' = false by decide), hs, h]
  split
  · rfl
  · next tail _ => cases parseFields fuel (skipSpace tail) <;> rfl
  · rfl

theorem skipSpace_itemsBody {items : JsonItems} (hp : WellFormedItems items) (hne : items ≠ .nil)
    (level : Nat) (r : Str) :
    skipSpace (itemsBody L level items ++ r) = itemsBody L level items ++ r := by
  cases items with
  | nil => exact absurd rfl hne
  | cons j js =>
    simp only [itemsBody, List.append_assoc]
    exact skipSpace_laid hp.1 _ _

theorem skipSpace_fieldsBody {fields : JsonFields} (hne : fields ≠ .nil) (level : Nat) (r : Str) :
    skipSpace (fieldsBody L level fields ++ r) = fieldsBody L level fields ++ r := by
  cases fields with
  | nil => exact absurd rfl hne
  | cons k j fs =>
    simp only [fieldsBody, quote, List.cons_append]
    exact skipSpace_cons (by decide) _

theorem skipSpace_close {c : Char} (hc : isSpace c = false) (level : Nat) (r : Str) :
    skipSpace ((L.closing level ++ [c]) ++ r) = c :: r := by
  rw [List.append_assoc, skipSpace_append (L.blank_closing level)]
  exact skipSpace_cons hc r

mutual

theorem parseValue_laid (j : Json) (hp : WellFormed j) (level fuel : Nat) (hf : need j ≤ fuel)
    (r : Str) (hr : Stops r) : parseValue fuel (laid L level j ++ r) = some (j, r) := by
  cases fuel with
  | zero => cases j <;> simp [need] at hf
  | succ fuel =>
    cases j with
    | null => exact parseValue_atom (by decide) (by decide) (by decide) fuel _
    | bool b => cases b with
      | true => exact parseValue_atom (by decide) (by decide) (by decide) fuel _
      | false => exact parseValue_atom (by decide) (by decide) (by decide) fuel _
    | int n => exact parseValue_intText n fuel hr
    | float text => exact parseValue_float hp fuel hr
    | str s =>
      have hscan := scanString_quoted s r
      simp only [laid, render, quote, List.cons_append, List.append_assoc, List.nil_append,
        parseValue, hscan]
      rfl
    | arr items => cases items with
      | nil => rfl
      | cons j js =>
        have hitems := parseItems_laid (.cons j js) hp (by simp) level fuel
          (by simpa [need] using hf) r
        have hskip := skipSpace_append (L.blank_opening level)
          (itemsBody L level (.cons j js) ++ r)
        rw [skipSpace_itemsBody hp (by simp)] at hskip
        obtain ⟨c,t,heq,hs,hne,_⟩ := laid_head (L := L) hp.1 (level + 1)
        simp only [itemsBody, heq, List.cons_append, List.append_assoc] at hitems hskip
        simp only [laid, heq, List.cons_append, List.append_assoc]
        exact parseValue_bracket hne hskip hitems
    | obj fields => cases fields with
      | nil => rfl
      | cons k j fs =>
        have hfields := parseFields_laid (.cons k j fs) hp (by simp) level fuel
          (by simpa [need] using hf) r
        have hskip := skipSpace_append (L.blank_opening level)
          (fieldsBody L level (.cons k j fs) ++ r)
        rw [skipSpace_fieldsBody (by simp)] at hskip
        simp only [fieldsBody, quote, List.cons_append, List.append_assoc] at hfields hskip
        simp only [laid, quote, List.cons_append, List.append_assoc]
        exact parseValue_brace hskip hfields

theorem parseItems_laid (items : JsonItems) (hp : WellFormedItems items) (hne : items ≠ .nil)
    (level fuel : Nat) (hf : needItems items ≤ fuel) (r : Str) :
    parseItems fuel (itemsBody L level items ++ r) = some (items, r) := by
  cases items with
  | nil => exact absurd rfl hne
  | cons j js =>
    cases fuel with
    | zero => simp [needItems] at hf
    | succ fuel =>
      simp only [needItems, Nat.add_le_add_iff_right, Nat.max_le] at hf
      have hj := parseValue_laid j hp.1 (level + 1) fuel hf.1 (laidItems L level js ++ r)
        (stops_laidItems level js r)
      simp only [itemsBody, List.append_assoc]
      cases js with
      | nil => exact parseItems_last hj (skipSpace_close (by decide) level r)
      | cons j' js' =>
        have hrest := parseItems_laid (.cons j' js') hp.2 (by simp) level fuel hf.2 r
        have hskip := skipSpace_append (L.blank_between level)
          (itemsBody L level (.cons j' js') ++ r)
        rw [skipSpace_itemsBody hp.2 (by simp)] at hskip
        have hbody : laidItems L level (.cons j' js') ++ r =
            ',' :: (L.between level ++ (itemsBody L level (.cons j' js') ++ r)) := by
          simp [laidItems, itemsBody]
        rw [hbody] at hj ⊢
        exact parseItems_more hj hskip hrest

theorem parseFields_laid (fields : JsonFields) (hp : WellFormedFields fields)
    (hne : fields ≠ .nil) (level fuel : Nat) (hf : needFields fields ≤ fuel) (r : Str) :
    parseFields fuel (fieldsBody L level fields ++ r) = some (fields, r) := by
  cases fields with
  | nil => exact absurd rfl hne
  | cons k j fs =>
    cases fuel with
    | zero => simp [needFields] at hf
    | succ fuel =>
      simp only [needFields, Nat.add_le_add_iff_right, Nat.max_le] at hf
      have hj := parseValue_laid j hp.1 (level + 1) fuel hf.1 (laidFields L level fs ++ r)
        (stops_laidFields level fs r)
      have hskip := skipSpace_append L.blank_colon
        (laid L (level + 1) j ++ (laidFields L level fs ++ r))
      rw [skipSpace_laid hp.1] at hskip
      have hkey := parseFields_key (k := k) hskip hj
      simp only [fieldsBody, List.append_assoc, List.cons_append]
      rw [hkey]
      cases fs with
      | nil => simp only [laidFields, skipSpace_close (show isSpace '\x7d' = false by decide)]
      | cons k' j' fs' =>
        have hrest := parseFields_laid (.cons k' j' fs') hp.2 (by simp) level fuel hf.2 r
        have hskip' := skipSpace_append (L.blank_between level)
          (fieldsBody L level (.cons k' j' fs') ++ r)
        rw [skipSpace_fieldsBody (by simp)] at hskip'
        have hbody : laidFields L level (.cons k' j' fs') ++ r =
            ',' :: (L.between level ++ (fieldsBody L level (.cons k' j' fs') ++ r)) := by
          simp [laidFields, fieldsBody]
        rw [hbody, skipSpace_cons (by decide)]
        simp [hskip', hrest]

end

mutual

theorem need_le (j : Json) (hp : WellFormed j) (level : Nat) :
    need j ≤ 2 * (laid L level j).length := by
  cases j with
  | arr items => cases items with
    | nil => simp [need, needItems, laid, render]
    | cons j js =>
      have h := need_le j hp.1 (level + 1)
      have h' := needItems_le js hp.2 level
      simp only [need, needItems, laid, List.length_append, List.length_cons]
      omega
  | obj fields => cases fields with
    | nil => simp [need, needFields, laid, render]
    | cons k j fs =>
      have h := need_le j hp.1 (level + 1)
      have h' := needFields_le fs hp.2 level
      simp only [need, needFields, laid, List.length_append, List.length_cons]
      omega
  | _ =>
    obtain ⟨c,t,heq,_⟩ := laid_head (L := L) hp level
    simp only [need, heq, List.length_cons]
    omega

theorem needItems_le (js : JsonItems) (hp : WellFormedItems js) (level : Nat) :
    needItems js ≤ 2 * (laidItems L level js).length := by
  cases js with
  | nil => simp [needItems]
  | cons j js =>
    have h := need_le j hp.1 (level + 1)
    have h' := needItems_le js hp.2 level
    simp only [needItems, laidItems, List.length_append, List.length_cons]
    omega

theorem needFields_le (fs : JsonFields) (hp : WellFormedFields fs) (level : Nat) :
    needFields fs ≤ 2 * (laidFields L level fs).length := by
  cases fs with
  | nil => simp [needFields]
  | cons k j fs =>
    have h := need_le j hp.1 (level + 1)
    have h' := needFields_le fs hp.2 level
    simp only [needFields, laidFields, List.length_append, List.length_cons]
    omega

end

theorem loads_laid_blank {j : Json} (hp : WellFormed j) {tail : Str} (htail : Blank tail) :
    loads (laid L 0 j ++ tail) = some j := by
  have hneed : need j ≤ 2 * (laid L 0 j).length := need_le j hp 0
  have hfuel : need j ≤ 2 * (laid L 0 j ++ tail).length + 2 := by
    rw [List.length_append]
    omega
  have hstops : Stops tail := by
    have h := stops_blank htail stops_nil
    rwa [List.append_nil] at h
  have hparse := parseValue_laid (L := L) j hp 0 _ hfuel tail hstops
  have hblank : skipSpace tail = [] := by
    have h := skipSpace_append htail []
    rwa [List.append_nil] at h
  obtain ⟨c,t,heq,_,_,hbom⟩ := laid_head (L := L) hp 0
  have hhead : (laid L 0 j ++ tail).head? ≠ some byteOrderMark := by
    rw [heq]
    simpa using hbom
  rw [loads, if_neg hhead, skipSpace_laid hp 0 tail, hparse]
  exact if_pos hblank

theorem loads_laid {j : Json} (hp : WellFormed j) : loads (laid L 0 j) = some j := by
  have h := loads_laid_blank (L := L) hp blank_nil
  rwa [List.append_nil] at h

-- json.dumps without indent: one blank after a comma or a colon.
def oneLine : Layout where
  opening := fun _ => []
  between := fun _ => [' ']
  colon := [' ']
  closing := fun _ => []
  blank_opening := fun _ => blank_nil
  blank_between := fun _ => blank_space
  blank_colon := blank_space
  blank_closing := fun _ => blank_nil

mutual

theorem laid_oneLine (level : Nat) (j : Json) : laid oneLine level j = render j := by
  cases j with
  | arr items => cases items with
    | nil => rfl
    | cons j js =>
      rw [laid, laid_oneLine (level + 1) j, laidItems_oneLine level js]
      rfl
  | obj fields => cases fields with
    | nil => rfl
    | cons k j fs =>
      rw [laid, laid_oneLine (level + 1) j, laidFields_oneLine level fs]
      simp [render, oneLine]
  | _ => rfl

theorem laidItems_oneLine (level : Nat) (js : JsonItems) :
    laidItems oneLine level js = renderItems js := by
  cases js with
  | nil => rfl
  | cons j js =>
    rw [laidItems, laid_oneLine (level + 1) j, laidItems_oneLine level js]
    rfl

theorem laidFields_oneLine (level : Nat) (fs : JsonFields) :
    laidFields oneLine level fs = renderFields fs := by
  cases fs with
  | nil => rfl
  | cons k j fs =>
    rw [laidFields, laid_oneLine (level + 1) j, laidFields_oneLine level fs]
    simp [renderFields, oneLine]

end

theorem loads_wellFormed {j : Json} (hp : WellFormed j) : loads (render j) = some j := by
  have h := loads_laid (L := oneLine) hp
  rwa [laid_oneLine] at h

theorem toList_ofItems (js : List Json) : (JsonItems.ofList js).toList = js := by
  induction js with
  | nil => rfl
  | cons j js ih => rw [JsonItems.ofList, JsonItems.toList, ih]

theorem wellFormedItems_ofList {js : List Json} :
    WellFormedItems (.ofList js) ↔ ∀ j ∈ js, WellFormed j := by
  induction js with
  | nil => simp [JsonItems.ofList, WellFormedItems]
  | cons j js ih => rw [JsonItems.ofList, WellFormedItems, ih, List.forall_mem_cons]

theorem wellFormedFields_ofList {fs : List (Str × Json)} :
    WellFormedFields (.ofList fs) ↔ ∀ f ∈ fs, WellFormed f.2 := by
  induction fs with
  | nil => simp [JsonFields.ofList, WellFormedFields]
  | cons f fs ih =>
    obtain ⟨k,j⟩ := f
    rw [JsonFields.ofList, WellFormedFields, ih, List.forall_mem_cons]

theorem loads_render {j : Json} (hp : plain j = true) : loads (render j) = some j :=
  loads_wellFormed (wellFormed_of_plain hp)

theorem wellFormedFields_insertField (k : Str) {j : Json} {fs : JsonFields} (hj : WellFormed j)
    (h : WellFormedFields fs) : WellFormedFields (insertField k j fs) :=
  match fs with
  | .nil => ⟨hj, h⟩
  | .cons k' j' fs => by
    rw [insertField]
    split
    · exact ⟨h.1, wellFormedFields_insertField k hj h.2⟩
    · exact ⟨hj, h⟩

mutual

theorem wellFormed_sortKeys {j : Json} (h : WellFormed j) : WellFormed (sortKeys j) := by
  cases j with
  | arr items => exact wellFormedItems_sortItems h
  | obj fields => exact wellFormedFields_sortFields h
  | _ => exact h

theorem wellFormedItems_sortItems {js : JsonItems} (h : WellFormedItems js) :
    WellFormedItems (sortItems js) := by
  cases js with
  | nil => trivial
  | cons j js => exact ⟨wellFormed_sortKeys h.1, wellFormedItems_sortItems h.2⟩

theorem wellFormedFields_sortFields {fs : JsonFields} (h : WellFormedFields fs) :
    WellFormedFields (sortFields fs) := by
  cases fs with
  | nil => trivial
  | cons k j fs =>
    exact wellFormedFields_insertField k (wellFormed_sortKeys h.1) (wellFormedFields_sortFields h.2)

end

theorem loads_dumps {j : Json} (h : WellFormed j) : loads (dumps j) = some (sortKeys j) :=
  loads_wellFormed (wellFormed_sortKeys h)

end Layout

end Json

end PicoSentry.Foundation
