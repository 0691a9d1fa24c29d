import Mathlib.Data.List.DropRight
import PicoSentry.Foundation.Json
import PicoSentry.Foundation.TaggedRecords

namespace PicoSentry.Sandbox.PolicySigning

open Foundation

section Digests

def hexText (bytes : Bytes) : Str :=
  bytes.flatMap fun byte => [Json.hexDigit (byte.toNat / 16), Json.hexDigit (byte.toNat % 16)]

-- hmac.new(key, message, hashlib.sha256).digest(), taken to be injective in the message.
structure Hmac where
  digest : Bytes → Bytes → Bytes
  digest_injective : ∀ key, Function.Injective (digest key)
  digest_ne_nil : ∀ key message, digest key message ≠ []

def Hmac.hexdigest (H : Hmac) (key message : Bytes) : Str := hexText (H.digest key message)

def Hmac.framed : Hmac where
  digest _ message := 0 :: message
  digest_injective _ _ _ h := (List.cons.inj h).2
  digest_ne_nil _ _ := List.cons_ne_nil _ _

-- The fields that time.gmtime gives to "%Y-%m-%dT%H:%M:%SZ".
structure Gmtime where
  year : Nat
  month : Nat
  day : Nat
  hour : Nat
  minute : Nat
  second : Nat

def twoDigits (n : Nat) : Str := if n < 10 then '0' :: decimal n else decimal n

def Gmtime.strftime (now : Gmtime) : Str :=
  decimal now.year ++ '-' :: twoDigits now.month ++ '-' :: twoDigits now.day ++ 'T' :: twoDigits now.hour ++
    ':' :: twoDigits now.minute ++ ':' :: twoDigits now.second ++ ['Z']

end Digests

def defaultKeyId : Str := "default".toList

structure PolicySignature where
  algorithm : Str := []
  signature : Str := []
  timestamp : Str := []
  keyId : Str := defaultKeyId
  deriving DecidableEq

structure VerifyResult where
  valid : Bool
  algorithm : Str := []
  keyId : Str := []
  timestamp : Str := []
  error : Str := []
  deriving DecidableEq

section Signing

variable (U : Unicode) (H : Hmac)

def signatureMarker : Str := "# --- PICODOME SIGNATURE ---".toList

def supportedAlgorithms : List Str := ["hmac-sha256".toList]

def signPolicy (content : Str) (key : Bytes) (now : Gmtime) (keyId : Str) : Str :=
  let sig := H.hexdigest key (utf8 content)
  content ++ '\n' :: signatureMarker ++ '\n' :: "# algorithm: hmac-sha256".toList ++
    '\n' :: ("# signature: ".toList ++ sig) ++ '\n' :: ("# timestamp: ".toList ++ now.strftime) ++
    '\n' :: ("# key_id: ".toList ++ keyId) ++ ['\n']

def isMarker (line : Str) : Bool := U.strip line = U.strip signatureMarker

def isBlank (line : Str) : Bool := U.strip line = []

-- The text after the first colon.
def fieldValue (field : Str) : Str := U.strip (field.dropWhile (· ≠ ':')).tail

def PolicySignature.read (parsed : PolicySignature) (field : Str) : PolicySignature :=
  if "algorithm:".toList.isPrefixOf field then { parsed with algorithm := fieldValue U field }
  else if "signature:".toList.isPrefixOf field then { parsed with signature := fieldValue U field }
  else if "timestamp:".toList.isPrefixOf field then { parsed with timestamp := fieldValue U field }
  else if "key_id:".toList.isPrefixOf field then { parsed with keyId := fieldValue U field }
  else parsed

def readFields (parsed : PolicySignature) : List Str → PolicySignature
  | [] => parsed
  | line :: lines =>
    let stripped := U.strip line
    if stripped = [] ∨ !(['#'].isPrefixOf stripped) then parsed
    else readFields (parsed.read U (U.strip (stripped.dropWhile fun c => c = '#' ∨ c = ' '))) lines

def parseSignature (content : Str) : Option PolicySignature :=
  match (content.splitOn '\n').dropWhile fun line => !isMarker U line with
  | [] => none
  | _ :: lines =>
    let parsed := readFields U {} lines
    if parsed.algorithm = [] ∨ parsed.signature = [] then none else some parsed

def stripSignature (content : Str) : Str :=
  let lines := content.splitOn '\n'
  if lines.all fun line => !isMarker U line then content
  else
    let policyLines := lines.takeWhile fun line => !isMarker U line
    ['\n'].intercalate (policyLines.rdropWhile (isBlank U)) ++ ['\n']

def verifyPolicy (content : Str) (key : Bytes) (keyId : Str) : VerifyResult :=
  match parseSignature U content with
  | none => { valid := false, error := "no signature found".toList }
  | some parsed =>
    if parsed.algorithm ∉ supportedAlgorithms then
      { valid := false
        algorithm := parsed.algorithm
        error := "unsupported algorithm: ".toList ++ parsed.algorithm }
    else if parsed.keyId ≠ keyId then
      { valid := false
        algorithm := parsed.algorithm
        keyId := parsed.keyId
        error := "key_id mismatch: expected '".toList ++ keyId ++ "', got '".toList ++ parsed.keyId ++
          "'".toList }
    else if utf8 (H.hexdigest key (utf8 (stripSignature U content))) = utf8 parsed.signature then
      { valid := true
        algorithm := parsed.algorithm
        keyId := parsed.keyId
        timestamp := parsed.timestamp }
    else
      { valid := false
        algorithm := parsed.algorithm
        keyId := parsed.keyId
        error := "signature mismatch — policy may have been tampered with".toList }

end Signing

section Lines

variable {α : Type} [DecidableEq α] {a : α}

theorem not_mem_of_mem_splitOn {xs line : List α} (h : line ∈ xs.splitOn a) : a ∉ line := by
  induction xs generalizing line with
  | nil =>
    rw [List.splitOn_nil, List.mem_singleton] at h
    rw [h]
    exact List.not_mem_nil
  | cons x xs ih =>
    rw [List.splitOn_cons_eq_if_modifyHead] at h
    split at h
    · rcases List.mem_cons.mp h with rfl | h
      · exact List.not_mem_nil
      · exact ih h
    · next hx =>
      cases hsplit : xs.splitOn a with
      | nil => exact absurd hsplit (List.splitOn_ne_nil a xs)
      | cons first rest =>
        rw [hsplit, List.modifyHead_cons] at h
        rcases List.mem_cons.mp h with rfl | h
        · rw [List.mem_cons, not_or]
          exact ⟨fun heq => hx (by simp [heq]), ih (by rw [hsplit]; exact List.mem_cons_self)⟩
        · exact ih (by rw [hsplit]; exact List.mem_cons_of_mem first h)

omit [DecidableEq α] in
theorem intercalate_concat_nil {lines : List (List α)} (h : lines ≠ []) :
    [a].intercalate (lines ++ [[]]) = [a].intercalate lines ++ [a] := by
  induction lines with
  | nil => exact absurd rfl h
  | cons line lines ih =>
    cases lines with
    | nil => simp
    | cons next rest =>
      rw [List.cons_append, List.intercalate_cons_of_ne_nil (by simp), ih (List.cons_ne_nil next rest),
        List.intercalate_cons_of_ne_nil (List.cons_ne_nil next rest)]
      simp

end Lines

section Texts

variable {U : Unicode} {H : Hmac}

structure Word (U : Unicode) (text : Str) : Prop where
  ne_nil : text ≠ []
  no_space : ∀ c ∈ text, U.space c = false

theorem space_ascii_false {c : Char} (h : 33 ≤ c.toNat ∧ c.toNat < 127) : U.space c = false := by
  rw [U.space_ascii c (by omega)]
  simp only [asciiSpaces, List.contains_eq_mem, List.mem_cons, List.not_mem_nil, or_false,
    decide_eq_false_iff_not]
  omega

theorem space_newline : U.space '\n' = true := by
  rw [U.space_ascii _ (by decide)]
  rfl

theorem Word.no_newline {text : Str} (h : Word U text) : '\n' ∉ text := by
  intro hmem
  have hspace := h.no_space _ hmem
  rw [space_newline] at hspace
  cases hspace

theorem word_of_ascii {text : Str} (hne : text ≠ []) (h : ∀ c ∈ text, 33 ≤ c.toNat ∧ c.toNat < 127) :
    Word U text :=
  ⟨hne, fun c hc => space_ascii_false (h c hc)⟩

theorem decimal_ascii (n : Nat) : ∀ c ∈ decimal n, 33 ≤ c.toNat ∧ c.toNat < 127 := by
  obtain ⟨d,ds,heq,hdigits,_⟩ := decimalFrom_spec (n + 1) n [] (by omega)
  intro c hc
  rw [decimal, heq, List.append_nil] at hc
  have hdigit := hdigits c hc
  simp only [isDigit, Bool.and_eq_true, decide_eq_true_eq] at hdigit
  omega

theorem twoDigits_ascii (n : Nat) : ∀ c ∈ twoDigits n, 33 ≤ c.toNat ∧ c.toNat < 127 := by
  intro c hc
  rw [twoDigits] at hc
  split at hc
  · rcases List.mem_cons.mp hc with rfl | hc
    · decide
    · exact decimal_ascii n c hc
  · exact decimal_ascii n c hc

theorem word_strftime (now : Gmtime) : Word U now.strftime := by
  refine word_of_ascii (by simp [Gmtime.strftime]) fun c hc => ?_
  simp only [Gmtime.strftime, List.mem_append, List.mem_cons, List.not_mem_nil, or_false] at hc
  rcases hc with (((((hc | rfl | hc) | rfl | hc) | rfl | hc) | rfl | hc) | rfl | hc) | rfl
  · exact decimal_ascii _ c hc
  all_goals first | exact twoDigits_ascii _ c hc | decide

theorem word_hexdigest (key message : Bytes) : Word U (H.hexdigest key message) := by
  have hhex : ∀ d < 16, 33 ≤ (Json.hexDigit d).toNat ∧ (Json.hexDigit d).toNat < 127 := by decide
  refine word_of_ascii ?_ fun c hc => ?_
  · rw [Hmac.hexdigest, hexText, Ne, List.flatMap_eq_nil_iff]
    obtain ⟨byte,rest,hdigest⟩ := List.exists_cons_of_ne_nil (H.digest_ne_nil key message)
    rw [hdigest]
    exact fun hall => absurd (hall byte List.mem_cons_self) (List.cons_ne_nil _ _)
  · obtain ⟨byte,_,hbyte⟩ := List.mem_flatMap.mp hc
    have hlt := byte.toNat_lt
    simp only [List.mem_cons, List.not_mem_nil, or_false] at hbyte
    rcases hbyte with rfl | rfl
    · exact hhex _ (by omega)
    · exact hhex _ (by omega)

theorem hexText_injective : Function.Injective hexText := by
  intro bytes
  induction bytes with
  | nil =>
    intro bytes' h
    cases bytes' with
    | nil => rfl
    | cons byte' bytes' => cases h
  | cons byte bytes ih =>
    intro bytes' h
    cases bytes' with
    | nil => cases h
    | cons byte' bytes' =>
      simp only [hexText, List.flatMap_cons, List.cons_append, List.nil_append, List.cons.injEq] at h
      obtain ⟨hhigh,hlow,hrest⟩ := h
      have hlt := byte.toNat_lt
      have hlt' := byte'.toNat_lt
      have hdigit : ∀ d d', d < 16 → d' < 16 → Json.hexDigit d = Json.hexDigit d' → d = d' := by
        intro d d' hd hd' heq
        have hvalue := Json.hexValue_hexDigit hd
        rw [heq, Json.hexValue_hexDigit hd'] at hvalue
        exact (Option.some.inj hvalue).symm
      have hdiv := hdigit _ _ (by omega) (by omega) hhigh
      have hmod := hdigit _ _ (by omega) (by omega) hlow
      have hbyte : byte = byte' := UInt8.toNat_inj.mp (by omega)
      rw [hbyte, ih hrest]

theorem hexdigest_injective (key : Bytes) : Function.Injective (H.hexdigest key) :=
  fun _ _ h => H.digest_injective key (hexText_injective h)

end Texts

section Reading

variable {U : Unicode}

def fieldLine (name value : Str) : Str := '#' :: ' ' :: (name ++ ':' :: ' ' :: value)

theorem strip_append_word {first : Char} (hfirst : U.space first = false) (middle : Str) {value : Str}
    (hvalue : Word U value) : U.strip (first :: (middle ++ value)) = first :: (middle ++ value) := by
  obtain ⟨init,last,hlast⟩ := List.eq_nil_or_concat value |>.resolve_left hvalue.ne_nil
  refine Unicode.strip_eq_of_ends (t := first :: (middle ++ init)) (d := last) rfl ?_ hfirst ?_
  · rw [hlast]
    simp
  · exact hvalue.no_space last (by rw [hlast]; simp)

theorem strip_space_word {value : Str} (hvalue : Word U value) : U.strip (' ' :: value) = value := by
  have hspace : U.space ' ' = true := by
    rw [U.space_ascii _ (by decide)]
    rfl
  have hstrip := Unicode.strip_eq_self hvalue.no_space
  rw [Unicode.strip, List.dropWhile_cons_of_pos hspace]
  exact hstrip

theorem fieldValue_word {name value : Str} (hcolon : ':' ∉ name) (hvalue : Word U value) :
    fieldValue U (name ++ ':' :: ' ' :: value) = value := by
  have hname : ∀ c ∈ name, decide (c ≠ ':') = true := by
    intro c hc
    exact decide_eq_true (ne_of_mem_of_not_mem hc hcolon)
  rw [fieldValue, (run_cons hname (by decide)).2, List.tail_cons, strip_space_word hvalue]

structure FieldName (name : Str) : Prop where
  starts : ∃ first rest, name = first :: rest ∧ 33 ≤ first.toNat ∧ first.toNat < 127 ∧ first ≠ '#'
  no_colon : ':' ∉ name

theorem readFields_fieldLine {name value : Str} (hname : FieldName name) (hvalue : Word U value)
    (parsed : PolicySignature) (lines : List Str) :
    readFields U parsed (fieldLine name value :: lines) =
      readFields U (parsed.read U (name ++ ':' :: ' ' :: value)) lines := by
  obtain ⟨first,rest,rfl,hlow,hhigh,hhash⟩ := hname.starts
  have hspace : first ≠ ' ' := by
    rintro rfl
    exact absurd hlow (by decide)
  have hline : U.strip (fieldLine (first :: rest) value) = fieldLine (first :: rest) value := by
    have hsharp : U.space '#' = false := space_ascii_false (by decide)
    have hstrip := strip_append_word hsharp (' ' :: (first :: rest ++ [':', ' '])) hvalue
    simpa [fieldLine] using hstrip
  have hfield : U.strip (first :: rest ++ ':' :: ' ' :: value) = first :: rest ++ ':' :: ' ' :: value := by
    have hstrip := strip_append_word (space_ascii_false (U := U) ⟨hlow, hhigh⟩) (rest ++ [':', ' ']) hvalue
    simpa using hstrip
  have hdrop : (fieldLine (first :: rest) value).dropWhile (fun c => c = '#' ∨ c = ' ') =
      first :: rest ++ ':' :: ' ' :: value := by
    simp [fieldLine, hhash, hspace]
  rw [readFields, hline, hdrop, hfield, if_neg]
  simp [fieldLine]

theorem fieldName_algorithm : FieldName "algorithm".toList :=
  ⟨⟨_, _, rfl, by decide, by decide, by decide⟩, by decide⟩

theorem fieldName_signature : FieldName "signature".toList :=
  ⟨⟨_, _, rfl, by decide, by decide, by decide⟩, by decide⟩

theorem fieldName_timestamp : FieldName "timestamp".toList :=
  ⟨⟨_, _, rfl, by decide, by decide, by decide⟩, by decide⟩

theorem fieldName_keyId : FieldName "key_id".toList :=
  ⟨⟨_, _, rfl, by decide, by decide, by decide⟩, by decide⟩

variable {value : Str} (parsed : PolicySignature)

theorem read_algorithm (hvalue : Word U value) :
    parsed.read U ("algorithm".toList ++ ':' :: ' ' :: value) = { parsed with algorithm := value } := by
  rw [PolicySignature.read, fieldValue_word fieldName_algorithm.no_colon hvalue]
  rfl

theorem read_signature (hvalue : Word U value) :
    parsed.read U ("signature".toList ++ ':' :: ' ' :: value) = { parsed with signature := value } := by
  rw [PolicySignature.read, fieldValue_word fieldName_signature.no_colon hvalue]
  rfl

theorem read_timestamp (hvalue : Word U value) :
    parsed.read U ("timestamp".toList ++ ':' :: ' ' :: value) = { parsed with timestamp := value } := by
  rw [PolicySignature.read, fieldValue_word fieldName_timestamp.no_colon hvalue]
  rfl

theorem read_keyId (hvalue : Word U value) :
    parsed.read U ("key_id".toList ++ ':' :: ' ' :: value) = { parsed with keyId := value } := by
  rw [PolicySignature.read, fieldValue_word fieldName_keyId.no_colon hvalue]
  rfl

end Reading

section Signed

variable {U : Unicode} {H : Hmac} {content : Str} {key : Bytes} {now : Gmtime}

def Unsigned (U : Unicode) (content : Str) : Prop := ∀ line ∈ content.splitOn '\n', isMarker U line = false

def signatureOf (H : Hmac) (content : Str) (key : Bytes) (now : Gmtime) : PolicySignature where
  algorithm := "hmac-sha256".toList
  signature := H.hexdigest key (utf8 content)
  timestamp := now.strftime
  keyId := defaultKeyId

def fieldLines (H : Hmac) (content : Str) (key : Bytes) (now : Gmtime) : List Str :=
  [fieldLine "algorithm".toList "hmac-sha256".toList,
   fieldLine "signature".toList (H.hexdigest key (utf8 content)),
   fieldLine "timestamp".toList now.strftime, fieldLine "key_id".toList defaultKeyId, []]

theorem splitOn_signPolicy : (signPolicy H content key now defaultKeyId).splitOn '\n' =
    content.splitOn '\n' ++ signatureMarker :: fieldLines H content key now := by
  have hsig : '\n' ∉ "# signature: ".toList ++ H.hexdigest key (utf8 content) := by
    rw [List.mem_append, not_or]
    exact ⟨by decide, (word_hexdigest (U := .basic) key (utf8 content)).no_newline⟩
  have hstamp : '\n' ∉ "# timestamp: ".toList ++ now.strftime := by
    rw [List.mem_append, not_or]
    exact ⟨by decide, (word_strftime (U := .basic) now).no_newline⟩
  have hsplit : ∀ line : Str, '\n' ∉ line → line.splitOn '\n' = [line] := fun _ => List.splitOn_eq_singleton
  have hmarker := hsplit signatureMarker (by decide)
  have halgorithm := hsplit "# algorithm: hmac-sha256".toList (by decide)
  have hkey := hsplit ("# key_id: ".toList ++ defaultKeyId) (by decide)
  simp only [signPolicy, List.append_assoc, List.cons_append, List.splitOn_append_cons_self, hmarker]
  rw [← List.append_assoc "# signature: ".toList, ← List.append_assoc "# timestamp: ".toList,
    ← List.append_assoc "# key_id: ".toList]
  simp only [List.splitOn_append_cons_self, halgorithm, hsplit _ hsig, hsplit _ hstamp, hkey, List.splitOn_nil]
  rfl

instance decidableUnsigned (U : Unicode) (content : Str) : Decidable (Unsigned U content) :=
  inferInstanceAs (Decidable (∀ line ∈ content.splitOn '\n', isMarker U line = false))

theorem isMarker_signatureMarker : isMarker U signatureMarker = true := decide_eq_true rfl

theorem lines_signPolicy (h : Unsigned U content) :
    ((signPolicy H content key now defaultKeyId).splitOn '\n').takeWhile (fun line => !isMarker U line) =
        content.splitOn '\n' ∧
      ((signPolicy H content key now defaultKeyId).splitOn '\n').dropWhile (fun line => !isMarker U line) =
        signatureMarker :: fieldLines H content key now := by
  have hlines : ∀ line ∈ content.splitOn '\n', (!isMarker U line) = true := by
    intro line hline
    rw [h line hline]
    rfl
  rw [splitOn_signPolicy, List.takeWhile_append_of_pos hlines, List.dropWhile_append_of_pos hlines]
  simp [isMarker_signatureMarker]

theorem readFields_fieldLines : readFields U {} (fieldLines H content key now) = signatureOf H content key now := by
  have hdigest := word_hexdigest (U := U) (H := H) key (utf8 content)
  have hstamp := word_strftime (U := U) now
  have halgorithm : Word U "hmac-sha256".toList := word_of_ascii (by decide) (forall_mem_of_all (by decide))
  have hkey : Word U defaultKeyId := word_of_ascii (by decide) (forall_mem_of_all (by decide))
  rw [fieldLines, readFields_fieldLine fieldName_algorithm halgorithm, read_algorithm _ halgorithm,
    readFields_fieldLine fieldName_signature hdigest, read_signature _ hdigest,
    readFields_fieldLine fieldName_timestamp hstamp, read_timestamp _ hstamp,
    readFields_fieldLine fieldName_keyId hkey, read_keyId _ hkey]
  rfl

theorem parseSignature_signPolicy (h : Unsigned U content) :
    parseSignature U (signPolicy H content key now defaultKeyId) = some (signatureOf H content key now) := by
  have hdigest := word_hexdigest (U := U) (H := H) key (utf8 content)
  rw [parseSignature, (lines_signPolicy h).2]
  dsimp only
  rw [readFields_fieldLines, if_neg]
  rintro (halgorithm | hsignature)
  · cases halgorithm
  · exact hdigest.ne_nil hsignature

def recovered (U : Unicode) (content : Str) : Str :=
  ['\n'].intercalate ((content.splitOn '\n').rdropWhile (isBlank U)) ++ ['\n']

theorem stripSignature_signPolicy (h : Unsigned U content) :
    stripSignature U (signPolicy H content key now defaultKeyId) = recovered U content := by
  rw [stripSignature]
  dsimp only
  rw [if_neg, (lines_signPolicy h).1, recovered]
  rw [splitOn_signPolicy, List.all_eq_true]
  intro hall
  have hmarker := hall signatureMarker (by simp)
  rw [isMarker_signatureMarker] at hmarker
  cases hmarker

theorem valid_verifyPolicy_iff {t : Str} : (verifyPolicy U H t key defaultKeyId).valid = true ↔
    ∃ parsed, parseSignature U t = some parsed ∧ parsed.algorithm ∈ supportedAlgorithms ∧
      parsed.keyId = defaultKeyId ∧ H.hexdigest key (utf8 (stripSignature U t)) = parsed.signature := by
  rw [verifyPolicy]
  cases hparsed : parseSignature U t with
  | none => simp
  | some parsed =>
    by_cases halgorithm : parsed.algorithm ∈ supportedAlgorithms
    · by_cases hkey : parsed.keyId = defaultKeyId
      · by_cases hsame : H.hexdigest key (utf8 (stripSignature U t)) = parsed.signature
        · simp [halgorithm, hkey, hsame]
        · have hbytes : utf8 (H.hexdigest key (utf8 (stripSignature U t))) ≠ utf8 parsed.signature :=
            fun h => hsame (utf8_injective h)
          simp [halgorithm, hkey, hsame, hbytes]
      · simp [halgorithm, hkey]
    · simp [halgorithm]

theorem recovered_eq_iff : recovered U content = content ↔
    content = ['\n'] ∨ ∃ init line, content.splitOn '\n' = init ++ [line, []] ∧ U.strip line ≠ [] := by
  have hblank : isBlank U [] = true := decide_eq_true rfl
  constructor
  · intro h
    rcases List.eq_nil_or_concat ((content.splitOn '\n').rdropWhile (isBlank U)) with hnil | ⟨init,line,hlines⟩
    · rw [recovered, hnil] at h
      exact .inl h.symm
    · refine .inr ⟨init, line, ?_, ?_⟩
      · have hsep : ∀ l ∈ init ++ [line] ++ [[]], '\n' ∉ l := by
          intro l hl
          rcases List.mem_append.mp hl with hl | hl
          · rw [← List.concat_eq_append, ← hlines] at hl
            exact not_mem_of_mem_splitOn ((List.rdropWhile_prefix _ _).subset hl)
          · rw [List.mem_singleton.mp hl]
            exact List.not_mem_nil
        rw [recovered, hlines, ← intercalate_concat_nil (by simp)] at h
        rw [← h, List.concat_eq_append, List.splitOn_intercalate '\n' hsep (by simp)]
        simp
      · have hlast := List.rdropWhile_last_not (isBlank U) (content.splitOn '\n') (by rw [hlines]; simp)
        simp only [hlines] at hlast
        simpa [isBlank] using hlast
  · rintro (hnewline | ⟨init,line,hlines,hline⟩)
    · rw [recovered, hnewline]
      have hsplit : ['\n'].splitOn '\n' = [[], []] := by decide
      rw [hsplit, List.rdropWhile_eq_nil_iff.mpr (by simp [hblank])]
      rfl
    · have hdrop : (content.splitOn '\n').rdropWhile (isBlank U) = init ++ [line] := by
        have hsplit : init ++ [line, []] = init ++ [line] ++ [[]] := by simp
        rw [hlines, hsplit, List.rdropWhile_concat_pos _ _ _ hblank, List.rdropWhile_concat_neg]
        simpa [isBlank] using hline
      rw [recovered, hdrop, ← intercalate_concat_nil (by simp)]
      have hcontent : ['\n'].intercalate (content.splitOn '\n') = content := List.intercalate_splitOn '\n'
      conv_rhs => rw [← hcontent, hlines]
      simp

end Signed

section RoundTrip

structure SignatureHolds (U : Unicode) (H : Hmac) (content : Str) (key : Bytes) (now : Gmtime) : Prop where
  valid : (verifyPolicy U H (signPolicy H content key now defaultKeyId) key defaultKeyId).valid = true
  recovers : stripSignature U (signPolicy H content key now defaultKeyId) = content
  binds : ∀ t parsed, parseSignature U t = some parsed →
    parsed.signature = H.hexdigest key (utf8 content) → stripSignature U t ≠ content →
      (verifyPolicy U H t key defaultKeyId).valid = false

def EndsInLine (U : Unicode) (content : Str) : Prop :=
  content = ['\n'] ∨ ∃ init line, content.splitOn '\n' = init ++ [line, []] ∧ U.strip line ≠ []

variable {U : Unicode} {H : Hmac} {content : Str} {key : Bytes} {now : Gmtime}

theorem signature_binds {t : Str} {parsed : PolicySignature} (hparsed : parseSignature U t = some parsed)
    (hsignature : parsed.signature = H.hexdigest key (utf8 content)) (hother : stripSignature U t ≠ content) :
    (verifyPolicy U H t key defaultKeyId).valid = false := by
  rw [Bool.eq_false_iff, Ne, valid_verifyPolicy_iff]
  rintro ⟨parsed',hparsed',_,_,hdigest⟩
  cases hparsed.symm.trans hparsed'
  exact hother (utf8_injective (hexdigest_injective key (hdigest.trans hsignature)))

theorem signature_holds_iff (U : Unicode) (H : Hmac) (content : Str) (key : Bytes) (now : Gmtime)
    (h : Unsigned U content) : SignatureHolds U H content key now ↔ EndsInLine U content := by
  rw [EndsInLine, ← recovered_eq_iff]
  have hrecovers : stripSignature U (signPolicy H content key now defaultKeyId) = recovered U content :=
    stripSignature_signPolicy h
  constructor
  · intro hholds
    rw [← hrecovers, hholds.recovers]
  · intro hsame
    refine ⟨valid_verifyPolicy_iff.mpr ⟨_, parseSignature_signPolicy h, List.mem_singleton.mpr rfl, rfl, ?_⟩,
      hrecovers.trans hsame, fun t parsed => signature_binds⟩
    rw [hrecovers, hsame]
    rfl

def newYear : Gmtime := ⟨2026, 1, 1, 0, 0, 0⟩

theorem signature_holds_newline_ended :
    SignatureHolds .basic .framed "default: deny\n".toList [] newYear := by
  have hends : EndsInLine .basic "default: deny\n".toList :=
    .inr ⟨[], "default: deny".toList, by decide, by decide⟩
  exact (signature_holds_iff .basic .framed "default: deny\n".toList [] newYear (by decide)).mpr hends

-- A policy without a newline at its end is signed as it is and hashed with one when it is verified.
theorem unterminated_policy_not_recovered :
    ¬∀ (U : Unicode) (H : Hmac) (content : Str) (key : Bytes) (now : Gmtime), Unsigned U content →
      SignatureHolds U H content key now := by
  intro h
  have hholds := h .basic .framed "default: deny".toList [] newYear (by decide)
  have hrecovers := hholds.recovers
  rw [stripSignature_signPolicy (by decide)] at hrecovers
  exact absurd hrecovers (by decide)

end RoundTrip

end PicoSentry.Sandbox.PolicySigning
