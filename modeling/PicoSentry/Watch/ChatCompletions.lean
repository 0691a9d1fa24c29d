import PicoSentry.Foundation.Literal
import PicoSentry.Watch.PromptGuard

namespace PicoSentry.Watch.ChatCompletions

open Foundation
open Foundation.Repr
open PromptGuard (PromptScanResult)

structure TenantProfile where
  name : Str
  allowedCategories : Option (List Str)
  thresholdBlock : Option Number

-- guardFor: the check of the guard that is built for a profile.
structure Gateway where
  tenants : Dict Str TenantProfile
  guardFor : TenantProfile → Str → PromptScanResult

structure Headers where
  authorization : Option Str
  xApiKey : Option Str

inductive Event where
  | check (text : Str)
  | forward (body : Json)

inductive Answer where
  | messagesRequired
  | invalidKey
  | promptBlocked (profile : Str) (result : PromptScanResult)
  | upstream

def messagesOf : Json → Option (List Json)
  | .obj fields =>
    match Dict.get? fields.toList "messages".toList with
    | some (.arr items) => some items.toList
    | _ => none
  | _ => none

def truthy : Json → Bool
  | .null => false
  | .bool b => b
  | .int n => n ≠ 0
  | .float text => text ≠ "0.0".toList && text ≠ "-0.0".toList
  | .str s => s ≠ []
  | .arr .nil => false
  | .arr (.cons _ _) => true
  | .obj .nil => false
  | .obj (.cons _ _ _) => true

def contentOf (fields : JsonFields) : Json :=
  (Dict.get? fields.toList "content".toList).getD (.str [])

section Model

variable (T : CharTables)

def messageText : Json → Str
  | .obj fields => strOf T (contentOf fields)
  | m => strOf T m

def promptText (messages : List Json) : Str :=
  ['\n'].intercalate ((messages.filter truthy).map (messageText T))

def bearer (authorization : Str) : Option Str :=
  if "bearer ".toList.isPrefixOf (T.lowerStr authorization) then some (T.strip (authorization.drop 7))
  else none

def apiKeyOf (headers : Headers) : Option Str :=
  match headers.xApiKey with
  | some (c :: key) => some (c :: key)
  | other => (headers.authorization.bind (bearer T)).or other

def refused (gateway : Gateway) (apiKey : Option Str) : Bool :=
  !gateway.tenants.isEmpty &&
    match apiKey with
    | none => true
    | some key => key.isEmpty || !gateway.tenants.keys.contains key

def profileForKey (gateway : Gateway) (apiKey : Option Str) : TenantProfile :=
  ((apiKey.filter fun key => key ≠ []).bind gateway.tenants.get?).getD ⟨"default".toList, none, none⟩

def chatCompletions (gateway : Gateway) (headers : Headers) (body : Json) : List Event × Answer :=
  match messagesOf body with
  | none => ([], .messagesRequired)
  | some messages =>
    let apiKey := apiKeyOf T headers
    if refused gateway apiKey then ([], .invalidKey)
    else
      let profile := profileForKey gateway apiKey
      let text := promptText T messages
      let result := gateway.guardFor profile text
      if result.blocked then ([.check text], .promptBlocked profile.name result)
      else ([.check text, .forward body], .upstream)

end Model

section Strings

def fieldText : Str × Json → Option Str
  | (key, .str text) => if key = "text".toList then some text else none
  | _ => none

def partTexts : Json → List Str
  | .str text => [text]
  | .obj fields => fields.toList.filterMap fieldText
  | _ => []

def messageParts : Json → List Str
  | .obj fields =>
    match contentOf fields with
    | .arr parts => parts.toList.flatMap partTexts
    | _ => []
  | _ => []

def messageStrings : Json → List Str
  | .str s => [s]
  | .obj fields =>
    match contentOf fields with
    | .str s => [s]
    | .arr parts => parts.toList.flatMap partTexts
    | _ => []
  | _ => []

def bodyParts (body : Json) : List Str := ((messagesOf body).getD []).flatMap messageParts

def bodyStrings (body : Json) : List Str := ((messagesOf body).getD []).flatMap messageStrings

end Strings

-- The prompt text with the text of each part put where its literal stands.
section Placed

variable (T : CharTables) (place : Str → Str)

def placedField : Str × Json → Str
  | (key, value) =>
    literal T key ++ ": ".toList ++
      match fieldText (key, value) with
      | some text => place text
      | none => reprOf T value

def placedPart : Json → Str
  | .str text => place text
  | .obj fields =>
    '\x7b' :: ", ".toList.intercalate (fields.toList.map (placedField T place)) ++ ['\x7d']
  | j => reprOf T j

def placedMessage : Json → Str
  | .obj fields =>
    match contentOf fields with
    | .arr parts => '[' :: ", ".toList.intercalate (parts.toList.map (placedPart T place)) ++ [']']
    | content => strOf T content
  | m => strOf T m

def placedText (messages : List Json) : Str :=
  ['\n'].intercalate ((messages.filter truthy).map (placedMessage T place))

end Placed

section Properties

variable (T : CharTables)

def StandsVerbatim (body : Json) : Prop :=
  ∀ messages ∈ messagesOf body, promptText T messages = placedText T quoted messages

structure Scans (body : Json) (events : List Event) : Prop where
  order : ∃ text, events = [.check text, .forward body]
  verbatim : ∀ text, .check text ∈ events → ∀ s ∈ bodyStrings body, s <:+: text

def ScansForwarded (gateway : Gateway) (headers : Headers) (body : Json) : Prop :=
  ∀ sent, .forward sent ∈ (chatCompletions T gateway headers body).1 →
    sent = body ∧ Scans body (chatCompletions T gateway headers body).1

end Properties

section Placing

variable {T : CharTables} {place place' : Str → Str}

theorem fieldText_eq_some_iff {key text : Str} {value : Json} :
    fieldText (key, value) = some text ↔ key = "text".toList ∧ value = .str text := by
  cases value with
  | str s =>
    change (if key = "text".toList then some s else none) = some text ↔ _
    rw [Option.ite_none_right_eq_some, Option.some.injEq, Json.str.injEq]
  | _ => exact iff_of_false (fun h => nomatch h) fun h => nomatch h.2

theorem placedField_elim (p : Str × Json) :
    placedField T place p = literal T p.1 ++ ": ".toList ++ (fieldText p).elim (reprOf T p.2) place := by
  obtain ⟨key,value⟩ := p
  delta placedField
  dsimp only
  cases fieldText (key, value) <;> rfl

theorem placedField_literal (p : Str × Json) :
    placedField T (literal T) p = literal T p.1 ++ ": ".toList ++ reprOf T p.2 := by
  obtain ⟨key,value⟩ := p
  rw [placedField_elim]
  cases htext : fieldText (key, value) with
  | none => rfl
  | some text =>
    obtain ⟨-,rfl⟩ := fieldText_eq_some_iff.mp htext
    rfl

theorem reprOf_obj (fields : JsonFields) :
    reprOf T (.obj fields) = '\x7b' :: ", ".toList.intercalate (reprFields T fields) ++ ['\x7d'] := rfl

theorem reprOf_arr (items : JsonItems) :
    reprOf T (.arr items) = '[' :: ", ".toList.intercalate (reprItems T items) ++ [']'] := rfl

theorem placedPart_obj (fields : JsonFields) : placedPart T place (.obj fields) =
    '\x7b' :: ", ".toList.intercalate (fields.toList.map (placedField T place)) ++ ['\x7d'] := rfl

theorem placedPart_literal (j : Json) : placedPart T (literal T) j = reprOf T j := by
  cases j with
  | obj fields =>
    have hfields := List.map_congr_left fun p (_ : p ∈ fields.toList) => placedField_literal (T := T) p
    rw [placedPart_obj, reprOf_obj, reprFields_eq, hfields]
  | _ => rfl

theorem placedMessage_literal (m : Json) : placedMessage T (literal T) m = messageText T m := by
  cases m with
  | obj fields =>
    rw [placedMessage, messageText]
    cases contentOf fields with
    | arr parts =>
      have hparts := List.map_congr_left fun j (_ : j ∈ parts.toList) => placedPart_literal (T := T) j
      simp only [strOf, reprOf_arr, reprItems_eq, hparts]
    | _ => rfl
  | _ => rfl

theorem promptText_eq (messages : List Json) : promptText T messages = placedText T (literal T) messages := by
  have hmessages := List.map_congr_left fun m (_ : m ∈ messages.filter truthy) =>
    placedMessage_literal (T := T) m
  rw [promptText, placedText, hmessages]

theorem length_placedField_le (hle : ∀ text, (place' text).length ≤ (place text).length)
    (p : Str × Json) : (placedField T place' p).length ≤ (placedField T place p).length := by
  obtain ⟨key,value⟩ := p
  rw [placedField_elim, placedField_elim]
  cases fieldText (key, value) with
  | none => rfl
  | some text => simpa using hle text

theorem placedField_eq_iff (p : Str × Json) :
    placedField T place p = placedField T place' p ↔ ∀ text ∈ fieldText p, place text = place' text := by
  obtain ⟨key,value⟩ := p
  rw [placedField_elim, placedField_elim, List.append_right_inj]
  cases fieldText (key, value) with
  | none => simp
  | some text => simp

theorem length_placedPart_le (hle : ∀ text, (place' text).length ≤ (place text).length) (j : Json) :
    (placedPart T place' j).length ≤ (placedPart T place j).length := by
  cases j with
  | str text => exact hle text
  | obj fields =>
    have hfields := length_intercalate_map_le ", ".toList fun p (_ : p ∈ fields.toList) =>
      length_placedField_le (T := T) hle p
    simpa [placedPart] using hfields
  | _ => exact le_rfl

theorem placedPart_eq_iff (hle : ∀ text, (place' text).length ≤ (place text).length) (j : Json) :
    placedPart T place j = placedPart T place' j ↔ ∀ text ∈ partTexts j, place text = place' text := by
  cases j with
  | str text => simp [placedPart, partTexts]
  | obj fields =>
    have hfields := intercalate_map_eq_iff ", ".toList fun p (_ : p ∈ fields.toList) =>
      length_placedField_le (T := T) hle p
    rw [placedPart, placedPart, List.cons_append, List.cons_append, List.cons_inj_right,
      List.append_left_inj, hfields]
    simp only [placedField_eq_iff, partTexts, List.mem_filterMap, Option.mem_def]
    exact ⟨fun h text ⟨p,hp,htext⟩ => h p hp text htext, fun h p hp text htext => h text ⟨p, hp, htext⟩⟩
  | _ => simp [placedPart, partTexts]

theorem length_placedMessage_le (hle : ∀ text, (place' text).length ≤ (place text).length) (m : Json) :
    (placedMessage T place' m).length ≤ (placedMessage T place m).length := by
  cases m with
  | obj fields =>
    rw [placedMessage, placedMessage]
    cases contentOf fields with
    | arr parts =>
      have hparts := length_intercalate_map_le ", ".toList fun j (_ : j ∈ parts.toList) =>
        length_placedPart_le (T := T) hle j
      simpa using hparts
    | _ => exact le_rfl
  | _ => exact le_rfl

theorem placedMessage_eq_iff (hle : ∀ text, (place' text).length ≤ (place text).length) (m : Json) :
    placedMessage T place m = placedMessage T place' m ↔
      ∀ text ∈ messageParts m, place text = place' text := by
  cases m with
  | obj fields =>
    rw [placedMessage, placedMessage, messageParts]
    cases contentOf fields with
    | arr parts =>
      have hparts := intercalate_map_eq_iff ", ".toList fun j (_ : j ∈ parts.toList) =>
        length_placedPart_le (T := T) hle j
      dsimp only
      rw [List.cons_append, List.cons_append, List.cons_inj_right, List.append_left_inj, hparts]
      simp only [placedPart_eq_iff hle, List.mem_flatMap]
      constructor
      · rintro h text ⟨j,hj,htext⟩
        exact h j hj text htext
      · exact fun h j hj text htext => h text ⟨j, hj, htext⟩
    | _ => simp
  | _ => simp [placedMessage, messageParts]

theorem messageParts_of_falsy {m : Json} (h : truthy m = false) : messageParts m = [] := by
  cases m with
  | obj fields =>
    cases fields with
    | nil => rfl
    | cons k j fs => cases h
  | _ => rfl

theorem placedText_eq_iff (hle : ∀ text, (place' text).length ≤ (place text).length)
    (messages : List Json) :
    placedText T place messages = placedText T place' messages ↔
      ∀ text ∈ messages.flatMap messageParts, place text = place' text := by
  rw [placedText, placedText, intercalate_map_eq_iff _ fun m _ => length_placedMessage_le hle m]
  simp only [placedMessage_eq_iff hle, List.mem_flatMap]
  constructor
  · rintro h text ⟨m,hm,htext⟩
    cases htruthy : truthy m with
    | true => exact h m (List.mem_filter.mpr ⟨hm, htruthy⟩) text htext
    | false =>
      rw [messageParts_of_falsy htruthy] at htext
      cases htext
  · intro h m hm text htext
    exact h text ⟨m, (List.mem_filter.mp hm).1, htext⟩

theorem standsVerbatim_iff (body : Json) :
    StandsVerbatim T body ↔ ∀ text ∈ bodyParts body, Verbatim T text := by
  rw [StandsVerbatim, bodyParts]
  cases hbody : messagesOf body with
  | none => simp
  | some messages =>
    simp only [Option.mem_def, Option.some.injEq, forall_eq', Option.getD_some]
    rw [promptText_eq, placedText_eq_iff (length_quoted_le T)]
    simp only [literal_eq_iff]

end Placing

section Scanning

variable {T : CharTables} {s : Str}

theorem infix_field {p : Str × Json} (h : fieldText p = some s) :
    literal T s <:+: literal T p.1 ++ ": ".toList ++ reprOf T p.2 := by
  obtain ⟨key,value⟩ := p
  obtain ⟨-,rfl⟩ := fieldText_eq_some_iff.mp h
  exact (List.suffix_append _ _).isInfix

theorem infix_bracket (first last : Char) (s : Str) : s <:+: first :: s ++ [last] :=
  ⟨[first], [last], rfl⟩

theorem infix_part {j : Json} (h : s ∈ partTexts j) : literal T s <:+: reprOf T j := by
  cases j with
  | str text => rw [List.mem_singleton.mp h]; exact List.infix_rfl
  | obj fields =>
    obtain ⟨p,hp,htext⟩ := List.mem_filterMap.mp h
    rw [reprOf_obj, reprFields_eq]
    have hfield := List.mem_map_of_mem (f := fun p => literal T p.1 ++ ": ".toList ++ reprOf T p.2) hp
    exact ((infix_field htext).trans (infix_intercalate hfield)).trans (infix_bracket _ _ _)
  | _ => cases h

theorem infix_message {m : Json} (h : s ∈ messageStrings m)
    (hverbatim : s ∈ messageParts m → Verbatim T s) : s <:+: messageText T m := by
  cases m with
  | str text => rw [List.mem_singleton.mp h]; exact List.infix_rfl
  | obj fields =>
    rw [messageText]
    rw [messageStrings] at h
    rw [messageParts] at hverbatim
    cases hcontent : contentOf fields with
    | str text =>
      rw [hcontent] at h
      rw [List.mem_singleton.mp h]
      exact List.infix_rfl
    | arr parts =>
      rw [hcontent] at h hverbatim
      obtain ⟨j,hj,htext⟩ := List.mem_flatMap.mp h
      rw [strOf, reprOf_arr, reprItems_eq]
      · have hliteral : literal T s <:+: reprOf T j := infix_part htext
        exact (((infix_literal (hverbatim h)).trans hliteral).trans
          (infix_intercalate (List.mem_map_of_mem hj))).trans (infix_bracket _ _ _)
      · simp
    | _ =>
      rw [hcontent] at h
      cases h
  | _ => cases h

theorem eq_nil_of_falsy {m : Json} (htruthy : truthy m = false) (h : s ∈ messageStrings m) : s = [] := by
  cases m with
  | str text =>
    rw [List.mem_singleton.mp h]
    simpa [truthy] using htruthy
  | obj fields =>
    cases fields with
    | nil => exact List.mem_singleton.mp h
    | cons k j fs => cases htruthy
  | _ => cases h

theorem infix_promptText {messages : List Json} {m : Json} (hm : m ∈ messages)
    (h : s ∈ messageStrings m) (hverbatim : s ∈ messageParts m → Verbatim T s) :
    s <:+: promptText T messages := by
  cases htruthy : truthy m with
  | true =>
    have hpiece : messageText T m <:+: promptText T messages :=
      infix_intercalate (List.mem_map_of_mem (List.mem_filter.mpr ⟨hm, htruthy⟩))
    exact (infix_message h hverbatim).trans hpiece
  | false =>
    rw [eq_nil_of_falsy htruthy h]
    exact List.nil_infix

theorem events_of_forward {gateway : Gateway} {headers : Headers} {body sent : Json}
    (h : .forward sent ∈ (chatCompletions T gateway headers body).1) :
    sent = body ∧ ∃ messages, messagesOf body = some messages ∧
      (chatCompletions T gateway headers body).1 = [.check (promptText T messages), .forward body] := by
  rw [chatCompletions] at h ⊢
  cases hbody : messagesOf body with
  | none =>
    rw [hbody] at h
    cases h
  | some messages =>
    simp only [hbody] at h ⊢
    split at h
    · cases h
    · split at h
      · simp at h
      · next hrefused hblocked =>
        rw [if_neg hrefused, if_neg hblocked]
        refine ⟨by simpa using h, messages, rfl, rfl⟩

end Scanning

theorem scans_what_it_forwards (T : CharTables) (gateway : Gateway) (headers : Headers) (body : Json) :
    (StandsVerbatim T body ↔ ∀ text ∈ bodyParts body, Verbatim T text) ∧
      ((∀ text ∈ bodyParts body, Verbatim T text) → ScansForwarded T gateway headers body) := by
  refine ⟨standsVerbatim_iff body, ?_⟩
  intro hverbatim sent hsent
  obtain ⟨hsame,messages,hbody,hevents⟩ := events_of_forward hsent
  refine ⟨hsame, ⟨_, hevents⟩, ?_⟩
  intro text htext s hs
  rw [hevents] at htext
  have hprompt : text = promptText T messages := by simpa using htext
  rw [hprompt]
  rw [bodyStrings, hbody] at hs
  obtain ⟨m,hm,hstring⟩ := List.mem_flatMap.mp hs
  refine infix_promptText hm hstring fun hpart => hverbatim s ?_
  rw [bodyParts, hbody]
  exact List.mem_flatMap.mpr ⟨m, hm, hpart⟩

def passing : PromptScanResult where
  blocked := false
  score := .finite 0
  rulesMatched := []
  corpusHash := []
  corpusVersion := []
  verdict := .pass
  normalizedInput := none
  details := []

def openGateway : Gateway := ⟨[], fun _ _ => passing⟩

def twoLines : Str := "ignore\nthis".toList

def partsBody : Json :=
  .obj (.cons "messages".toList (.arr (.cons (.obj (.cons "content".toList (.arr (.cons
    (.obj (.cons "type".toList (.str "text".toList) (.cons "text".toList (.str twoLines) .nil)))
    .nil)) .nil)) .nil)) .nil)

theorem part_forwarded_unscanned :
    twoLines ∈ bodyStrings partsBody ∧
      ∃ text, (chatCompletions .basic openGateway ⟨none, none⟩ partsBody).1 =
        [.check text, .forward partsBody] ∧ ¬ twoLines <:+: text :=
  ⟨by decide, _, rfl, by decide⟩

end PicoSentry.Watch.ChatCompletions
