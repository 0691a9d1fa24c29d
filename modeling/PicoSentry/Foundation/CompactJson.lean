import PicoSentry.Foundation.Json

namespace PicoSentry.Foundation.Json

section Escape

theorem quoted_inj {s t r r' : Str}
    (h : s.flatMap escapeChar ++ '"' :: r = t.flatMap escapeChar ++ '"' :: r') :
    s = t ∧ r = r' := by
  induction s generalizing t with
  | nil =>
    cases t with
    | nil => exact ⟨rfl, (List.cons.inj h).2⟩
    | cons d t =>
      rw [List.flatMap_cons, List.append_assoc] at h
      exact absurd h.symm (escapeChar_ne_quote d _ r)
  | cons c s ih =>
    cases t with
    | nil =>
      rw [List.flatMap_cons, List.append_assoc] at h
      exact absurd h (escapeChar_ne_quote c _ r')
    | cons d t =>
      rw [List.flatMap_cons, List.flatMap_cons, List.append_assoc, List.append_assoc] at h
      have hscan := congrArg scanChar h
      rw [scanChar_escapeChar, scanChar_escapeChar, Option.some.injEq, Prod.mk.injEq] at hscan
      obtain ⟨rfl,hrest⟩ := hscan
      obtain ⟨rfl,hr⟩ := ih hrest
      exact ⟨rfl, hr⟩

theorem quote_inj {s t r r' : Str} (h : quote s ++ r = quote t ++ r') : s = t ∧ r = r' := by
  refine quoted_inj ?_
  simpa [quote] using h

end Escape

section Compact

mutual

-- json.dumps with separators=(",", ":")
def renderCompact : Json → Str
  | .arr .nil => "[]".toList
  | .arr (.cons j js) => '[' :: renderCompact j ++ compactItems js
  | .obj .nil => "\x7b\x7d".toList
  | .obj (.cons k j fs) => '\x7b' :: quote k ++ ':' :: renderCompact j ++ compactFields fs
  | .null => "null".toList
  | .bool true => "true".toList
  | .bool false => "false".toList
  | .int n => intText n
  | .float text => text
  | .str s => quote s

def compactItems : JsonItems → Str
  | .nil => [']']
  | .cons j js => ',' :: renderCompact j ++ compactItems js

def compactFields : JsonFields → Str
  | .nil => ['\x7d']
  | .cons k j fs => ',' :: quote k ++ ':' :: renderCompact j ++ compactFields fs

end

def compact : Layout where
  opening := fun _ => []
  between := fun _ => []
  colon := []
  closing := fun _ => []
  blank_opening := fun _ => blank_nil
  blank_between := fun _ => blank_nil
  blank_colon := blank_nil
  blank_closing := fun _ => blank_nil

mutual

theorem laid_compact (level : Nat) (j : Json) : laid compact level j = renderCompact j := by
  cases j with
  | arr items => cases items with
    | nil => rfl
    | cons j js =>
      rw [laid, laid_compact (level + 1) j, laidItems_compact level js]
      rfl
  | obj fields => cases fields with
    | nil => rfl
    | cons k j fs =>
      rw [laid, laid_compact (level + 1) j, laidFields_compact level fs]
      simp [renderCompact, compact]
  | bool b => cases b <;> rfl
  | _ => rfl

theorem laidItems_compact (level : Nat) (js : JsonItems) :
    laidItems compact level js = compactItems js := by
  cases js with
  | nil => rfl
  | cons j js =>
    rw [laidItems, laid_compact (level + 1) j, laidItems_compact level js]
    rfl

theorem laidFields_compact (level : Nat) (fs : JsonFields) :
    laidFields compact level fs = compactFields fs := by
  cases fs with
  | nil => rfl
  | cons k j fs =>
    rw [laidFields, laid_compact (level + 1) j, laidFields_compact level fs]
    simp [compactFields, compact]

end

theorem loads_renderCompact {j : Json} (h : WellFormed j) : loads (renderCompact j) = some j := by
  rw [← laid_compact 0]
  exact loads_laid h

def dumpsCompact (j : Json) : Str := renderCompact (sortKeys j)

theorem loads_dumpsCompact {j : Json} (h : WellFormed j) :
    loads (dumpsCompact j) = some (sortKeys j) :=
  loads_renderCompact (wellFormed_sortKeys h)

theorem dumpsCompact_inj {j j' : Json} (hj : WellFormed j) (hj' : WellFormed j')
    (h : dumpsCompact j = dumpsCompact j') : sortKeys j = sortKeys j' := by
  have hloads := loads_dumpsCompact hj
  rw [h, loads_dumpsCompact hj'] at hloads
  exact (Option.some.inj hloads).symm

def texts (ss : List Str) : Json := .arr (.ofList (ss.map .str))

theorem wellFormed_texts (ss : List Str) : WellFormed (texts ss) := by
  rw [texts, WellFormed, wellFormedItems_ofList, List.forall_mem_map]
  exact fun _ _ => trivial

theorem sortItems_ofList (js : List Json) :
    sortItems (.ofList js) = .ofList (js.map sortKeys) := by
  induction js with
  | nil => rfl
  | cons j js ih => rw [JsonItems.ofList, sortItems, ih, List.map_cons, JsonItems.ofList]

theorem items_ofList_inj {js js' : List Json} (h : JsonItems.ofList js = .ofList js') : js = js' := by
  induction js generalizing js' with
  | nil =>
    cases js' with
    | nil => rfl
    | cons j' js' => cases h
  | cons j js ih =>
    cases js' with
    | nil => cases h
    | cons j' js' =>
      rw [JsonItems.ofList, JsonItems.ofList, JsonItems.cons.injEq] at h
      rw [h.1, ih h.2]

theorem sortKeys_texts (ss : List Str) : sortKeys (texts ss) = texts ss := by
  have hstr : (ss.map Json.str).map sortKeys = ss.map .str := by
    rw [List.map_map]
    rfl
  rw [texts, sortKeys, sortItems_ofList, hstr]

theorem texts_inj {ss ss' : List Str} (h : texts ss = texts ss') : ss = ss' := by
  have hitems := items_ofList_inj (Json.arr.inj h)
  exact List.map_injective_iff.mpr (fun _ _ => Json.str.inj) hitems

theorem get?_of_sortKeys_eq {fs fs' : List (Str × Json)}
    (h : sortKeys (.obj (.ofList fs)) = sortKeys (.obj (.ofList fs'))) (k : Str) :
    (Dict.get? fs k).map sortKeys = (Dict.get? fs' k).map sortKeys := by
  have hget := congrArg (fun fields => Dict.get? (JsonFields.toList fields) k) (Json.obj.inj h)
  simpa [get?_sortFields, toList_ofList] using hget

end Compact

end PicoSentry.Foundation.Json
