import PicoSentry.Foundation.UniqueKeys

namespace PicoSentry.Foundation.Json

section Refloat

variable (repr : Str → Str)

mutual

-- A parsed float prints as float.__repr__ has it, whatever literal stood in the text.
def refloat : Json → Json
  | .float text => .float (repr text)
  | .arr items => .arr (refloatItems items)
  | .obj fields => .obj (refloatFields fields)
  | j => j

def refloatItems : JsonItems → JsonItems
  | .nil => .nil
  | .cons j js => .cons (refloat j) (refloatItems js)

def refloatFields : JsonFields → JsonFields
  | .nil => .nil
  | .cons k j fs => .cons k (refloat j) (refloatFields fs)

end

def parse (s : Str) : Option Json := (loads s).map fun j => distinct (refloat repr j)

variable {repr}

mutual

theorem wellFormed_refloat (hrepr : ∀ text, FloatText (repr text)) (j : Json) :
    WellFormed (refloat repr j) := by
  cases j with
  | float text => exact hrepr text
  | arr js => exact wellFormedItems_refloat hrepr js
  | obj fs => exact wellFormedFields_refloat hrepr fs
  | _ => exact trivial

theorem wellFormedItems_refloat (hrepr : ∀ text, FloatText (repr text)) (js : JsonItems) :
    WellFormedItems (refloatItems repr js) := by
  cases js with
  | nil => exact trivial
  | cons j js => exact ⟨wellFormed_refloat hrepr j, wellFormedItems_refloat hrepr js⟩

theorem wellFormedFields_refloat (hrepr : ∀ text, FloatText (repr text)) (fs : JsonFields) :
    WellFormedFields (refloatFields repr fs) := by
  cases fs with
  | nil => exact trivial
  | cons k j fs => exact ⟨wellFormed_refloat hrepr j, wellFormedFields_refloat hrepr fs⟩

end

mutual

theorem wellFormed_distinct (j : Json) (h : WellFormed j) : WellFormed (distinct j) := by
  cases j with
  | arr js => exact wellFormedItems_distinct js h
  | obj fs =>
    exact wellFormedFields_ofList.mpr fun e he =>
      wellFormed_distinctFields fs h e (Dict.mem_ofPairs he)
  | _ => exact h

theorem wellFormedItems_distinct (js : JsonItems) (h : WellFormedItems js) :
    WellFormedItems (distinctItems js) := by
  cases js with
  | nil => exact h
  | cons j js => exact ⟨wellFormed_distinct j h.1, wellFormedItems_distinct js h.2⟩

theorem wellFormed_distinctFields (fs : JsonFields) (h : WellFormedFields fs) :
    ∀ e ∈ distinctFields fs, e.2.WellFormed := by
  cases fs with
  | nil => exact fun _ he => absurd he List.not_mem_nil
  | cons k j fs =>
    exact List.forall_mem_cons.mpr ⟨wellFormed_distinct j h.1, wellFormed_distinctFields fs h.2⟩

end

theorem wellFormed_parse (hrepr : ∀ text, FloatText (repr text)) {s : Str} {j : Json}
    (h : parse repr s = some j) : j.WellFormed := by
  obtain ⟨j',-,rfl⟩ := Option.map_eq_some_iff.mp h
  exact wellFormed_distinct _ (wellFormed_refloat hrepr j')

theorem refloatFields_insertField (k : Str) (j : Json) (fs : JsonFields) :
    refloatFields repr (insertField k j fs) = insertField k (refloat repr j) (refloatFields repr fs) :=
  match fs with
  | .nil => rfl
  | .cons k' j' fs => by
    rw [refloatFields, insertField, insertField]
    split
    · rw [refloatFields, refloatFields_insertField k j fs]
    · rfl

mutual

theorem refloat_sortKeys (j : Json) : refloat repr (sortKeys j) = sortKeys (refloat repr j) := by
  cases j with
  | arr js => rw [sortKeys, refloat, refloat, sortKeys, refloatItems_sortItems js]
  | obj fs => rw [sortKeys, refloat, refloat, sortKeys, refloatFields_sortFields fs]
  | _ => rfl

theorem refloatItems_sortItems (js : JsonItems) :
    refloatItems repr (sortItems js) = sortItems (refloatItems repr js) := by
  cases js with
  | nil => rfl
  | cons j js =>
    rw [sortItems, refloatItems, refloatItems, sortItems, refloat_sortKeys j,
      refloatItems_sortItems js]

theorem refloatFields_sortFields (fs : JsonFields) :
    refloatFields repr (sortFields fs) = sortFields (refloatFields repr fs) := by
  cases fs with
  | nil => rfl
  | cons k j fs =>
    rw [sortFields, refloatFields_insertField, refloatFields, sortFields, refloat_sortKeys j,
      refloatFields_sortFields fs]

end

theorem refloatFields_ofList (d : List (Str × Json)) :
    refloatFields repr (.ofList d) = .ofList (d.map fun e => (e.1, refloat repr e.2)) := by
  induction d with
  | nil => rfl
  | cons e d ih => rw [JsonFields.ofList, refloatFields, ih, List.map_cons, JsonFields.ofList]

theorem floatText_half : FloatText "0.5".toList :=
  .inr (.inr (.inr ⟨false, 0, ".5".toList, [], .inr ⟨'5', [], rfl, by simp [isDigit]⟩, .inl rfl,
    by simp, rfl⟩))

-- A value as the running program holds it.
structure Held (repr : Str → Str) (j : Json) : Prop extends Regular j where
  settled : refloat repr j = j

theorem held_str (s : Str) : Held repr (.str s) := ⟨regular_str s, rfl⟩

theorem held_bool (b : Bool) : Held repr (.bool b) := ⟨regular_bool b, rfl⟩

theorem held_int (n : Int) : Held repr (.int n) := ⟨regular_int n, rfl⟩

theorem refloatItems_ofList (js : List Json) :
    refloatItems repr (.ofList js) = .ofList (js.map (refloat repr)) := by
  induction js with
  | nil => rfl
  | cons j js ih => rw [JsonItems.ofList, refloatItems, ih, List.map_cons, JsonItems.ofList]

theorem held_ofItems {js : List Json} (h : ∀ j ∈ js, Held repr j) :
    Held repr (.arr (.ofList js)) := by
  refine ⟨regular_ofItems fun j hj => (h j hj).toRegular, ?_⟩
  rw [refloat, refloatItems_ofList, List.map_congr_left fun j hj => (h j hj).settled, List.map_id']

theorem held_texts (ss : List Str) : Held repr (texts ss) :=
  held_ofItems (List.forall_mem_map.mpr fun s _ => held_str s)

theorem held_ofList {d : List (Str × Json)} (hnodup : (Dict.keys d).Nodup)
    (h : ∀ e ∈ d, Held repr e.2) : Held repr (.obj (.ofList d)) := by
  refine ⟨regular_ofList hnodup fun e he => (h e he).toRegular, ?_⟩
  have hmap : (d.map fun e => (e.1, refloat repr e.2)) = d := by
    refine (List.map_congr_left fun e he => ?_).trans (List.map_id d)
    rw [(h e he).settled, id]
  rw [refloat, refloatFields_ofList, hmap]

theorem Held.parse_dumps {j : Json} (h : Held repr j) : parse repr (dumps j) = some (sortKeys j) := by
  rw [parse, loads_dumps h.wellFormed, Option.map_some, refloat_sortKeys, h.settled,
    distinct_of_unique _ (unique_sortKeys j h.unique)]

theorem Held.parse_dumpsIndented {j : Json} (h : Held repr j) :
    parse repr (dumpsIndented j) = some (sortKeys j) := by
  rw [parse, Json.loads_dumpsIndented h.wellFormed, Option.map_some, refloat_sortKeys, h.settled,
    distinct_of_unique _ (unique_sortKeys j h.unique)]

theorem Held.parse_line {j : Json} (h : Held repr j) :
    parse repr (renderIndented 0 j ++ ['\n']) = some j := by
  rw [parse, loads_renderIndented_line h.wellFormed, Option.map_some, h.settled,
    distinct_of_unique _ h.unique]

theorem intText_inj {n m : Int} (h : intText n = intText m) : n = m := by
  have hn : loads (render (.int n)) = some (.int n) := loads_wellFormed trivial
  have hm : loads (render (.int m)) = some (.int m) := loads_wellFormed trivial
  rw [render, h] at hn
  rw [render, hn] at hm
  exact Json.int.inj (Option.some.inj hm)

theorem dumps_inj {j j' : Json} (hj : WellFormed j) (hj' : WellFormed j') (h : dumps j = dumps j') :
    sortKeys j = sortKeys j' := by
  have hloads := loads_dumps hj
  rw [h, loads_dumps hj'] at hloads
  exact (Option.some.inj hloads).symm

end Refloat

end PicoSentry.Foundation.Json
