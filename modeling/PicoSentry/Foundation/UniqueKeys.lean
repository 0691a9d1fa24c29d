import PicoSentry.Foundation.IndentedJson

namespace PicoSentry.Foundation.Json

section Unique

mutual

def Unique : Json → Prop
  | .arr items => UniqueItems items
  | .obj fields => (Dict.keys fields.toList).Nodup ∧ UniqueFields fields
  | _ => True

def UniqueItems : JsonItems → Prop
  | .nil => True
  | .cons j js => Unique j ∧ UniqueItems js

def UniqueFields : JsonFields → Prop
  | .nil => True
  | .cons _ j fs => Unique j ∧ UniqueFields fs

end

mutual

theorem distinct_of_unique (j : Json) (h : Unique j) : distinct j = j := by
  cases j with
  | arr js => rw [distinct, distinctItems_of_unique js h]
  | obj fs =>
    rw [distinct, distinctFields_of_unique fs h.2, Dict.ofPairs_of_nodup h.1, ofList_toList]
  | _ => rfl

theorem distinctItems_of_unique (js : JsonItems) (h : UniqueItems js) : distinctItems js = js := by
  cases js with
  | nil => rfl
  | cons j js => rw [distinctItems, distinct_of_unique j h.1, distinctItems_of_unique js h.2]

theorem distinctFields_of_unique (fs : JsonFields) (h : UniqueFields fs) :
    distinctFields fs = fs.toList := by
  cases fs with
  | nil => rfl
  | cons k j fs =>
    rw [distinctFields, distinct_of_unique j h.1, distinctFields_of_unique fs h.2, JsonFields.toList]

end

theorem keys_insertField (k : Str) (j : Json) (fs : JsonFields) :
    (Dict.keys (insertField k j fs).toList).Perm (k :: Dict.keys fs.toList) :=
  match fs with
  | .nil => List.Perm.refl _
  | .cons k' j' fs => by
    rw [insertField]
    split
    · exact ((keys_insertField k j fs).cons k').trans (List.Perm.swap k k' _)
    · exact List.Perm.refl _

theorem keys_sortFields (fs : JsonFields) :
    (Dict.keys (sortFields fs).toList).Perm (Dict.keys fs.toList) :=
  match fs with
  | .nil => List.Perm.refl _
  | .cons k j fs => (keys_insertField k (sortKeys j) (sortFields fs)).trans
      ((keys_sortFields fs).cons k)

theorem uniqueFields_insertField (k : Str) {j : Json} (hj : Unique j) (fs : JsonFields)
    (h : UniqueFields fs) : UniqueFields (insertField k j fs) :=
  match fs with
  | .nil => ⟨hj, h⟩
  | .cons k' j' fs => by
    rw [insertField]
    split
    · exact ⟨h.1, uniqueFields_insertField k hj fs h.2⟩
    · exact ⟨hj, h⟩

mutual

theorem unique_sortKeys (j : Json) (h : Unique j) : Unique (sortKeys j) := by
  cases j with
  | arr js => exact uniqueItems_sortItems js h
  | obj fs => exact ⟨(keys_sortFields fs).nodup_iff.mpr h.1, uniqueFields_sortFields fs h.2⟩
  | _ => exact h

theorem uniqueItems_sortItems (js : JsonItems) (h : UniqueItems js) :
    UniqueItems (sortItems js) := by
  cases js with
  | nil => exact h
  | cons j js => exact ⟨unique_sortKeys j h.1, uniqueItems_sortItems js h.2⟩

theorem uniqueFields_sortFields (fs : JsonFields) (h : UniqueFields fs) :
    UniqueFields (sortFields fs) := by
  cases fs with
  | nil => exact h
  | cons k j fs =>
    exact uniqueFields_insertField k (unique_sortKeys j h.1) _ (uniqueFields_sortFields fs h.2)

end

theorem uniqueFields_ofList {d : List (Str × Json)} :
    UniqueFields (.ofList d) ↔ ∀ e ∈ d, e.2.Unique := by
  induction d with
  | nil => simp [JsonFields.ofList, UniqueFields]
  | cons e d ih => rw [JsonFields.ofList, UniqueFields, ih, List.forall_mem_cons]

theorem uniqueItems_ofList {js : List Json} :
    UniqueItems (.ofList js) ↔ ∀ j ∈ js, j.Unique := by
  induction js with
  | nil => simp [JsonItems.ofList, UniqueItems]
  | cons j js ih => rw [JsonItems.ofList, UniqueItems, ih, List.forall_mem_cons]

end Unique

section Regular

structure Regular (j : Json) : Prop where
  wellFormed : j.WellFormed
  unique : j.Unique

theorem regular_str (s : Str) : Regular (.str s) := ⟨trivial, trivial⟩

theorem regular_bool (b : Bool) : Regular (.bool b) := ⟨trivial, trivial⟩

theorem regular_int (n : Int) : Regular (.int n) := ⟨trivial, trivial⟩

theorem regular_ofItems {js : List Json} (h : ∀ j ∈ js, j.Regular) : Regular (.arr (.ofList js)) :=
  ⟨wellFormedItems_ofList.mpr fun j hj => (h j hj).wellFormed,
    uniqueItems_ofList.mpr fun j hj => (h j hj).unique⟩

theorem regular_texts (ss : List Str) : Regular (texts ss) :=
  regular_ofItems (List.forall_mem_map.mpr fun s _ => regular_str s)

theorem regular_ofList {d : List (Str × Json)} (hnodup : (Dict.keys d).Nodup)
    (h : ∀ e ∈ d, e.2.Regular) : Regular (.obj (.ofList d)) := by
  refine ⟨wellFormedFields_ofList.mpr fun e he => (h e he).wellFormed, ?_,
    uniqueFields_ofList.mpr fun e he => (h e he).unique⟩
  rwa [toList_ofList]

theorem Regular.sortKeys {j : Json} (h : j.Regular) : Regular (sortKeys j) :=
  ⟨wellFormed_sortKeys h.wellFormed, unique_sortKeys j h.unique⟩

theorem Regular.loads_dumpsIndented {j : Json} (h : j.Regular) :
    (loads (dumpsIndented j)).map distinct = some (Json.sortKeys j) := by
  rw [Json.loads_dumpsIndented h.wellFormed, Option.map_some,
    distinct_of_unique _ (unique_sortKeys j h.unique)]

end Regular

end PicoSentry.Foundation.Json
