import PicoSentry.Foundation.IndentedJson

namespace PicoSentry.Foundation.Json

section Read

-- A field that is missing, or of another type than the class declares, gives no value.
def text? : Json → Option Str
  | .str s => some s
  | _ => none

def int? : Json → Option Int
  | .int n => some n
  | _ => none

def bool? : Json → Option Bool
  | .bool b => some b
  | _ => none

def list? : Json → Option (List Json)
  | .arr items => some items.toList
  | _ => none

def dict? : Json → Option (Dict Str Json)
  | .obj fields => some fields.toList
  | _ => none

def texts? (j : Json) : Option (List Str) := do (← list? j).mapM text?

def required {α : Type} (read : Json → Option α) (d : Dict Str Json) (key : String) : Option α :=
  (Dict.get? d key.toList).bind read

def optional {α : Type} (read : Json → Option α) (default : α) (d : Dict Str Json) (key : String) :
    Option α :=
  match Dict.get? d key.toList with
  | none => some default
  | some j => read j

-- A call with the entries of a dict as keyword arguments fails on a name the class has not.
def keywords (names : List Str) (d : Dict Str Json) : Option Unit :=
  if ∀ k ∈ Dict.keys d, k ∈ names then some () else none

end Read

section Filled

def Filled (entries : List (Str × Option Json)) : Prop :=
  ∀ e ∈ entries, ∀ j, e.2 = some j → j.WellFormed

theorem filled_nil : Filled [] := by simp [Filled]

theorem filled_cons {k : Str} {v : Option Json} {entries : List (Str × Option Json)}
    (hv : ∀ j, v = some j → j.WellFormed) (h : Filled entries) : Filled ((k, v) :: entries) :=
  List.forall_mem_cons.mpr ⟨hv, h⟩

theorem filled_some {k : Str} {j : Json} {entries : List (Str × Option Json)}
    (hj : j.WellFormed) (h : Filled entries) : Filled ((k, some j) :: entries) := by
  refine filled_cons ?_ h
  intro j' hj'
  cases hj'
  exact hj

theorem filled_unless {k : Str} {c : Prop} [Decidable c] {j : Json}
    {entries : List (Str × Option Json)} (hj : j.WellFormed) (h : Filled entries) :
    Filled ((k, if c then none else some j) :: entries) := by
  refine filled_cons ?_ h
  intro j' hj'
  split at hj'
  · cases hj'
  · cases hj'
    exact hj

theorem Filled.present {entries : List (Str × Option Json)} (h : Filled entries) :
    ∀ p ∈ Dict.present entries, p.2.WellFormed :=
  fun p hp => h _ (Dict.mem_present.mp hp) p.2 rfl

theorem wellFormed_ofList {d : Dict Str Json} (h : ∀ e ∈ d, e.2.WellFormed) :
    Json.WellFormed (.obj (.ofList d)) := wellFormedFields_ofList.mpr h

theorem wellFormed_list {α : Type} {f : α → Json} (h : ∀ a, (f a).WellFormed) (xs : List α) :
    Json.WellFormed (.arr (.ofList (xs.map f))) := by
  rw [Json.WellFormed, wellFormedItems_ofList, List.forall_mem_map]
  exact fun a _ => h a

end Filled

section Present

theorem bind_of_eq_some {α β : Type} {x : Option α} {a : α} (h : x = some a) (f : α → Option β) :
    (x >>= f) = f a := by
  rw [h]
  rfl

theorem required_present {α : Type} {read : Json → Option α} {entries : List (Str × Option Json)}
    (h : (Dict.keys entries).Nodup) {key : String} {j : Json}
    (hj : Dict.get? entries key.toList = some (some j)) :
    required read (Dict.present entries) key = read j := by
  rw [required, Dict.get?_present h, hj]
  rfl

theorem optional_present {α : Type} {read : Json → Option α} {default : α}
    {entries : List (Str × Option Json)} (h : (Dict.keys entries).Nodup) {key : String}
    {v : Option Json} (hv : Dict.get? entries key.toList = some v) :
    optional read default (Dict.present entries) key = v.elim (some default) read := by
  rw [optional, Dict.get?_present h, hv]
  cases v <;> rfl

theorem optional_some {α : Type} {read : Json → Option α} {default x : α}
    {entries : List (Str × Option Json)} (h : (Dict.keys entries).Nodup) {key : String} {j : Json}
    (hj : Dict.get? entries key.toList = some (some j)) (hread : read j = some x) :
    optional read default (Dict.present entries) key = some x := by
  rw [optional_present h hj, Option.elim_some, hread]

theorem optional_unless {α : Type} {read : Json → Option α} {default x : α}
    {entries : List (Str × Option Json)} (h : (Dict.keys entries).Nodup) {key : String} {c : Prop}
    [Decidable c] {j : Json} (hc : c → x = default)
    (hv : Dict.get? entries key.toList = some (if c then none else some j))
    (hread : read j = some x) : optional read default (Dict.present entries) key = some x := by
  rw [optional_present h hv]
  split
  · next hpos => rw [Option.elim_none, hc hpos]
  · rw [Option.elim_some, hread]

theorem keywords_present {entries : List (Str × Option Json)} :
    keywords (Dict.keys entries) (Dict.present entries) = some () :=
  if_pos fun _ hk => (Dict.keys_present_sublist entries).subset hk

theorem texts?_texts (ss : List Str) : texts? (texts ss) = some ss := by
  have hmap : (ss.map Json.str).mapM text? = some ss := by
    induction ss with
    | nil => rfl
    | cons s ss ih =>
      rw [List.map_cons, List.mapM_cons, ih]
      rfl
  rw [texts, texts?, list?, toList_ofItems]
  exact hmap

theorem optional_congr {α : Type} {read : Json → Option α} {default : α} {d d' : Dict Str Json}
    {key : String} (h : Dict.get? d key.toList = Dict.get? d' key.toList) :
    optional read default d key = optional read default d' key := by
  rw [optional, h, optional]

theorem ofList_inj {fs fs' : List (Str × Json)} (h : JsonFields.ofList fs = .ofList fs') :
    fs = fs' := by rw [← toList_ofList fs, h, toList_ofList]

end Present

end PicoSentry.Foundation.Json
