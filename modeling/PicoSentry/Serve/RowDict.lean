import PicoSentry.Foundation.Dict
import PicoSentry.Foundation.Result
import PicoSentry.Foundation.Text

namespace PicoSentry.Serve.Database

open Foundation

inductive Backend where
  | sqlite
  | postgres
  deriving DecidableEq, Repr

inductive SqlValue where
  | null
  | int (n : Int)
  | bool (b : Bool)
  | text (s : Str)
  | time (t : Int)
  deriving DecidableEq, Repr

namespace SqlValue

def ofOption {α : Type} (f : α → SqlValue) : Option α → SqlValue
  | none => null
  | some a => f a

def truthy : SqlValue → Bool
  | null => false
  | int n => n != 0
  | bool b => b
  | text s => !s.isEmpty
  | time _ => true

end SqlValue

structure FetchedRow where
  columns : List Str
  values : List SqlValue
  width : columns.length = values.length

def isAscii (s : Str) : Bool := s.all (·.toNat < 128)

def equalIgnoreCase (left right : Str) : Bool :=
  left = right || isAscii left && isAscii right && left.map Char.toLower = right.map Char.toLower

namespace FetchedRow

def pairs (row : FetchedRow) : List (Str × SqlValue) := row.columns.zip row.values

def item? (row : FetchedRow) (name : Str) : Option SqlValue :=
  (row.pairs.find? fun p => equalIgnoreCase p.1 name).map Prod.snd

def subscript (row : FetchedRow) (name : Str) : Except PyError SqlValue :=
  match row.item? name with
  | some v => .ok v
  | none => .error .indexError

def mappingFrom (row : FetchedRow) : List Str → Dict Str SqlValue →
    Except PyError (Dict Str SqlValue)
  | [], d => .ok d
  | k :: ks, d => do
      let v ← row.subscript k
      mappingFrom row ks (d.set k v)

def NamesAgree (row : FetchedRow) : Prop :=
  ∀ name ∈ row.columns, row.item? name = Dict.lastOf row.pairs name

instance (row : FetchedRow) : Decidable row.NamesAgree :=
  inferInstanceAs (Decidable (∀ name ∈ row.columns, _))

end FetchedRow

def rowToDict (backend : Backend) (row : FetchedRow) : Except PyError (Dict Str SqlValue) :=
  match backend with
  | .sqlite => row.mappingFrom row.columns []
  | .postgres => .ok (Dict.ofPairs row.pairs)

section RowFacts

variable (row : FetchedRow)

theorem equalIgnoreCase_self (name : Str) : equalIgnoreCase name name = true := by
  simp [equalIgnoreCase]

theorem map_fst_pairs : row.pairs.map Prod.fst = row.columns :=
  List.map_fst_zip (le_of_eq row.width)

theorem item?_of_mem {name : Str} (h : name ∈ row.columns) : ∃ v, row.item? name = some v := by
  rw [← map_fst_pairs] at h
  obtain ⟨p,hp,rfl⟩ := List.mem_map.mp h
  cases hf : row.pairs.find? fun q => equalIgnoreCase q.1 p.1 with
  | none => exact absurd (equalIgnoreCase_self p.1) (List.find?_eq_none.mp hf p hp)
  | some q => exact ⟨q.2, by simp [FetchedRow.item?, hf]⟩

def itemPairs (ks : List Str) : List (Str × SqlValue) :=
  ks.map fun k => (k, (row.item? k).getD .null)

theorem mappingFrom_eq {ks : List Str} (h : ∀ k ∈ ks, k ∈ row.columns) (d : Dict Str SqlValue) :
    row.mappingFrom ks d = .ok (d.setAll (itemPairs row ks)) := by
  induction ks generalizing d with
  | nil => rfl
  | cons k ks ih =>
    obtain ⟨v,hv⟩ := item?_of_mem row (h k (by simp))
    have hrest := ih (fun k' hk' => h k' (by simp [hk'])) (d.set k v)
    simp only [FetchedRow.mappingFrom, FetchedRow.subscript, hv, bind, Except.bind, hrest]
    simp [itemPairs, hv, Dict.setAll]

theorem rowToDict_sqlite :
    rowToDict .sqlite row = .ok (Dict.ofPairs (itemPairs row row.columns)) :=
  mappingFrom_eq row (fun _ h => h) []

theorem lastOf_itemPairs {ks : List Str} {name : Str} (h : name ∈ ks) :
    Dict.lastOf (itemPairs row ks) name = some ((row.item? name).getD .null) := by
  have hmem : (name, (row.item? name).getD .null) ∈ (itemPairs row ks).reverse := by
    rw [List.mem_reverse]
    exact List.mem_map.mpr ⟨name, h, rfl⟩
  cases hf : (itemPairs row ks).reverse.find? fun p => p.1 = name with
  | none => exact absurd (by simp) (List.find?_eq_none.mp hf _ hmem)
  | some p =>
    have hp : p.1 = name := by simpa using List.find?_some hf
    obtain ⟨k,_,rfl⟩ := List.mem_map.mp (List.mem_reverse.mp (List.mem_of_find?_eq_some hf))
    simp only at hp
    simp [Dict.lastOf, hf, hp]

theorem rowToDict_eq_iff :
    rowToDict .sqlite row = rowToDict .postgres row ↔ row.NamesAgree := by
  have hkeys : (itemPairs row row.columns).map Prod.fst = row.pairs.map Prod.fst := by
    rw [map_fst_pairs]
    simp [itemPairs, Function.comp_def]
  rw [rowToDict_sqlite, rowToDict, Except.ok.injEq, Dict.ofPairs_eq_iff hkeys, hkeys,
    map_fst_pairs]
  apply forall₂_congr
  intro name hname
  obtain ⟨v,hv⟩ := item?_of_mem row hname
  rw [lastOf_itemPairs row hname, hv, Option.getD_some]

end RowFacts

end PicoSentry.Serve.Database
