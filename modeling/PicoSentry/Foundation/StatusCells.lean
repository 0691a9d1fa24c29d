import Mathlib.Data.List.Nodup
import Mathlib.Data.List.Range
import Mathlib.Data.List.Perm.Subperm

namespace PicoSentry.Foundation

variable {α σ : Type} {cell : α → Nat} {items xs ys : List α} {cells : List σ} {st st' : σ} {x y : α}

def Owns (cell : α → Nat) (items : List α) (cells : List σ) : Prop :=
  items.map cell = List.range cells.length

structure Lists (cell : α → Nat) (items : List α) (cells : List σ) (st : σ) (xs : List α) : Prop where
  nodup : xs.Nodup
  mem_iff : ∀ x, x ∈ xs ↔ x ∈ items ∧ cells[cell x]? = some st

theorem owns_nil : Owns cell [] ([] : List σ) := rfl

theorem Owns.append (h : Owns cell items cells) (hx : cell x = cells.length) :
    Owns cell (items ++ [x]) (cells ++ [st]) := by
  rw [Owns, List.map_append, List.map_singleton, h, hx, List.length_append, List.length_singleton,
    List.range_succ]

theorem Owns.set (h : Owns cell items cells) (i : Nat) (st : σ) : Owns cell items (cells.set i st) := by
  rw [Owns, List.length_set]
  exact h

theorem Owns.cell_lt (h : Owns cell items cells) (hx : x ∈ items) : cell x < cells.length := by
  have hmem : cell x ∈ items.map cell := List.mem_map_of_mem hx
  rw [h] at hmem
  exact List.mem_range.mp hmem

theorem Owns.eq_of_cell_eq (h : Owns cell items cells) (hx : x ∈ items) (hy : y ∈ items)
    (heq : cell x = cell y) : x = y := by
  have hnodup : (items.map cell).Nodup := h ▸ List.nodup_range
  exact List.inj_on_of_nodup_map hnodup hx hy heq

theorem Owns.nodup (h : Owns cell items cells) : items.Nodup :=
  List.Nodup.of_map cell (h ▸ List.nodup_range)

theorem getElem?_set_cell (h : Owns cell items cells) (hx : x ∈ items) (hy : y ∈ items) (st : σ)
    (hne : y ≠ x) : (cells.set (cell x) st)[cell y]? = cells[cell y]? :=
  List.getElem?_set_ne fun heq => hne (h.eq_of_cell_eq hy hx heq.symm)

theorem getElem?_set_cell_self (h : Owns cell items cells) (hx : x ∈ items) (st : σ) :
    (cells.set (cell x) st)[cell x]? = some st :=
  List.getElem?_set_self (h.cell_lt hx)

theorem lists_nil : Lists cell [] cells st [] := ⟨List.nodup_nil, by simp⟩

theorem Lists.perm (h : Lists cell items cells st xs) (hperm : xs.Perm ys) :
    Lists cell items cells st ys :=
  ⟨hperm.nodup_iff.mp h.nodup, fun x => hperm.mem_iff.symm.trans (h.mem_iff x)⟩

theorem Lists.mem (h : Lists cell items cells st xs) (hx : x ∈ xs) : x ∈ items := ((h.mem_iff x).mp hx).1

theorem Lists.status (h : Lists cell items cells st xs) (hx : x ∈ xs) : cells[cell x]? = some st :=
  ((h.mem_iff x).mp hx).2

theorem Owns.new_status (h : Owns cell items cells) (hx : cell x = cells.length) (st : σ) (y : α) :
    y ∈ items ++ [x] ∧ (cells ++ [st])[cell y]? = some st' ↔
      (y ∈ items ∧ cells[cell y]? = some st') ∨ (y = x ∧ st = st') := by
  rw [List.mem_append, List.mem_singleton]
  constructor
  · rintro ⟨hy | rfl,hst⟩
    · rw [List.getElem?_append_left (h.cell_lt hy)] at hst
      exact .inl ⟨hy, hst⟩
    · rw [hx, List.getElem?_concat_length] at hst
      exact .inr ⟨rfl, Option.some.inj hst⟩
  · rintro (⟨hy,hst⟩ | ⟨rfl,rfl⟩)
    · exact ⟨.inl hy, by rw [List.getElem?_append_left (h.cell_lt hy), hst]⟩
    · exact ⟨.inr rfl, by rw [hx, List.getElem?_concat_length]⟩

theorem Lists.new (h : Lists cell items cells st xs) (howns : Owns cell items cells)
    (hx : cell x = cells.length) : Lists cell (items ++ [x]) (cells ++ [st]) st (x :: xs) := by
  have hnot : x ∉ xs := fun hmem => absurd (howns.cell_lt (h.mem hmem)) (by omega)
  refine ⟨List.nodup_cons.mpr ⟨hnot, h.nodup⟩, fun y => ?_⟩
  rw [howns.new_status hx st y, ← h.mem_iff, List.mem_cons, and_iff_left rfl, or_comm]

theorem Lists.new_other (h : Lists cell items cells st xs) (howns : Owns cell items cells)
    (hx : cell x = cells.length) (hne : st' ≠ st) : Lists cell (items ++ [x]) (cells ++ [st']) st xs := by
  refine ⟨h.nodup, fun y => ?_⟩
  rw [howns.new_status hx st' y, ← h.mem_iff, or_iff_left fun heq => hne heq.2]

theorem Lists.leave (h : Lists cell items cells st (x :: xs)) (howns : Owns cell items cells)
    (hne : st' ≠ st) : Lists cell items (cells.set (cell x) st') st xs := by
  obtain ⟨hnot,hnodup⟩ := List.nodup_cons.mp h.nodup
  have hx := h.mem List.mem_cons_self
  refine ⟨hnodup, fun y => ⟨fun hy => ?_, fun ⟨hy,hst⟩ => ?_⟩⟩
  · have hmem := List.mem_cons_of_mem x hy
    exact ⟨h.mem hmem, by
      rw [getElem?_set_cell howns hx (h.mem hmem) st' (ne_of_mem_of_not_mem hy hnot), h.status hmem]⟩
  · by_cases heq : y = x
    · rw [heq, getElem?_set_cell_self howns hx] at hst
      exact absurd (Option.some.inj hst) hne
    · rw [getElem?_set_cell howns hx hy st' heq] at hst
      exact (List.mem_cons.mp ((h.mem_iff y).mpr ⟨hy, hst⟩)).resolve_left heq

theorem Lists.stay (h : Lists cell items cells st xs) (howns : Owns cell items cells) (hx : x ∈ items)
    (hfrom : cells[cell x]? ≠ some st) (hne : st' ≠ st) :
    Lists cell items (cells.set (cell x) st') st xs := by
  refine ⟨h.nodup, fun y => (h.mem_iff y).trans (and_congr_right fun hy => ?_)⟩
  by_cases heq : y = x
  · rw [heq, getElem?_set_cell_self howns hx]
    exact iff_of_false hfrom fun hst => hne (Option.some.inj hst)
  · rw [getElem?_set_cell howns hx hy st' heq]

theorem Lists.enter (h : Lists cell items cells st xs) (howns : Owns cell items cells) (hx : x ∈ items)
    (hfrom : cells[cell x]? ≠ some st) : Lists cell items (cells.set (cell x) st) st (xs ++ [x]) := by
  have hnot : x ∉ xs := fun hmem => hfrom (h.status hmem)
  refine ⟨List.nodup_append_comm.mp (List.nodup_cons.mpr ⟨hnot, h.nodup⟩), fun y => ?_⟩
  rw [List.mem_append, List.mem_singleton, h.mem_iff]
  by_cases heq : y = x
  · rw [heq, getElem?_set_cell_self howns hx]
    exact iff_of_true (.inr rfl) ⟨hx, rfl⟩
  · rw [or_iff_left heq]
    exact and_congr_right fun hy => by rw [getElem?_set_cell howns hx hy st heq]

section Count

variable [DecidableEq σ]

theorem Owns.length_filter (h : Owns cell items cells) (st : σ) :
    (items.filter fun x => decide (cells[cell x]? = some st)).length = cells.count st := by
  have hcells : (List.range cells.length).map (fun i => cells[i]?) = cells.map some := by
    refine List.ext_getElem (by simp) fun i hi _ => ?_
    have hlt : i < cells.length := by simpa using hi
    simp [hlt]
  have hcount : (cells.map some).countP (fun o => decide (o = some st)) = cells.count st := by
    rw [List.countP_map, List.count]
    exact List.countP_congr fun a _ => by simp
  rw [← hcount, ← hcells, ← h, List.map_map, List.countP_map, List.countP_eq_length_filter]
  rfl

theorem Lists.perm_filter (h : Lists cell items cells st xs) (howns : Owns cell items cells) :
    xs.Perm (items.filter fun x => decide (cells[cell x]? = some st)) := by
  refine (List.perm_ext_iff_of_nodup h.nodup (howns.nodup.filter _)).mpr fun x => ?_
  rw [h.mem_iff, List.mem_filter, decide_eq_true_iff]

theorem count_set_enter {i : Nat} (h : cells[i]? = some st') (hne : st' ≠ st) :
    (cells.set i st).count st = cells.count st + 1 := by
  obtain ⟨hlt,rfl⟩ := List.getElem?_eq_some_iff.mp h
  rw [List.count_set hlt]
  simp [hne]

theorem count_set_stay {i : Nat} {a : σ} (h : cells[i]? = some st') (hne : st' ≠ a) (hne' : st ≠ a) :
    (cells.set i st).count a = cells.count a := by
  obtain ⟨hlt,rfl⟩ := List.getElem?_eq_some_iff.mp h
  rw [List.count_set hlt]
  simp [hne, hne']

end Count

end PicoSentry.Foundation
