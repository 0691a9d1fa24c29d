import Mathlib.Data.List.Perm.Basic
import Mathlib.Data.List.Sort
import Mathlib.Order.Defs.LinearOrder

namespace PicoSentry.Foundation

section Split

variable {α : Type} {p : α → Bool}

theorem filter_append_filter_not {xs : List α} (h : xs.Pairwise fun a b => p b = true → p a = true) :
    xs.filter p ++ xs.filter (fun a => !p a) = xs := by
  induction h with
  | nil => rfl
  | @cons a xs ha _ ih =>
    cases hp : p a with
    | true => rw [List.filter_cons_of_pos hp, List.filter_cons_of_neg (by simp [hp]), List.cons_append, ih]
    | false =>
      have hnone : ∀ b ∈ xs, p b = false := fun b hb => by
        rw [← Bool.not_eq_true]
        exact fun hpb => Bool.false_ne_true (hp.symm.trans (ha b hb hpb))
      rw [List.filter_cons_of_neg (by simp [hp]), List.filter_cons_of_pos (by simp [hp]),
        List.filter_eq_nil_iff.mpr (by simpa using hnone), List.nil_append,
        List.filter_eq_self.mpr (by simpa using hnone)]

theorem take_countP {xs : List α} (h : xs.Pairwise fun a b => p b = true → p a = true) :
    xs.take (xs.countP p) = xs.filter p := by
  have hlen : (xs.filter p).length = xs.countP p := List.countP_eq_length_filter.symm
  have hsplit := congrArg (List.take (xs.countP p)) (filter_append_filter_not h)
  rwa [← hlen, List.take_left, eq_comm, hlen] at hsplit

end Split

section Order

variable {α κ : Type} [LinearOrder κ] (key : α → κ)

-- sorted(xs, key=key) and sorted(xs, key=key, reverse=True), both stable.
def ascending (xs : List α) : List α := xs.insertionSort fun a b => key a ≤ key b
def descending (xs : List α) : List α := xs.insertionSort fun a b => key b ≤ key a

theorem perm_ascending (xs : List α) : (ascending key xs).Perm xs := List.perm_insertionSort _ xs

theorem perm_descending (xs : List α) : (descending key xs).Perm xs := List.perm_insertionSort _ xs

theorem pairwise_ascending (xs : List α) : (ascending key xs).Pairwise fun a b => key a ≤ key b :=
  haveI : Std.Total fun a b => key a ≤ key b := ⟨fun a b => le_total (key a) (key b)⟩
  haveI : IsTrans α fun a b => key a ≤ key b := ⟨fun _ _ _ => le_trans⟩
  List.pairwise_insertionSort _ xs

theorem pairwise_descending (xs : List α) :
    (descending key xs).Pairwise fun a b => key b ≤ key a :=
  haveI : Std.Total fun a b => key b ≤ key a := ⟨fun a b => le_total (key b) (key a)⟩
  haveI : IsTrans α fun a b => key b ≤ key a := ⟨fun _ _ _ hab hbc => le_trans hbc hab⟩
  List.pairwise_insertionSort _ xs

theorem ascending_eq_of_perm {xs ys : List α} (h : xs.Perm ys)
    (hinj : ∀ a ∈ xs, ∀ b ∈ xs, key a = key b → a = b) : ascending key xs = ascending key ys := by
  have hperm := (perm_ascending key xs).trans (h.trans (perm_ascending key ys).symm)
  refine List.Perm.eq_of_pairwise ?_ (pairwise_ascending key xs) (pairwise_ascending key ys) hperm
  intro a b ha hb hab hba
  have hbx : b ∈ xs := h.mem_iff.mpr ((perm_ascending key ys).mem_iff.mp hb)
  exact hinj a ((perm_ascending key xs).mem_iff.mp ha) b hbx (le_antisymm hab hba)

theorem perm_of_ascending_eq {xs ys : List α} (h : ascending key xs = ascending key ys) :
    xs.Perm ys :=
  (perm_ascending key xs).symm.trans (h ▸ perm_ascending key ys)

theorem ascending_of_pairwise {xs : List α} (h : xs.Pairwise fun a b => key a ≤ key b) :
    ascending key xs = xs := h.insertionSort_eq

theorem ascending_ascending (xs : List α) : ascending key (ascending key xs) = ascending key xs :=
  ascending_of_pairwise key (pairwise_ascending key xs)

theorem ascending_map {β : Type} (f : β → α) (xs : List β) :
    ascending key (xs.map f) = (ascending (fun b => key (f b)) xs).map f :=
  (List.map_insertionSort (fun a b : β => key (f a) ≤ key (f b)) (fun a b => key a ≤ key b) f xs
    fun _ _ _ _ => Iff.rfl).symm

theorem take_descending {p : α → Bool} {xs : List α}
    (h : ∀ a ∈ xs, ∀ b ∈ xs, p a = true → p b = false → key b < key a) :
    ((descending key xs).take (xs.countP p)).Perm (xs.filter p) := by
  have hperm := perm_descending key xs
  have hsplit : (descending key xs).Pairwise fun a b => p b = true → p a = true := by
    refine (pairwise_descending key xs).imp_of_mem ?_
    intro a b ha hb hle hpb
    by_contra hpa
    exact absurd hle (not_le.mpr
      (h b (hperm.mem_iff.mp hb) a (hperm.mem_iff.mp ha) hpb (by simpa using hpa)))
  rw [← hperm.countP_eq p, take_countP hsplit]
  exact hperm.filter p

theorem head_ascending {xs : List α} (hne : xs ≠ []) :
    ∃ a rest, ascending key xs = a :: rest ∧ a ∈ xs ∧ ∀ b ∈ xs, key a ≤ key b := by
  cases h : ascending key xs with
  | nil => exact absurd (List.nil_perm.mp (h ▸ perm_ascending key xs)) hne
  | cons a rest =>
    have hmem : ∀ b, b ∈ a :: rest ↔ b ∈ xs := fun b => h ▸ (perm_ascending key xs).mem_iff
    have hpair := h ▸ pairwise_ascending key xs
    refine ⟨a,rest,rfl,(hmem a).mp List.mem_cons_self,fun b hb => ?_⟩
    rcases List.mem_cons.mp ((hmem b).mpr hb) with rfl | hb
    · exact le_refl _
    · exact List.rel_of_pairwise_cons hpair hb

def tied (k : κ) (xs : List α) : List α := xs.filter fun a => key a = k

theorem tied_cons_of_eq {k : κ} {a : α} (h : key a = k) (xs : List α) :
    tied key k (a :: xs) = a :: tied key k xs := by simp [tied, h]

theorem tied_cons_of_ne {k : κ} {a : α} (h : key a ≠ k) (xs : List α) :
    tied key k (a :: xs) = tied key k xs := by simp [tied, h]

theorem tied_orderedInsert (k : κ) (a : α) (xs : List α) :
    tied key k (xs.orderedInsert (fun a b => key a ≤ key b) a) = tied key k (a :: xs) := by
  induction xs with
  | nil => rfl
  | cons b xs ih =>
    rw [List.orderedInsert_cons]
    split
    · rfl
    · next hlt =>
      by_cases hb : key b = k
      · have ha : key a ≠ k := fun ha => hlt (ha.trans hb.symm).le
        rw [tied_cons_of_eq key hb, ih, tied_cons_of_ne key ha, tied_cons_of_ne key ha,
          tied_cons_of_eq key hb]
      · rw [tied_cons_of_ne key hb, ih]
        by_cases ha : key a = k
        · rw [tied_cons_of_eq key ha, tied_cons_of_eq key ha, tied_cons_of_ne key hb]
        · rw [tied_cons_of_ne key ha, tied_cons_of_ne key ha, tied_cons_of_ne key hb]

theorem tied_ascending (k : κ) (xs : List α) : tied key k (ascending key xs) = tied key k xs := by
  induction xs with
  | nil => rfl
  | cons a xs ih =>
    rw [ascending, List.insertionSort_cons, tied_orderedInsert, ← ascending]
    by_cases ha : key a = k
    · rw [tied_cons_of_eq key ha, tied_cons_of_eq key ha, ih]
    · rw [tied_cons_of_ne key ha, tied_cons_of_ne key ha, ih]

theorem eq_of_ascending_swap {a b : α} {xs : List α} (hkey : key a = key b)
    (h : ascending key (a :: b :: xs) = ascending key (b :: a :: xs)) : a = b := by
  have htied := tied_ascending key (key b) (a :: b :: xs)
  rw [h, tied_ascending, tied_cons_of_eq key rfl, tied_cons_of_eq key hkey,
    tied_cons_of_eq key hkey] at htied
  exact (List.cons.inj htied).1.symm

theorem ascending_perm_iff [DecidableEq α] (xs : List α) :
    (∀ ys, ys.Perm xs → ascending key ys = ascending key xs) ↔
      ∀ a ∈ xs, ∀ b ∈ xs, key a = key b → a = b := by
  constructor
  · intro h a ha b hb hkey
    by_contra hne
    have hba : b ∈ xs.erase a := (List.mem_erase_of_ne (Ne.symm hne)).mpr hb
    have hperm : (a :: b :: (xs.erase a).erase b).Perm xs :=
      ((List.perm_cons_erase hba).symm.cons a).trans (List.perm_cons_erase ha).symm
    have hswap := (List.Perm.swap a b _).trans hperm
    exact hne (eq_of_ascending_swap key hkey ((h _ hperm).trans (h _ hswap).symm))
  · intro h ys hys
    exact (ascending_eq_of_perm key hys.symm h).symm

end Order

section Heap

variable {α : Type} (lt : α → α → Bool)

-- No child in front of its parent: the invariant of a binary heap in a list.
def IsHeap (heap : List α) : Prop :=
  ∀ parent child x y, child = 2 * parent + 1 ∨ child = 2 * parent + 2 →
    heap[parent]? = some x → heap[child]? = some y → lt y x = false

structure WeakOrder : Prop where
  irrefl : ∀ a, lt a a = false
  trans : ∀ a b c, lt a b = false → lt b c = false → lt a c = false

-- The functions of heapq with what their documentation promises.
structure Heapq where
  heappush : List α → α → List α
  heappop : List α → Option (α × List α)
  heapify : List α → List α
  push_perm : ∀ heap x, (heappush heap x).Perm (x :: heap)
  push_isHeap : ∀ heap x, IsHeap lt heap → IsHeap lt (heappush heap x)
  pop_nil : heappop [] = none
  pop_cons : ∀ x rest, ∃ heap, heappop (x :: rest) = some (x, heap) ∧ heap.Perm rest ∧
    (IsHeap lt (x :: rest) → IsHeap lt heap)
  heapify_perm : ∀ xs, (heapify xs).Perm xs
  heapify_isHeap : ∀ xs, IsHeap lt (heapify xs)

variable {lt}

theorem isHeap_nil : IsHeap lt [] := by
  intro parent child x y _ hx
  cases hx

theorem isHeap_of_pairwise {xs : List α} (h : xs.Pairwise fun a b => lt b a = false) : IsHeap lt xs := by
  intro parent child x y hchild hx hy
  obtain ⟨hparent,rfl⟩ := List.getElem?_eq_some_iff.mp hx
  obtain ⟨hlt,rfl⟩ := List.getElem?_eq_some_iff.mp hy
  exact List.pairwise_iff_getElem.mp h parent child hparent hlt (by omega)

-- By induction on the position: a parent stands in front of its children.
theorem IsHeap.root_least (horder : WeakOrder lt) {x : α} {rest : List α} (h : IsHeap lt (x :: rest)) :
    ∀ y ∈ x :: rest, lt y x = false := by
  have hposition : ∀ (i : Nat) y, (x :: rest)[i]? = some y → lt y x = false := by
    intro i
    induction i using Nat.strong_induction_on with
    | _ i ih =>
      intro y hy
      cases i with
      | zero =>
        cases hy
        exact horder.irrefl x
      | succ i =>
        have hlt : i + 1 < (x :: rest).length := (List.getElem?_eq_some_iff.mp hy).1
        have hparent : i / 2 < (x :: rest).length := by omega
        have hpar := List.getElem?_eq_getElem hparent
        have hchild : lt y ((x :: rest)[i / 2]) = false := h (i / 2) (i + 1) _ y (by omega) hpar hy
        exact horder.trans _ _ _ hchild (ih (i / 2) (by omega) _ hpar)
  intro y hy
  obtain ⟨i,hi,rfl⟩ := List.mem_iff_getElem.mp hy
  exact hposition i _ (List.getElem?_eq_getElem hi)

def Heapq.of {lt' : α → α → Bool} (H : Heapq lt) (h : lt = lt') : Heapq lt' where
  heappush := H.heappush
  heappop := H.heappop
  heapify := H.heapify
  push_perm := H.push_perm
  push_isHeap := h ▸ H.push_isHeap
  pop_nil := H.pop_nil
  pop_cons := h ▸ H.pop_cons
  heapify_perm := H.heapify_perm
  heapify_isHeap := h ▸ H.heapify_isHeap

end Heap

section Sorted

variable {α κ : Type} [LinearOrder κ] (key : α → κ)

def keyLt (a b : α) : Bool := key a < key b

theorem weakOrder_keyLt : WeakOrder (keyLt key) where
  irrefl a := decide_eq_false (lt_irrefl (key a))
  trans a b c hab hbc := by
    rw [keyLt, decide_eq_false_iff_not, not_lt] at *
    exact hbc.trans hab

theorem isHeap_ascending (xs : List α) : IsHeap (keyLt key) (ascending key xs) :=
  isHeap_of_pairwise ((pairwise_ascending key xs).imp fun hle => decide_eq_false (not_lt.mpr hle))

def sortedHeapq : Heapq (keyLt key) where
  heappush heap x := ascending key (heap ++ [x])
  heappop
    | [] => none
    | x :: rest => some (x, ascending key rest)
  heapify xs := ascending key xs
  push_perm _ _ := (perm_ascending key _).trans List.perm_append_comm
  push_isHeap _ _ _ := isHeap_ascending key _
  pop_nil := rfl
  pop_cons _ rest := ⟨ascending key rest, rfl, perm_ascending key rest, fun _ => isHeap_ascending key _⟩
  heapify_perm := perm_ascending key
  heapify_isHeap := isHeap_ascending key

end Sorted

end PicoSentry.Foundation
