import Mathlib.Algebra.BigOperators.Group.List.Basic
import Mathlib.Algebra.GroupWithZero.Nat
import Mathlib.Algebra.Order.BigOperators.Group.List
import Mathlib.Algebra.Order.Group.Nat
import PicoSentry.Foundation.FirstOf
import PicoSentry.Foundation.SortedBy

namespace PicoSentry.Foundation.LayeredSearch

-- What a search goes through: the candidates that an item leads to (none where looking for them
-- fails), the size that a candidate takes of the budget, and whether it is kept without a slot.
structure Graph (α : Type) where
  candidates : α → Option (List α)
  size : α → Nat
  urgent : α → Bool

variable {α : Type} (G : Graph α)

section Search

inductive Stop (α : Type) where
  | failed
  | outOfBudget (kept : List α)

structure Tally (α : Type) where
  kept : List α := []
  budget : Int
  slots : Nat
  exhausted : Bool := false

structure State (α : Type) where
  tally : Tally α
  seen : List α
  nextFrontier : List α

def Tally.take (t : Tally α) (cand : α) : Except (Stop α) (Tally α) :=
  let budget := t.budget - G.size cand
  if budget ≤ 0 then .error (.outOfBudget t.kept)
  else if G.urgent cand then .ok { t with budget := budget, kept := t.kept ++ [cand] }
  else if 0 < t.slots then .ok { t with budget := budget, slots := t.slots - 1, kept := t.kept ++ [cand] }
  else .ok { t with budget := budget, exhausted := true }

def ordered (cands : List α) : List α := ascending (fun c => !G.urgent c) cands

variable [DecidableEq α]

def State.visit (s : State α) (cand : α) : Except (Stop α) (State α) :=
  if cand ∈ s.seen then .ok s
  else do
    let tally ← s.tally.take G cand
    return { tally := tally, seen := s.seen ++ [cand], nextFrontier := s.nextFrontier ++ [cand] }

def State.expand (s : State α) (item : α) : Except (Stop α) (State α) :=
  match G.candidates item with
  | none => .error .failed
  | some cands => (ordered G cands).foldlM (State.visit G) s

def layers : Nat → State α → Except (Stop α) (State α)
  | 0, s => .ok s
  | n + 1, s => do
    let s ← s.nextFrontier.foldlM (State.expand G) { s with nextFrontier := [] }
    layers n s

def search (depth : Nat) (start : α) (budget : Int) (slots : Nat) : Option (List α × Bool) :=
  match layers G depth ⟨{ budget := budget, slots := slots }, [start], [start]⟩ with
  | .ok s => some (s.tally.kept, s.tally.exhausted)
  | .error (.outOfBudget kept) => some (kept, true)
  | .error .failed => none

theorem layers_done (n : Nat) {s : State α} (h : s.nextFrontier = []) : layers G n s = .ok s := by
  induction n generalizing s with
  | zero => rfl
  | succ n ih =>
    rw [layers, h]
    have hsame : { s with nextFrontier := [] } = s := by rw [← h]
    exact (congrArg (layers G n) hsame).trans (ih h)

theorem search_leaf (depth : Nat) {start : α} (h : G.candidates start = some []) (budget : Int) (slots : Nat) :
    search G depth start budget slots = some ([], false) := by
  cases depth with
  | zero => rfl
  | succ n =>
    have hexpand : ∀ s, State.expand G s start = .ok s := by
      intro s
      rw [State.expand, h]
      rfl
    have hlayers : layers G (n + 1) ⟨{ budget := budget, slots := slots }, [start], [start]⟩ =
        .ok ⟨{ budget := budget, slots := slots }, [start], []⟩ := by
      rw [layers, List.foldlM_cons, hexpand]
      exact layers_done G n rfl
    rw [search, hlayers]

end Search

section Visits

variable [DecidableEq α]

-- What a frontier offers until looking for candidates fails, and whether it does.
def offers : List α → List α × Bool
  | [] => ([], false)
  | item :: items =>
    match G.candidates item with
    | none => ([], true)
    | some cands => (ordered G cands ++ (offers items).1, (offers items).2)

def visits : Nat → List α → List α → List α × Bool
  | 0, _, _ => ([], false)
  | n + 1, seen, frontier =>
    let fresh := firstOf id seen (offers G frontier).1
    if (offers G frontier).2 then (fresh, true)
    else (fresh ++ (visits n (seen ++ fresh) fresh).1, (visits n (seen ++ fresh) fresh).2)

def thenFail (failed : Bool) (t : Tally α) : Except (Stop α) (Tally α) := if failed then .error .failed else .ok t

variable {G}

theorem foldlM_visit (s : State α) (cands : List α) :
    cands.foldlM (State.visit G) s = ((firstOf id s.seen cands).foldlM (Tally.take G) s.tally).map fun t =>
      { tally := t, seen := s.seen ++ firstOf id s.seen cands,
        nextFrontier := s.nextFrontier ++ firstOf id s.seen cands } := by
  induction cands generalizing s with
  | nil => simp [firstOf, Except.map, pure, Except.pure]
  | cons c cands ih =>
    rw [List.foldlM_cons, State.visit, firstOf]
    by_cases hc : c ∈ s.seen
    · rw [if_pos hc, if_pos (show id c ∈ s.seen from hc)]
      exact ih s
    · rw [if_neg hc, if_neg (show ¬id c ∈ s.seen from hc), List.foldlM_cons]
      cases htake : s.tally.take G c with
      | error stop => rfl
      | ok t =>
        have hrest := ih ⟨t, s.seen ++ [c], s.nextFrontier ++ [c]⟩
        simp only [List.append_assoc, List.singleton_append] at hrest
        exact hrest

theorem foldlM_expand (s : State α) (items : List α) :
    items.foldlM (State.expand G) s =
      (((firstOf id s.seen (offers G items).1).foldlM (Tally.take G) s.tally).bind
        (thenFail (offers G items).2)).map fun t =>
          { tally := t, seen := s.seen ++ firstOf id s.seen (offers G items).1,
            nextFrontier := s.nextFrontier ++ firstOf id s.seen (offers G items).1 } := by
  induction items generalizing s with
  | nil => simp [offers, firstOf, thenFail, Except.map, Except.bind, pure, Except.pure]
  | cons item items ih =>
    rw [List.foldlM_cons, State.expand, offers]
    cases hcands : G.candidates item with
    | none => rfl
    | some cands =>
      dsimp only
      rw [foldlM_visit, firstOf_append, List.foldlM_append, List.map_id]
      cases htake : (firstOf id s.seen (ordered G cands)).foldlM (Tally.take G) s.tally with
      | error stop => rfl
      | ok t =>
        have hrest := ih ⟨t, s.seen ++ firstOf id s.seen (ordered G cands),
          s.nextFrontier ++ firstOf id s.seen (ordered G cands)⟩
        simp only [List.append_assoc] at hrest
        exact hrest

theorem layers_eq (n : Nat) (s : State α) :
    (layers G n s).map State.tally = ((visits G n s.seen s.nextFrontier).1.foldlM (Tally.take G) s.tally).bind
      (thenFail (visits G n s.seen s.nextFrontier).2) := by
  induction n generalizing s with
  | zero => rfl
  | succ n ih =>
    rw [layers, visits, foldlM_expand]
    dsimp only
    cases hoffers : (offers G s.nextFrontier).2 with
    | true =>
      rw [if_pos rfl]
      cases (firstOf id s.seen (offers G s.nextFrontier).1).foldlM (Tally.take G) s.tally with
      | error stop => rfl
      | ok t => rfl
    | false =>
      rw [if_neg Bool.false_ne_true, List.foldlM_append]
      cases (firstOf id s.seen (offers G s.nextFrontier).1).foldlM (Tally.take G) s.tally with
      | error stop => rfl
      | ok t =>
        rw [List.nil_append]
        exact ih ⟨t, s.seen ++ firstOf id s.seen (offers G s.nextFrontier).1,
          firstOf id s.seen (offers G s.nextFrontier).1⟩

end Visits

section Budget

def affordable : Int → List α → List α
  | _, [] => []
  | budget, c :: cands => if budget - G.size c ≤ 0 then [] else c :: affordable (budget - G.size c) cands

def keepSome : Nat → List α → List α
  | _, [] => []
  | slots, c :: cands =>
    if G.urgent c then c :: keepSome slots cands
    else if 0 < slots then c :: keepSome (slots - 1) cands
    else keepSome slots cands

variable {G}

def total (G : Graph α) (cands : List α) : Nat := (cands.map G.size).sum

theorem total_le_of_subset {xs ys : List α} (hnodup : xs.Nodup) (hsub : xs ⊆ ys) : total G xs ≤ total G ys := by
  obtain ⟨part,hperm,hpart⟩ := List.subperm_of_subset hnodup hsub
  have hsum : total G part = total G xs := (hperm.map G.size).sum_eq
  rw [← hsum]
  exact (hpart.map G.size).sum_le_sum fun _ _ => Nat.zero_le _

theorem begins_affordable (budget : Int) (cands : List α) : affordable G budget cands <+: cands := by
  induction cands generalizing budget with
  | nil => exact List.prefix_refl []
  | cons c cands ih =>
    rw [affordable]
    split
    · exact List.nil_prefix
    · exact List.cons_prefix_cons.mpr ⟨rfl, ih _⟩

theorem mem_affordable_iff {budget : Int} {cands : List α} {c : α} : c ∈ affordable G budget cands ↔
    ∃ before after, cands = before ++ c :: after ∧ (total G (before ++ [c]) : Int) < budget := by
  induction cands generalizing budget with
  | nil => simp [affordable]
  | cons d cands ih =>
    have hcons : ∀ before : List α,
        (total G (d :: before ++ [c]) : Int) = G.size d + total G (before ++ [c]) := by
      intro before
      rw [List.cons_append, total, List.map_cons, List.sum_cons, Int.natCast_add]
      rfl
    rw [affordable]
    split
    · next hstop =>
      refine iff_of_false List.not_mem_nil ?_
      rintro ⟨before,after,heq,hsum⟩
      cases before with
      | nil =>
        obtain ⟨rfl,_⟩ := List.cons.inj heq
        simp only [total, List.nil_append, List.map_cons, List.map_nil, List.sum_singleton] at hsum
        omega
      | cons e before =>
        obtain ⟨rfl,_⟩ := List.cons.inj heq
        rw [hcons] at hsum
        omega
    · next hgo =>
      rw [List.mem_cons, ih]
      constructor
      · rintro (rfl | ⟨before,after,rfl,hsum⟩)
        · refine ⟨[], cands, rfl, ?_⟩
          simp only [total, List.nil_append, List.map_cons, List.map_nil, List.sum_singleton]
          omega
        · refine ⟨d :: before, after, rfl, ?_⟩
          rw [hcons]
          omega
      · rintro ⟨before,after,heq,hsum⟩
        cases before with
        | nil => exact .inl (List.cons.inj heq).1.symm
        | cons e before =>
          obtain ⟨rfl,hrest⟩ := List.cons.inj heq
          rw [hcons] at hsum
          exact .inr ⟨before, after, hrest, by omega⟩

theorem total_affordable (budget : Int) (cands : List α) :
    affordable G budget cands = [] ∨ (total G (affordable G budget cands) : Int) < budget := by
  induction cands generalizing budget with
  | nil => exact .inl rfl
  | cons c cands ih =>
    rw [affordable]
    split
    · exact .inl rfl
    · next hgo =>
      right
      rw [total, List.map_cons, List.sum_cons, Int.natCast_add, ← total]
      rcases ih (budget - G.size c) with hnil | hpaid
      · rw [hnil]
        simp only [total, List.map_nil, List.sum_nil]
        omega
      · omega

theorem mem_keepSome_of_urgent {slots : Nat} {cands : List α} {c : α} (hurgent : G.urgent c = true) :
    c ∈ keepSome G slots cands ↔ c ∈ cands := by
  induction cands generalizing slots with
  | nil => rfl
  | cons d cands ih =>
    rw [keepSome, List.mem_cons]
    split
    · rw [List.mem_cons, ih]
    · next hd =>
      split
      · rw [List.mem_cons, ih]
      · rw [ih]
        refine (or_iff_right ?_).symm
        rintro rfl
        exact hd hurgent

theorem keepSome_sublist (slots : Nat) (cands : List α) : (keepSome G slots cands).Sublist cands := by
  induction cands generalizing slots with
  | nil => exact .slnil
  | cons c cands ih =>
    rw [keepSome]
    split
    · exact (ih slots).cons_cons c
    · split
      · exact (ih _).cons_cons c
      · exact (ih slots).cons c

theorem countP_keepSome_le (slots : Nat) (cands : List α) :
    (keepSome G slots cands).countP (fun c => !G.urgent c) ≤ slots := by
  induction cands generalizing slots with
  | nil => exact Nat.zero_le _
  | cons c cands ih =>
    rw [keepSome]
    split
    · next hc =>
      rw [List.countP_cons_of_neg (by simp [hc])]
      exact ih slots
    · next hc =>
      split
      · next hslots =>
        rw [List.countP_cons_of_pos (by simp [hc])]
        have hrest := ih (slots - 1)
        omega
      · exact ih slots

theorem keepSome_eq_self {slots : Nat} {cands : List α} (h : cands.countP (fun c => !G.urgent c) ≤ slots) :
    keepSome G slots cands = cands := by
  induction cands generalizing slots with
  | nil => rfl
  | cons c cands ih =>
    rw [keepSome]
    split
    · next hc =>
      rw [List.countP_cons_of_neg (by simp [hc])] at h
      rw [ih h]
    · next hc =>
      rw [List.countP_cons_of_pos (by simp [hc])] at h
      rw [if_pos (by omega), ih (by omega)]

variable [DecidableEq α]

theorem foldlM_take (t : Tally α) (cands : List α) :
    cands.foldlM (Tally.take G) t =
      if affordable G t.budget cands = cands then
        .ok ⟨t.kept ++ keepSome G t.slots cands, t.budget - total G cands,
          t.slots - cands.countP (fun c => !G.urgent c),
          t.exhausted || decide (t.slots < cands.countP fun c => !G.urgent c)⟩
      else .error (.outOfBudget (t.kept ++ keepSome G t.slots (affordable G t.budget cands))) := by
  induction cands generalizing t with
  | nil =>
    rw [List.foldlM_nil, affordable, if_pos rfl]
    simp [keepSome, total, pure, Except.pure]
  | cons c cands ih =>
    rw [List.foldlM_cons, Tally.take, affordable]
    by_cases hstop : t.budget - G.size c ≤ 0
    · rw [if_pos hstop, if_pos hstop, if_neg (List.cons_ne_nil c cands).symm, keepSome, List.append_nil]
      rfl
    · rw [if_neg hstop, if_neg hstop]
      have htotal : t.budget - total G (c :: cands) = t.budget - G.size c - total G cands := by
        rw [total, total, List.map_cons, List.sum_cons, Int.natCast_add]
        omega
      cases hurgent : G.urgent c with
      | true =>
        rw [if_pos rfl]
        refine (ih _).trans ?_
        simp only [List.cons.injEq, true_and, keepSome, hurgent, if_true, List.append_assoc, List.singleton_append,
          htotal, Bool.not_true, List.countP_cons, Bool.false_eq_true, if_false, Nat.add_zero]
      | false =>
        rw [if_neg Bool.false_ne_true]
        by_cases hslots : 0 < t.slots
        · rw [if_pos hslots]
          refine (ih _).trans ?_
          have hcount : t.slots - 1 < cands.countP (fun c => !G.urgent c) ↔
              t.slots < cands.countP (fun c => !G.urgent c) + 1 := by omega
          simp only [List.cons.injEq, true_and, keepSome, hurgent, hslots, if_true, List.append_assoc,
            List.singleton_append, htotal, Bool.not_false, List.countP_cons, Bool.false_eq_true, if_false, hcount,
            Nat.sub_sub, Nat.add_comm 1]
        · rw [if_neg hslots]
          refine (ih _).trans ?_
          have hnone : t.slots = 0 := by omega
          simp only [List.cons.injEq, true_and, keepSome, hurgent, Nat.lt_irrefl, if_false, htotal, Bool.not_false,
            List.countP_cons, Bool.false_eq_true, if_true, hnone, Nat.zero_sub, Nat.zero_lt_succ, decide_true,
            Bool.or_true, Bool.true_or]

theorem search_eq (depth : Nat) (start : α) (budget : Int) (slots : Nat) :
    search G depth start budget slots =
      let visited := visits G depth [start] [start]
      if affordable G budget visited.1 = visited.1 then
        if visited.2 then none
        else some (keepSome G slots visited.1, decide (slots < visited.1.countP fun c => !G.urgent c))
      else some (keepSome G slots (affordable G budget visited.1), true) := by
  have hlayers := layers_eq (G := G) depth ⟨{ budget := budget, slots := slots }, [start], [start]⟩
  rw [foldlM_take] at hlayers
  rw [search]
  dsimp only at hlayers ⊢
  split at hlayers
  · next hall =>
    rw [if_pos hall]
    cases hfailed : (visits G depth [start] [start]).2 with
    | true =>
      rw [hfailed] at hlayers
      cases hresult : layers G depth ⟨{ budget := budget, slots := slots }, [start], [start]⟩ with
      | ok s => rw [hresult] at hlayers; cases hlayers
      | error stop => rw [hresult] at hlayers; cases hlayers; rfl
    | false =>
      rw [hfailed] at hlayers
      cases hresult : layers G depth ⟨{ budget := budget, slots := slots }, [start], [start]⟩ with
      | ok s =>
        rw [hresult] at hlayers
        have htally := Except.ok.inj hlayers
        dsimp only
        rw [htally, List.nil_append, Bool.false_or]
        rfl
      | error stop => rw [hresult] at hlayers; cases hlayers
  · next hpart =>
    rw [if_neg hpart]
    cases hresult : layers G depth ⟨{ budget := budget, slots := slots }, [start], [start]⟩ with
    | ok s => rw [hresult] at hlayers; cases hlayers
    | error stop => rw [hresult] at hlayers; cases hlayers; rfl

end Budget

section Reach

variable {G}

def Step (G : Graph α) (item cand : α) : Prop := ∃ cands, G.candidates item = some cands ∧ cand ∈ cands

def ReachedIn (G : Graph α) : Nat → α → α → Prop
  | 0, item, cand => item = cand
  | n + 1, item, cand => ∃ next, Step G item next ∧ ReachedIn G n next cand

theorem mem_ordered {cands : List α} {c : α} : c ∈ ordered G cands ↔ c ∈ cands :=
  (perm_ascending _ cands).mem_iff

theorem step_of_mem_offers {items : List α} {c : α} (h : c ∈ (offers G items).1) : ∃ item ∈ items, Step G item c := by
  induction items with
  | nil => cases h
  | cons item items ih =>
    rw [offers] at h
    cases hcands : G.candidates item with
    | none =>
      rw [hcands] at h
      cases h
    | some cands =>
      rw [hcands] at h
      rcases List.mem_append.mp h with hmem | hmem
      · exact ⟨item, List.mem_cons_self, cands, hcands, mem_ordered.mp hmem⟩
      · obtain ⟨other,hother,hstep⟩ := ih hmem
        exact ⟨other, List.mem_cons_of_mem _ hother, hstep⟩

theorem mem_offers {items : List α} (hfine : (offers G items).2 = false) {item c : α} (hitem : item ∈ items)
    (hstep : Step G item c) : c ∈ (offers G items).1 := by
  induction items with
  | nil => cases hitem
  | cons other items ih =>
    rw [offers] at hfine ⊢
    cases hcands : G.candidates other with
    | none =>
      rw [hcands] at hfine
      cases hfine
    | some cands =>
      rw [hcands] at hfine
      rcases List.mem_cons.mp hitem with rfl | hitem
      · obtain ⟨cands',hcands',hmem⟩ := hstep
        rw [hcands] at hcands'
        cases hcands'
        exact List.mem_append_left _ (mem_ordered.mpr hmem)
      · exact List.mem_append_right _ (ih hfine hitem)

def Closed (G : Graph α) (seen frontier : List α) : Prop :=
  frontier ⊆ seen ∧ ∀ item ∈ seen, item ∉ frontier → ∀ c, Step G item c → c ∈ seen

theorem closed_start (start : α) : Closed G [start] [start] :=
  ⟨List.Subset.refl _, fun _ hitem hnot => absurd hitem hnot⟩

def ReachedWithin (G : Graph α) (depth : Nat) (start cand : α) : Prop :=
  ∃ k < depth, ReachedIn G (k + 1) start cand

variable [DecidableEq α]

theorem reached_of_mem_visits {n : Nat} {seen frontier : List α} {c : α} (h : c ∈ (visits G n seen frontier).1) :
    c ∉ seen ∧ ∃ item ∈ frontier, ∃ k < n, ReachedIn G (k + 1) item c := by
  induction n generalizing seen frontier with
  | zero => cases h
  | succ n ih =>
    have hfresh : c ∈ firstOf id seen (offers G frontier).1 →
        c ∉ seen ∧ ∃ item ∈ frontier, ∃ k < n + 1, ReachedIn G (k + 1) item c := by
      intro hmem
      obtain ⟨hnew,hoffered⟩ := mem_firstOf_id_iff.mp hmem
      obtain ⟨item,hitem,hstep⟩ := step_of_mem_offers hoffered
      exact ⟨hnew, item, hitem, 0, n.succ_pos, c, hstep, rfl⟩
    rw [visits] at h
    split at h
    · exact hfresh h
    · rcases List.mem_append.mp h with hmem | hmem
      · exact hfresh hmem
      · obtain ⟨hnew,next,hnext,k,hk,hreached⟩ := ih hmem
        obtain ⟨item,hitem,hstep⟩ := step_of_mem_offers (mem_firstOf_id_iff.mp hnext).2
        exact ⟨fun hseen => hnew (List.mem_append_left _ hseen), item, hitem, k + 1, by omega, next, hstep, hreached⟩

theorem nodup_visits (n : Nat) (seen frontier : List α) : (visits G n seen frontier).1.Nodup := by
  induction n generalizing seen frontier with
  | zero => exact List.nodup_nil
  | succ n ih =>
    rw [visits]
    split
    · exact nodup_firstOf_id _ _
    · refine List.nodup_append.mpr ⟨nodup_firstOf_id _ _, ih _ _, ?_⟩
      rintro c hc _ hc' rfl
      exact (reached_of_mem_visits hc').1 (List.mem_append_right _ hc)

theorem Closed.leave {seen frontier : List α} (h : Closed G seen frontier) {n : Nat} {item c : α} (hitem : item ∈ seen)
    (hc : c ∉ seen) (hreached : ReachedIn G n item c) :
    ∃ front ∈ frontier, ∃ next, Step G front next ∧ next ∉ seen ∧ ∃ k < n, ReachedIn G k next c := by
  induction n generalizing item with
  | zero =>
    cases hreached
    exact absurd hitem hc
  | succ n ih =>
    obtain ⟨next,hstep,hrest⟩ := hreached
    by_cases hnext : next ∈ seen
    · obtain ⟨front,hfront,further,hfurther,hnew,k,hk,hlast⟩ := ih hnext hrest
      exact ⟨front, hfront, further, hfurther, hnew, k, by omega, hlast⟩
    · have hfront : item ∈ frontier := by
        by_contra hnot
        exact hnext (h.2 item hitem hnot next hstep)
      exact ⟨item, hfront, next, hstep, hnext, n, n.lt_succ_self, hrest⟩

theorem Closed.fresh {seen frontier : List α} (h : Closed G seen frontier) (hfine : (offers G frontier).2 = false) :
    Closed G (seen ++ firstOf id seen (offers G frontier).1) (firstOf id seen (offers G frontier).1) := by
  refine ⟨List.subset_append_right _ _, fun item hitem hnot c hstep => ?_⟩
  have hseen : item ∈ seen := (List.mem_append.mp hitem).resolve_right hnot
  by_cases hc : c ∈ seen
  · exact List.mem_append_left _ hc
  · have hfront : item ∈ frontier := by
      by_contra hother
      exact hc (h.2 item hseen hother c hstep)
    exact List.mem_append_right _ (mem_firstOf_id_iff.mpr ⟨hc, mem_offers hfine hfront hstep⟩)

theorem mem_visits {n : Nat} {seen frontier : List α} (h : Closed G seen frontier)
    (hfine : (visits G n seen frontier).2 = false) {item c : α} (hitem : item ∈ seen) (hc : c ∉ seen) {k : Nat}
    (hk : k ≤ n) (hreached : ReachedIn G k item c) : c ∈ (visits G n seen frontier).1 := by
  induction n generalizing seen frontier item k with
  | zero =>
    obtain rfl : k = 0 := by omega
    cases hreached
    exact absurd hitem hc
  | succ n ih =>
    rw [visits] at hfine ⊢
    split at hfine
    · cases hfine
    · next hoffers =>
      rw [Bool.not_eq_true] at hoffers
      rw [if_neg (by simp [hoffers])]
      obtain ⟨front,hfront,next,hstep,hnew,j,hj,hlast⟩ := h.leave hitem hc hreached
      have hnext : next ∈ firstOf id seen (offers G frontier).1 :=
        mem_firstOf_id_iff.mpr ⟨hnew, mem_offers hoffers hfront hstep⟩
      by_cases hfresh : c ∈ firstOf id seen (offers G frontier).1
      · exact List.mem_append_left _ hfresh
      · have hunseen : c ∉ seen ++ firstOf id seen (offers G frontier).1 := by simp [hc, hfresh]
        exact List.mem_append_right _ (ih (h.fresh hoffers) hfine (List.mem_append_right _ hnext) hunseen (by omega) hlast)

theorem mem_visits_start_iff {depth : Nat} {start c : α} (hfine : (visits G depth [start] [start]).2 = false) :
    c ∈ (visits G depth [start] [start]).1 ↔ c ≠ start ∧ ReachedWithin G depth start c := by
  constructor
  · intro h
    obtain ⟨hnew,item,hitem,hreached⟩ := reached_of_mem_visits h
    rw [List.mem_singleton.mp hitem] at hreached
    exact ⟨fun he => hnew (List.mem_singleton.mpr he), hreached⟩
  · rintro ⟨hne,k,hk,hreached⟩
    exact mem_visits (closed_start start) hfine (List.mem_singleton_self start)
      (fun hmem => hne (List.mem_singleton.mp hmem)) hk hreached

end Reach

section Results

variable {G} [DecidableEq α] {depth n slots : Nat} {start : α} {budget : Int} {kept : List α} {exhausted : Bool}

theorem search_cases (h : search G depth start budget slots = some (kept, exhausted)) :
    (affordable G budget (visits G depth [start] [start]).1 = (visits G depth [start] [start]).1 ∧
      (visits G depth [start] [start]).2 = false ∧ kept = keepSome G slots (visits G depth [start] [start]).1 ∧
      exhausted = decide (slots < (visits G depth [start] [start]).1.countP fun c => !G.urgent c)) ∨
    kept = keepSome G slots (affordable G budget (visits G depth [start] [start]).1) ∧ exhausted = true := by
  rw [search_eq] at h
  dsimp only at h
  split at h
  · next hall =>
    split at h
    · cases h
    · next hfine =>
      obtain ⟨rfl,rfl⟩ := Prod.mk.inj (Option.some.inj h)
      exact .inl ⟨hall, Bool.eq_false_iff.mpr hfine, rfl, rfl⟩
  · obtain ⟨rfl,rfl⟩ := Prod.mk.inj (Option.some.inj h)
    exact .inr ⟨rfl, rfl⟩

theorem kept_of_search (h : search G depth start budget slots = some (kept, exhausted)) :
    kept = keepSome G slots (affordable G budget (visits G depth [start] [start]).1) := by
  rcases search_cases h with ⟨hall,_,hkept,_⟩ | ⟨hkept,_⟩
  · rw [hall, hkept]
  · exact hkept

theorem search_complete (h : search G depth start budget slots = some (kept, false)) :
    kept.Nodup ∧ ∀ c, c ∈ kept ↔ c ≠ start ∧ ReachedWithin G depth start c := by
  rcases search_cases h with ⟨_,hfine,hkept,hflag⟩ | ⟨_,hflag⟩
  · have hslots := of_decide_eq_false hflag.symm
    rw [keepSome_eq_self (not_lt.mp hslots)] at hkept
    rw [hkept]
    exact ⟨nodup_visits _ _ _, fun c => mem_visits_start_iff hfine⟩
  · cases hflag

theorem search_kept_reached (h : search G depth start budget slots = some (kept, exhausted)) {c : α} (hc : c ∈ kept) :
    c ≠ start ∧ ReachedWithin G depth start c := by
  rw [kept_of_search h] at hc
  have hvisited := (begins_affordable budget _).subset ((keepSome_sublist slots _).subset hc)
  obtain ⟨hnew,item,hitem,hreached⟩ := reached_of_mem_visits hvisited
  rw [List.mem_singleton.mp hitem] at hreached
  exact ⟨fun he => hnew (List.mem_singleton.mpr he), hreached⟩

theorem search_total (h : search G depth start budget slots = some (kept, exhausted)) :
    kept = [] ∨ (total G kept : Int) < budget := by
  rw [kept_of_search h]
  rcases total_affordable (G := G) budget (visits G depth [start] [start]).1 with hnil | hpaid
  · left
    rw [hnil]
    rfl
  · right
    have hsub := (keepSome_sublist (G := G) slots (affordable G budget (visits G depth [start] [start]).1)).map G.size
    have hle : total G (keepSome G slots (affordable G budget (visits G depth [start] [start]).1)) ≤
        total G (affordable G budget (visits G depth [start] [start]).1) :=
      hsub.sum_le_sum fun _ _ => Nat.zero_le _
    omega

theorem search_slots (h : search G depth start budget slots = some (kept, exhausted)) :
    kept.countP (fun c => !G.urgent c) ≤ slots := by
  rw [kept_of_search h]
  exact countP_keepSome_le slots _

theorem mem_search_iff (h : search G depth start budget slots = some (kept, exhausted)) {c : α}
    (hurgent : G.urgent c = true) : c ∈ kept ↔
      ∃ before after, (visits G depth [start] [start]).1 = before ++ c :: after ∧
        (total G (before ++ [c]) : Int) < budget := by
  rw [kept_of_search h, mem_keepSome_of_urgent hurgent, mem_affordable_iff]

theorem visits_urgent_first (n : Nat) {cands : List α} (hcands : G.candidates start = some cands) :
    ∃ later, (visits G (n + 1) [start] [start]).1 =
      firstOf id [start] ((ordered G cands).filter G.urgent) ++ later := by
  have hsplit : (ordered G cands).filter G.urgent ++ (ordered G cands).filter (fun c => !G.urgent c) =
      ordered G cands := by
    refine filter_append_filter_not ((pairwise_ascending _ cands).imp fun {c d} hle hd => ?_)
    rw [hd] at hle
    cases hc : G.urgent c with
    | true => rfl
    | false => exact absurd (hc ▸ hle) (by decide)
  have hoffers : offers G [start] = (ordered G cands, false) := by
    rw [offers, hcands]
    dsimp only
    rw [offers, List.append_nil]
  rw [visits, hoffers]
  dsimp only
  rw [if_neg Bool.false_ne_true]
  conv => enter [1, later, 1, 1]; rw [← hsplit, firstOf_append]
  rw [List.append_assoc]
  exact ⟨_, rfl⟩

theorem direct_urgent_kept (h : search G (n + 1) start budget slots = some (kept, exhausted)) {cands charged : List α}
    (hcands : G.candidates start = some cands) {c : α} (hc : c ∈ cands) (hne : c ≠ start) (hurgent : G.urgent c = true)
    (hcharged : ∀ d ∈ cands, d ≠ start → G.urgent d = true → d ∈ charged) (hpaid : (total G charged : Int) < budget) :
    c ∈ kept := by
  obtain ⟨later,hvisits⟩ := visits_urgent_first n hcands
  have hmem : c ∈ firstOf id [start] ((ordered G cands).filter G.urgent) := by
    refine mem_firstOf_id_iff.mpr ⟨fun hstart => hne (List.mem_singleton.mp hstart), ?_⟩
    exact List.mem_filter.mpr ⟨mem_ordered.mpr hc, hurgent⟩
  obtain ⟨before,after,hparts⟩ := List.append_of_mem hmem
  refine (mem_search_iff h hurgent).mpr ⟨before, after ++ later, ?_, ?_⟩
  · rw [hvisits, hparts, List.append_assoc, List.cons_append]
  · have hfirst : before ++ [c] ++ after = firstOf id [start] ((ordered G cands).filter G.urgent) := by
      rw [hparts, List.append_assoc, List.singleton_append]
    have hnodup := nodup_firstOf_id [start] ((ordered G cands).filter G.urgent)
    rw [← hfirst] at hnodup
    have hle : total G (before ++ [c]) ≤ total G charged := by
      refine total_le_of_subset hnodup.of_append_left fun d hd => ?_
      have hd := List.mem_append_left after hd
      rw [hfirst] at hd
      obtain ⟨hnew,hd⟩ := mem_firstOf_id_iff.mp hd
      obtain ⟨hd,hhint⟩ := List.mem_filter.mp hd
      exact hcharged d (mem_ordered.mp hd) (fun he => hnew (List.mem_singleton.mpr he)) hhint
    omega

end Results

end PicoSentry.Foundation.LayeredSearch
