import Mathlib.Algebra.BigOperators.Group.List.Basic
import PicoSentry.Foundation.SortedBy

namespace PicoSentry.Foundation

section Latest

variable {α : Type} {p : α → Bool}

-- next((x for x in reversed(xs) if p(x)), None)
def latest (p : α → Bool) (xs : List α) : Option α := xs.reverse.find? p

theorem latest_append (xs ys : List α) : latest p (xs ++ ys) = (latest p ys).or (latest p xs) := by
  rw [latest, List.reverse_append, List.find?_append, latest, latest]

theorem latest_eq_none {xs : List α} : latest p xs = none ↔ ∀ a ∈ xs, p a = false := by
  simp [latest]

theorem latest_concat {xs : List α} {a : α} (h : p a = true) : latest p (xs ++ [a]) = some a := by
  simp [latest, h]

theorem latest_map {β : Type} (f : β → α) (xs : List β) :
    latest p (xs.map f) = (latest (fun b => p (f b)) xs).map f := by
  rw [latest, ← List.map_reverse, List.find?_map]
  rfl

end Latest

section Sums

variable {τ M : Type} [AddCommGroup M]

def totalOf (es : List (τ × M)) : M := (es.map Prod.snd).sum

theorem totalOf_append (es fs : List (τ × M)) : totalOf (es ++ fs) = totalOf es + totalOf fs := by
  rw [totalOf, List.map_append, List.sum_append, ← totalOf, ← totalOf]

def partialSums : M → List (τ × M) → List (τ × M)
  | _, [] => []
  | a, (t, x) :: es => (t, a + x) :: partialSums (a + x) es

theorem partialSums_append (a : M) (es fs : List (τ × M)) :
    partialSums a (es ++ fs) = partialSums a es ++ partialSums (a + totalOf es) fs := by
  induction es generalizing a with
  | nil => rw [List.nil_append, totalOf, List.map_nil, List.sum_nil, add_zero]; rfl
  | cons e es ih =>
    obtain ⟨t,x⟩ := e
    rw [List.cons_append, partialSums, partialSums, ih, List.cons_append, totalOf, totalOf,
      List.map_cons, List.sum_cons, add_assoc]

theorem partialSums_concat (es : List (τ × M)) (t : τ) (x : M) :
    partialSums 0 (es ++ [(t, x)]) = partialSums 0 es ++ [(t, totalOf es + x)] := by
  rw [partialSums_append, zero_add]
  rfl

theorem times_partialSums (a : M) (es : List (τ × M)) :
    (partialSums a es).map Prod.fst = es.map Prod.fst := by
  induction es generalizing a with
  | nil => rfl
  | cons e es ih => rw [partialSums, List.map_cons, ih, List.map_cons]

theorem time_mem {a : M} {es : List (τ × M)} {s : τ × M} (h : s ∈ partialSums a es) :
    ∃ e ∈ es, e.1 = s.1 := by
  have htime : s.1 ∈ es.map Prod.fst := times_partialSums a es ▸ List.mem_map_of_mem h
  exact List.mem_map.mp htime

theorem partialSums_last (a : M) {es : List (τ × M)} (hne : es ≠ []) :
    ∃ front t, partialSums a es = front ++ [(t, a + totalOf es)] ∧ ∃ e ∈ es, e.1 = t := by
  rcases List.eq_nil_or_concat es with rfl | ⟨es,e,rfl⟩
  · exact absurd rfl hne
  · obtain ⟨t,x⟩ := e
    rw [List.concat_eq_append] at hne ⊢
    refine ⟨partialSums a es, t, ?_, (t, x), by simp, rfl⟩
    have hlast : totalOf [(t, x)] = x := by simp [totalOf]
    rw [partialSums_append, totalOf_append, hlast, ← add_assoc]
    rfl

theorem latest_partialSums {p : τ × M → Bool} {a : M} {es : List (τ × M)} (hne : es ≠ [])
    (hp : ∀ s ∈ partialSums a es, p s = true) :
    ∃ t, latest p (partialSums a es) = some (t, a + totalOf es) := by
  obtain ⟨front,t,hlast,-⟩ := partialSums_last a hne
  refine ⟨t, ?_⟩
  rw [hlast]
  exact latest_concat (hp _ (by simp [hlast]))

theorem filtered_time {p : τ → Prop} [DecidablePred p] {a : M} {es : List (τ × M)}
    {s : τ × M} (hs : s ∈ partialSums a (es.filter fun e => decide (p e.1))) : p s.1 := by
  obtain ⟨e,he,htime⟩ := time_mem hs
  exact htime ▸ of_decide_eq_true (List.mem_filter.mp he).2

end Sums

section Window

variable {τ M : Type} [LinearOrder τ] [AddCommGroup M]

-- Latest cumulative sample inside the window less the latest one before it.
def windowDelta (cutoff : τ) (samples : List (τ × M)) : M :=
  match latest (fun s => decide (cutoff ≤ s.1)) samples with
  | none => 0
  | some last =>
    match latest (fun s => decide (s.1 < cutoff)) samples with
    | none => last.2
    | some before => last.2 - before.2

variable {cutoff : τ} {es : List (τ × M)} {lost samples : List (τ × M)}

omit [AddCommGroup M] in
theorem split_at_cutoff (h : es.Pairwise fun a b => a.1 ≤ b.1) (cutoff : τ) :
    es.filter (fun e => decide (e.1 < cutoff)) ++ es.filter (fun e => decide (cutoff ≤ e.1)) = es := by
  have hnot : (fun e : τ × M => decide (cutoff ≤ e.1)) = fun e => !decide (e.1 < cutoff) := by
    funext e
    rw [← decide_not, decide_eq_decide, not_lt]
  rw [hnot]
  refine filter_append_filter_not (h.imp ?_)
  intro a b hab hb
  exact decide_eq_true (lt_of_le_of_lt hab (of_decide_eq_true hb))

theorem pairwise_times (a : M) (h : es.Pairwise fun a b => a.1 ≤ b.1) :
    (partialSums a es).Pairwise fun a b => a.1 ≤ b.1 := by
  have htimes : (es.map Prod.fst).Pairwise (· ≤ ·) := List.pairwise_map.mpr h
  rw [← times_partialSums a] at htimes
  exact List.pairwise_map.mp htimes

section Split

variable {front back : List (τ × M)}

omit [LinearOrder τ] [AddCommGroup M] in
theorem latest_or (hall : lost ++ samples = front ++ back) (p : τ × M → Bool) :
    (latest p samples).or (latest p lost) = (latest p back).or (latest p front) := by
  rw [← latest_append, ← latest_append, hall]

omit [AddCommGroup M] in
theorem latest_before (hall : lost ++ samples = front ++ back) (hback : ∀ s ∈ back, cutoff ≤ s.1)
    (hlost : ∀ s ∈ lost, ∃ s' ∈ samples, s.1 < cutoff → s'.1 < cutoff) :
    latest (fun s => decide (s.1 < cutoff)) samples =
      latest (fun s => decide (s.1 < cutoff)) front := by
  have hor := latest_or hall fun s => decide (s.1 < cutoff)
  have hnone : latest (fun s => decide (s.1 < cutoff)) back = none :=
    latest_eq_none.mpr fun s hs => decide_eq_false (not_lt.mpr (hback s hs))
  rw [hnone, Option.none_or] at hor
  cases hsamples : latest (fun s => decide (s.1 < cutoff)) samples with
  | some s => rw [← hor, hsamples, Option.some_or]
  | none =>
    rw [hsamples, Option.none_or] at hor
    rw [← hor, eq_comm, latest_eq_none]
    intro s hs
    obtain ⟨s',hs',himp⟩ := hlost s hs
    exact decide_eq_false fun hlt =>
      of_decide_eq_false (latest_eq_none.mp hsamples s' hs') (himp hlt)

omit [AddCommGroup M] in
theorem latest_inside (hall : lost ++ samples = front ++ back) (hfront : ∀ s ∈ front, s.1 < cutoff)
    (hlost : ∀ s ∈ lost, ∃ s' ∈ samples, s.1 < cutoff → s'.1 < cutoff)
    (hsorted : (lost ++ samples).Pairwise fun a b => a.1 ≤ b.1) :
    latest (fun s => decide (cutoff ≤ s.1)) samples =
      latest (fun s => decide (cutoff ≤ s.1)) back := by
  have hor := latest_or hall fun s => decide (cutoff ≤ s.1)
  have hnone : latest (fun s => decide (cutoff ≤ s.1)) front = none :=
    latest_eq_none.mpr fun s hs => decide_eq_false (not_le.mpr (hfront s hs))
  rw [hnone, Option.or_none] at hor
  cases hsamples : latest (fun s => decide (cutoff ≤ s.1)) samples with
  | some s => rw [← hor, hsamples, Option.some_or]
  | none =>
    rw [hsamples, Option.none_or] at hor
    rw [← hor, eq_comm, latest_eq_none]
    intro s hs
    obtain ⟨s',hs',-⟩ := hlost s hs
    have hle := (List.pairwise_append.mp hsorted).2.2 s hs s' hs'
    exact decide_eq_false fun hcut =>
      of_decide_eq_false (latest_eq_none.mp hsamples s' hs') (hcut.trans hle)

end Split

theorem windowDelta_eq (hsorted : es.Pairwise fun a b => a.1 ≤ b.1)
    (hsplit : partialSums 0 es = lost ++ samples)
    (hlost : ∀ s ∈ lost, ∃ s' ∈ samples, s.1 < cutoff → s'.1 < cutoff) :
    windowDelta cutoff samples = totalOf (es.filter fun e => decide (cutoff ≤ e.1)) := by
  set before := es.filter fun e => decide (e.1 < cutoff)
  set inside := es.filter fun e => decide (cutoff ≤ e.1)
  have hall : lost ++ samples = partialSums 0 before ++ partialSums (totalOf before) inside := by
    rw [← hsplit, ← split_at_cutoff hsorted cutoff, partialSums_append, zero_add]
  have hfront : ∀ s ∈ partialSums 0 before, s.1 < cutoff := fun s hs =>
    filtered_time (p := fun t => t < cutoff) hs
  have hback : ∀ s ∈ partialSums (totalOf before) inside, cutoff ≤ s.1 := fun s hs =>
    filtered_time (p := fun t => cutoff ≤ t) hs
  have htimes := hsplit ▸ pairwise_times 0 hsorted
  rw [windowDelta, latest_inside hall hfront hlost htimes, latest_before hall hback hlost]
  by_cases hinside : inside = []
  · rw [hinside]
    rfl
  obtain ⟨t,ht⟩ := latest_partialSums hinside fun s hs => decide_eq_true (hback s hs)
  rw [ht]
  by_cases hbefore : before = []
  · rw [hbefore]
    exact zero_add _
  obtain ⟨t',ht'⟩ := latest_partialSums hbefore fun s hs => decide_eq_true (hfront s hs)
  rw [ht', zero_add]
  exact add_sub_cancel_left _ _

end Window

end PicoSentry.Foundation
