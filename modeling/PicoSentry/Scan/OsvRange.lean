import Mathlib.Data.List.Pairwise
import Mathlib.Order.Lattice

namespace PicoSentry.Scan.Osv

inductive EventKind where
  | introduced
  | fixed
  | lastAffected
  deriving DecidableEq

section Bounds

variable {α : Type}

abbrev Events (α : Type) := List (EventKind × α)

def consecutive (events : Events α) : List ((EventKind × α) × (EventKind × α)) :=
  events.zip events.tail

def bounds (kind : EventKind) (events : Events α) : List α :=
  (events.filter fun e => decide (e.1 = kind)).map Prod.snd

theorem mem_bounds {kind : EventKind} {events : Events α} {x : α} :
    x ∈ bounds kind events ↔ (kind, x) ∈ events := by
  simp only [bounds, List.mem_map, List.mem_filter, decide_eq_true_eq, Prod.exists]
  constructor
  · rintro ⟨k,y,⟨hmem,rfl⟩,rfl⟩
    exact hmem
  · intro hmem
    exact ⟨kind, x, ⟨hmem, rfl⟩, rfl⟩

theorem bounds_ne_nil {kind : EventKind} {events : Events α} {x : α} (h : (kind, x) ∈ events) :
    bounds kind events ≠ [] := List.ne_nil_of_mem (mem_bounds.mpr h)

theorem bounds_concat (kind : EventKind) (events : Events α) (e : EventKind × α) :
    bounds kind (events ++ [e]) = bounds kind events ++ if e.1 = kind then [e.2] else [] := by
  rw [bounds, List.filter_append, List.map_append]
  split
  · next h => simp [bounds, h]
  · next h => simp [bounds, h]

theorem mem_of_consecutive {events : Events α} {e f : EventKind × α}
    (h : (e, f) ∈ consecutive events) : e ∈ events ∧ f ∈ events := by
  obtain ⟨he,hf⟩ := List.of_mem_zip h
  exact ⟨he, List.mem_of_mem_tail hf⟩

end Bounds

section Range

variable {α : Type} [LinearOrder α]

def Within (t : α) : (EventKind × α) × (EventKind × α) → Prop
  | ((.introduced, lo), (.fixed, hi)) => lo ≤ t ∧ t < hi
  | ((.introduced, lo), (.lastAffected, hi)) => lo ≤ t ∧ t ≤ hi
  | _ => False

instance decidableWithin (t : α) : ∀ p, Decidable (Within t p)
  | ((.introduced, lo), (.fixed, hi)) => inferInstanceAs (Decidable (lo ≤ t ∧ t < hi))
  | ((.introduced, lo), (.lastAffected, hi)) => inferInstanceAs (Decidable (lo ≤ t ∧ t ≤ hi))
  | ((.introduced, _), (.introduced, _)) => isFalse id
  | ((.fixed, _), _) => isFalse id
  | ((.lastAffected, _), _) => isFalse id

def InRange (events : Events α) (t : α) : Prop := ∃ p ∈ consecutive events, Within t p

instance decidableInRange (events : Events α) (t : α) : Decidable (InRange events t) :=
  inferInstanceAs (Decidable (∃ p ∈ consecutive events, Within t p))

def Ordered (events : Events α) : Prop := events.Pairwise fun e f => e.2 ≤ f.2

instance decidableOrdered (events : Events α) : Decidable (Ordered events) :=
  inferInstanceAs (Decidable (events.Pairwise fun e f => e.2 ≤ f.2))

structure Spans (events : Events α) (t : α) : Prop where
  opened : bounds .introduced events ≠ []
  above : ∀ lo ∈ bounds .introduced events, lo ≤ t
  below : bounds .fixed events ≠ [] → ∃ hi ∈ bounds .fixed events, t < hi
  upTo : bounds .fixed events = [] → bounds .lastAffected events ≠ [] →
    ∃ hi ∈ bounds .lastAffected events, t ≤ hi

def Keeps (events : Events α) : (EventKind × α) × (EventKind × α) → Prop
  | ((.introduced, lo), (.fixed, hi)) => lo < hi → ∀ lo' ∈ bounds .introduced events, lo' ≤ lo
  | ((.introduced, lo), (.lastAffected, hi)) =>
    (∀ lo' ∈ bounds .introduced events, lo' ≤ lo) ∧
      (bounds .fixed events ≠ [] → ∃ hi' ∈ bounds .fixed events, hi < hi')
  | _ => True

def KeepsIntervals (events : Events α) : Prop := ∀ p ∈ consecutive events, Keeps events p

theorem Ordered.le_of_consecutive {events : Events α} (h : Ordered events) {e f : EventKind × α}
    (hef : (e, f) ∈ consecutive events) : e.2 ≤ f.2 := by
  induction events with
  | nil => simp [consecutive] at hef
  | cons x events ih =>
    obtain ⟨hx,hrest⟩ := List.pairwise_cons.mp h
    cases events with
    | nil => simp [consecutive] at hef
    | cons y events =>
      simp only [consecutive, List.tail_cons, List.zip_cons_cons, List.mem_cons,
        Prod.mk.injEq] at hef
      rcases hef with ⟨rfl,rfl⟩ | hef
      · exact hx f List.mem_cons_self
      · exact ih hrest hef

theorem KeepsIntervals.spans {events : Events α} (h : KeepsIntervals events) {t : α}
    (ht : InRange events t) : Spans events t := by
  obtain ⟨⟨⟨k,lo⟩,⟨k',hi⟩⟩,hp,hw⟩ := ht
  obtain ⟨hlo,hhi⟩ := mem_of_consecutive hp
  have hk := h _ hp
  cases k with
  | introduced =>
    cases k' with
    | introduced => exact hw.elim
    | fixed =>
      obtain ⟨hle,hlt⟩ := hw
      refine ⟨bounds_ne_nil hlo, fun lo' hmem => ?_, fun _ => ⟨hi, mem_bounds.mpr hhi, hlt⟩, ?_⟩
      · exact le_trans (hk (lt_of_le_of_lt hle hlt) lo' hmem) hle
      · intro hnone
        exact absurd hnone (bounds_ne_nil hhi)
    | lastAffected =>
      obtain ⟨hle,hlt⟩ := hw
      refine ⟨bounds_ne_nil hlo, fun lo' hmem => le_trans (hk.1 lo' hmem) hle, fun hne => ?_, ?_⟩
      · obtain ⟨hi',hmem,hlt'⟩ := hk.2 hne
        exact ⟨hi', hmem, lt_of_le_of_lt hlt hlt'⟩
      · intro _ _
        exact ⟨hi, mem_bounds.mpr hhi, hlt⟩
  | fixed => exact hw.elim
  | lastAffected => exact hw.elim

theorem Ordered.keepsIntervals {events : Events α} (ho : Ordered events)
    (h : ∀ e ∈ events, InRange events e.2 → Spans events e.2) : KeepsIntervals events := by
  rintro ⟨⟨k,lo⟩,⟨k',hi⟩⟩ hp
  obtain ⟨hlo,hhi⟩ := mem_of_consecutive hp
  have hle := ho.le_of_consecutive hp
  cases k with
  | introduced =>
    cases k' with
    | introduced => trivial
    | fixed =>
      intro hlt
      exact (h _ hlo ⟨_, hp, le_rfl, hlt⟩).above
    | lastAffected =>
      exact ⟨(h _ hlo ⟨_, hp, le_rfl, hle⟩).above, (h _ hhi ⟨_, hp, hle, le_rfl⟩).below⟩
  | fixed => trivial
  | lastAffected => trivial

end Range

end PicoSentry.Scan.Osv
