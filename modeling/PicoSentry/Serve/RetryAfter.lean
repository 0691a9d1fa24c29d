import Mathlib.Tactic.Linarith
import PicoSentry.Foundation.Recent
import PicoSentry.Serve.RateLimitMerge

namespace PicoSentry.Serve.RetryAfter

open Foundation
open Foundation.Recent
open RateLimit

-- The requests of all clients and the ticks of the background thread.
inductive Event where
  | request (k : Key) (now : ℚ)
  | evict (now : ℚ)

def Event.spares (k : Key) : Event → Prop
  | .request k' _ => k' ≠ k
  | .evict _ => True

def Event.run (cfg : Config) (w : Worker) : Event → Worker
  | .request k now => (recordAndCheck cfg k now w).1
  | .evict now => evictIfNeeded cfg now w

def find (w : Worker) (k : Key) : Option (List ℚ) := (w.counters k.1).get? k.2

section Buckets

variable {cfg : Config} {now : ℚ} {k : Key} {w : Worker}

theorem bucket_eq (w : Worker) (k : Key) : bucket w.counters k = (find w k).getD [] := rfl

theorem find_evictIfNeeded (cfg : Config) (now : ℚ) (w : Worker) (k : Key) :
    find (evictIfNeeded cfg now w) k = none ∨ find (evictIfNeeded cfg now w) k = find w k := by
  rw [evictIfNeeded]
  split
  · exact .inr rfl
  · by_cases hkept : ((evictBuckets cfg now (w.counters k.1)).get? k.2).isSome
    · exact .inr (get?_evictBuckets hkept)
    · exact .inl (Option.not_isSome_iff_eq_none.mp hkept)

theorem find_recordAndCheck (cfg : Config) (k k' : Key) (now : ℚ) (w : Worker) :
    find (recordAndCheck cfg k now w).1 k' =
      if k = k' then some (cleaned cfg now (bucket (evictIfNeeded cfg now w).counters k) ++ [now])
      else find (evictIfNeeded cfg now w) k' := by
  rw [recordAndCheck]
  split
  · exact get?_setBucket _ k k' _
  · exact get?_setBucket _ k k' _

theorem find_run {e : Event} (h : e.spares k) :
    find (e.run cfg w) k = none ∨ find (e.run cfg w) k = find w k := by
  cases e with
  | request k' now =>
    rw [Event.run, find_recordAndCheck, if_neg h]
    exact find_evictIfNeeded cfg now w k
  | evict now => exact find_evictIfNeeded cfg now w k

theorem find_runs {events : List Event} (h : ∀ e ∈ events, e.spares k) :
    find (events.foldl (Event.run cfg) w) k = none ∨
      find (events.foldl (Event.run cfg) w) k = find w k := by
  induction events generalizing w with
  | nil => exact .inr rfl
  | cons e events ih =>
    have hone := @find_run cfg k w e (h e List.mem_cons_self)
    rcases ih (w := e.run cfg w) (fun e' he' => h e' (List.mem_cons_of_mem e he')) with hrest | hrest
    · exact .inl hrest
    · rw [List.foldl_cons, hrest]
      exact hone

theorem cleaned_eq (cfg : Config) (now : ℚ) (times : List ℚ) :
    cleaned cfg now times = since (now - cfg.window) times := by
  refine List.filter_congr ?_
  intro t _
  simp only [decide_eq_decide]
  constructor <;> intro h <;> linarith

end Buckets

-- The first instant after the oldest entry that lies whole seconds from now.
def expiry (now oldest : ℚ) : ℚ := now + ⌊oldest - now⌋ + 1

def entries (cfg : Config) (k : Key) (now : ℚ) (w : Worker) : List ℚ :=
  cleaned cfg now (bucket w.counters k) ++ [now]

def FreesUp (cfg : Config) (k : Key) (now : ℚ) (w : Worker) : Prop :=
  (since (expiry now ((entries cfg k now w).headD now)) (entries cfg k now w)).length <
    cfg.maxRequests k.1

section Hint

variable {cfg : Config} {now : ℚ} {k : Key} {w : Worker} {r : Int}

theorem truncate_of_nonneg {x : ℚ} (h : 0 ≤ x) : truncate x = ⌊x⌋ := if_pos h

theorem retryAfter_eq {oldest : ℚ} (rest : List ℚ) (h : now - oldest < cfg.window) :
    retryAfter cfg now (oldest :: rest) = cfg.window + 1 + ⌊oldest - now⌋ := by
  have hshift : (cfg.window : ℚ) - (now - oldest) + 1 = oldest - now + (cfg.window + 1 : Int) := by
    push_cast
    ring
  have hpos : (1 : ℚ) ≤ oldest - now + (cfg.window + 1 : Int) := by
    push_cast
    linarith
  have hfloor : 1 ≤ ⌊oldest - now + ((cfg.window + 1 : Int) : ℚ)⌋ := Int.le_floor.mpr (by simpa using hpos)
  rw [retryAfter, List.head?_cons, Option.getD_some, hshift,
    truncate_of_nonneg (by linarith), max_eq_left hfloor, Int.floor_add_intCast]
  ring

theorem retryAfter_cutoff {oldest : ℚ} (rest : List ℚ) (h : now - oldest < cfg.window) :
    now + retryAfter cfg now (oldest :: rest) - cfg.window = expiry now oldest := by
  rw [retryAfter_eq rest h, expiry]
  push_cast
  ring

theorem rejected_iff (cfg : Config) (k : Key) (now : ℚ) (w : Worker) :
    (recordAndCheck cfg k now w).2.1 = false ↔
      (cleaned cfg now (bucket (evictIfNeeded cfg now w).counters k)).length < cfg.maxRequests k.1 := by
  simp only [recordAndCheck]
  split
  · next h => exact iff_of_false (by simp) (by omega)
  · next h => exact iff_of_true rfl (by omega)

theorem hint_of_rejected (h : (recordAndCheck cfg k now w).2 = (true, r)) :
    cfg.maxRequests k.1 ≤
        (cleaned cfg now (bucket (evictIfNeeded cfg now w).counters k)).length ∧
      r = retryAfter cfg now
        (cleaned cfg now (bucket (evictIfNeeded cfg now w).counters k) ++ [now]) := by
  simp only [recordAndCheck] at h
  split at h
  · next hfull =>
    cases h
    exact ⟨by omega, rfl⟩
  · cases h

theorem find_later (cfg : Config) (later : ℚ) (w : Worker) (now : ℚ) {events : List Event}
    (h : ∀ e ∈ events, e.spares k) :
    find (evictIfNeeded cfg later (events.foldl (Event.run cfg) (recordAndCheck cfg k now w).1)) k =
        none ∨
      find (evictIfNeeded cfg later (events.foldl (Event.run cfg) (recordAndCheck cfg k now w).1)) k =
        some (cleaned cfg now (bucket (evictIfNeeded cfg now w).counters k) ++ [now]) := by
  have hruns := @find_runs cfg k (recordAndCheck cfg k now w).1 events h
  rw [find_recordAndCheck, if_pos rfl] at hruns
  rcases find_evictIfNeeded cfg later
    (events.foldl (Event.run cfg) (recordAndCheck cfg k now w).1) k with hnone | hsame
  · exact .inl hnone
  · rw [hsame]
    exact hruns

end Hint

theorem retry_after_honest_iff (cfg : Config) (k : Key) (w : Worker) (now : ℚ) (r : Int)
    (events : List Event) (hrejected : (recordAndCheck cfg k now w).2 = (true, r))
    (hspares : ∀ e ∈ events, e.spares k) :
    (recordAndCheck cfg k (now + r)
        (events.foldl (Event.run cfg) (recordAndCheck cfg k now w).1)).2.1 = false ↔
      FreesUp cfg k now w ∨ 0 < cfg.maxRequests k.1 ∧
        find (evictIfNeeded cfg (now + r)
          (events.foldl (Event.run cfg) (recordAndCheck cfg k now w).1)) k = none := by
  obtain ⟨hfull,rfl⟩ := hint_of_rejected hrejected
  rw [rejected_iff]
  rcases Nat.eq_zero_or_pos (cfg.maxRequests k.1) with hzero | hpos
  · simp [hzero, FreesUp]
  · have hkept : bucket (evictIfNeeded cfg now w).counters k = bucket w.counters k := by
      rcases find_evictIfNeeded cfg now w k with hnone | hsame
      · rw [bucket_eq, hnone] at hfull
        exact absurd hfull (by simpa [cleaned] using hpos.ne')
      · rw [bucket_eq, hsame, bucket_eq]
    rw [hkept] at hfull ⊢
    obtain ⟨oldest,rest,hcons⟩ := List.exists_cons_of_length_pos (hpos.trans_le hfull)
    have hlive : now - oldest < cfg.window := by
      have hmem : oldest ∈ cleaned cfg now (bucket w.counters k) := by simp [hcons]
      simpa [cleaned] using (List.mem_filter.mp hmem).2
    have hcutoff := retryAfter_cutoff (rest ++ [now]) hlive
    have hentries : entries cfg k now w = oldest :: (rest ++ [now]) := by
      rw [entries, hcons, List.cons_append]
    have hdef : cleaned cfg now (bucket w.counters k) ++ [now] = entries cfg k now w := rfl
    have hlater := find_later cfg (now + retryAfter cfg now (entries cfg k now w)) w now hspares
    rw [hkept, hdef] at hlater
    rw [hdef, FreesUp, cleaned_eq, bucket_eq]
    rcases hlater with hnone | hsome
    · refine iff_of_true ?_ (.inr ⟨hpos, hnone⟩)
      rwa [hnone, Option.getD_none, since_nil, List.length_nil]
    · have hnever : some (entries cfg k now w) ≠ none := Option.some_ne_none _
      rw [hsome, Option.getD_some, hentries, hcutoff, List.headD_cons, ← hentries]
      exact (or_iff_left fun h => hnever h.2).symm

def twoAMinute : Config where
  window := 60
  maxBuckets := 100000
  maxRequests := fun _ => 2

def client : Key := (.ip, "203.0.113.7".toList)

def idle : Worker := ⟨fun _ => [], 0, .idle⟩

def after (times : List ℚ) : Worker :=
  times.foldl (fun w now => (recordAndCheck twoAMinute client now w).1) idle

theorem retry_after_honest_iff_close_pair :
    (recordAndCheck twoAMinute client 20 (after [0, 1 / 2])).2 = (true, 41) ∧
      (recordAndCheck twoAMinute client (20 + (41 : Int)) (([] : List Event).foldl (Event.run twoAMinute)
        (recordAndCheck twoAMinute client 20 (after [0, 1 / 2])).1)).2.1 = false := by
  have hrejected : (recordAndCheck twoAMinute client 20 (after [0, 1 / 2])).2 = (true, 41) := by
    decide +kernel
  refine ⟨hrejected, ?_⟩
  refine (retry_after_honest_iff twoAMinute client _ 20 41 [] hrejected
    fun _ he => absurd he List.not_mem_nil).mpr (.inl ?_)
  rw [FreesUp]
  decide +kernel

theorem hint_too_early :
    (recordAndCheck twoAMinute client 20 (after [0, 10])).2 = (true, 41) ∧
      (recordAndCheck twoAMinute client 61
        (recordAndCheck twoAMinute client 20 (after [0, 10])).1).2.1 = true := by
  decide +kernel

end PicoSentry.Serve.RetryAfter
