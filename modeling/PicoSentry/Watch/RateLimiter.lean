import Mathlib.Algebra.Order.Ring.Rat
import Mathlib.Tactic.Linarith
import PicoSentry.Foundation.Dict
import PicoSentry.Foundation.Recent
import PicoSentry.Foundation.Text

namespace PicoSentry.Watch.RateLimiter

open Foundation
open Foundation.Recent

structure Config where
  maxRequests : Nat
  windowSeconds : Int
  maxClients : Nat

structure Limiter where
  clients : Dict Str (List ℚ)
  lastEviction : ℚ
  deriving DecidableEq

namespace Limiter

def timestamps (l : Limiter) (client : Str) : List ℚ := (l.clients.get? client).getD []

def isStale (cutoff : ℚ) (timestamps : List ℚ) : Bool :=
  match timestamps.getLast? with
  | none => true
  | some last => last < cutoff

def evictStale (cfg : Config) (now : ℚ) (l : Limiter) : Limiter :=
  { l with clients := l.clients.filter fun p => !isStale (now - cfg.windowSeconds * 2) p.2 }

def evict (cfg : Config) (now : ℚ) (l : Limiter) : Limiter :=
  { evictStale cfg now l with lastEviction := now }

def setTimestamps (l : Limiter) (client : Str) (timestamps : List ℚ) : Limiter :=
  { l with clients := l.clients.set client timestamps }

def checkWindow (cfg : Config) (now : ℚ) (client : Str) (l : Limiter) : Limiter × Bool :=
  let cutoff := now - cfg.windowSeconds
  let l := if cfg.windowSeconds < now - l.lastEviction then l.evict cfg now else l
  let kept := since cutoff (l.timestamps client)
  if cfg.maxRequests ≤ kept.length then (l.setTimestamps client kept, false)
  else (l.setTimestamps client (kept ++ [now]), true)

def isAllowed (cfg : Config) (now : ℚ) (client : Str) (l : Limiter) : Limiter × Bool :=
  if client ∉ l.clients.keys ∧ cfg.maxClients ≤ l.clients.length then
    let l := l.evict cfg now
    if cfg.maxClients ≤ l.clients.length then (l, false) else checkWindow cfg now client l
  else checkWindow cfg now client l

end Limiter

structure Request where
  client : Str
  time : ℚ
  deriving DecidableEq

abbrev History := Limiter × List Request

def History.next (cfg : Config) (h : History) (r : Request) : History :=
  let answer := h.1.isAllowed cfg r.time r.client
  (answer.1, if answer.2 then h.2 ++ [r] else h.2)

def run (cfg : Config) (start : ℚ) (requests : List Request) : History :=
  requests.foldl (History.next cfg) (⟨[], start⟩, [])

def timesOf (client : Str) (allowed : List Request) : List ℚ :=
  (allowed.filter fun r => r.client = client).map Request.time

section Window

variable {cfg : Config} {now : ℚ} {client : Str} {l : Limiter} {allowed : List Request}

-- From the window of now on, the table and the allowed requests cannot be told apart.
structure Exact (cfg : Config) (now : ℚ) (allowed : List Request) (l : Limiter) : Prop where
  keys : l.clients.keys.Nodup
  size : l.clients.length ≤ cfg.maxClients
  sorted : ∀ client, (l.timestamps client).Pairwise (· ≤ ·)
  past : ∀ client, ∀ t ∈ l.timestamps client, t ≤ now
  allowedPast : ∀ r ∈ allowed, r.time ≤ now
  agree : ∀ client, Agree (now - cfg.windowSeconds) (l.timestamps client) (timesOf client allowed)

theorem Exact.mono {later : ℚ} (h : Exact cfg now allowed l) (hle : now ≤ later) :
    Exact cfg later allowed l where
  keys := h.keys
  size := h.size
  sorted := h.sorted
  past := fun client t ht => (h.past client t ht).trans hle
  allowedPast := fun r hr => (h.allowedPast r hr).trans hle
  agree := fun client => (h.agree client).mono (by linarith)

theorem get?_evict (hkeys : l.clients.keys.Nodup) (cfg : Config) (now : ℚ) (client : Str) :
    (l.evict cfg now).clients.get? client =
      (l.clients.get? client).filter fun times =>
        !Limiter.isStale (now - cfg.windowSeconds * 2) times := by
  cases hget : l.clients.get? client with
  | none =>
    have hnot := Dict.not_mem_keys_iff.mpr hget
    refine Dict.not_mem_keys_iff.mp ?_
    intro hmem
    exact hnot ((List.filter_sublist.map Prod.fst).mem hmem)
  | some times =>
    by_cases hstale : Limiter.isStale (now - cfg.windowSeconds * 2) times
    · simp only [Option.filter_some, hstale, Bool.not_true, Bool.false_eq_true, if_false]
      refine Dict.not_mem_keys_iff.mp ?_
      intro hmem
      obtain ⟨⟨c,times'⟩,hentry,rfl⟩ := List.mem_map.mp hmem
      obtain ⟨hentry,hfresh⟩ := List.mem_filter.mp hentry
      have hsame := Dict.get?_of_mem hkeys hentry
      simp only [hget, Option.some.injEq] at hsame
      subst hsame
      simp [hstale] at hfresh
    · simp only [Option.filter_some, hstale, Bool.not_false, if_true]
      exact Dict.get?_filter hget (by simp [hstale])

theorem Exact.evict (h : Exact cfg now allowed l) : Exact cfg now allowed (l.evict cfg now) := by
  have htimes : ∀ client, (l.evict cfg now).timestamps client = l.timestamps client ∨
      (l.evict cfg now).timestamps client = [] ∧
        ∀ t ∈ l.timestamps client, t ≤ now - cfg.windowSeconds := by
    intro client
    simp only [Limiter.timestamps, get?_evict h.keys]
    cases hget : l.clients.get? client with
    | none => exact .inl rfl
    | some times =>
      by_cases hstale : Limiter.isStale (now - cfg.windowSeconds * 2) times
      · refine .inr ⟨by simp [Option.filter_some, hstale], ?_⟩
        have hpast := h.past client
        have hsorted := h.sorted client
        simp only [Limiter.timestamps, hget, Option.getD_some] at hpast hsorted
        rw [Option.getD_some]
        refine le_of_le_getLast hsorted ?_
        intro last hlast
        have hle : last ≤ now := hpast last (List.mem_of_getLast? hlast)
        simp only [Limiter.isStale, Option.mem_def.mp hlast, decide_eq_true_eq] at hstale
        rcases le_total 0 (cfg.windowSeconds : ℚ) with hwindow | hwindow <;> linarith
      · exact .inl (by simp [Option.filter_some, hstale])
  refine ⟨(List.filter_sublist.map Prod.fst).nodup h.keys, ?_, ?_, ?_, h.allowedPast, ?_⟩
  · exact (List.length_filter_le _ _).trans h.size
  · intro client
    rcases htimes client with heq | ⟨heq,-⟩
    · simpa [heq] using h.sorted client
    · simp [heq]
  · intro client
    rcases htimes client with heq | ⟨heq,-⟩
    · simpa [heq] using h.past client
    · simp [heq]
  · intro client
    rcases htimes client with heq | ⟨heq,hold⟩
    · simpa [heq] using h.agree client
    · simpa [heq] using (h.agree client).clear hold

theorem timestamps_set (l : Limiter) (client client' : Str) (times : List ℚ) :
    (l.setTimestamps client times).timestamps client' =
      if client = client' then times else l.timestamps client' := by
  simp only [Limiter.setTimestamps, Limiter.timestamps, Dict.get?_set]
  split <;> rfl

theorem timesOf_concat (client : Str) (allowed : List Request) (r : Request) :
    timesOf client (allowed ++ [r]) =
      timesOf client allowed ++ if r.client = client then [r.time] else [] := by
  by_cases h : r.client = client <;> simp [timesOf, h]

def Fits (cfg : Config) (client : Str) (l : Limiter) : Prop :=
  client ∈ l.clients.keys ∨ l.clients.length < cfg.maxClients

theorem length_set_le (h : Exact cfg now allowed l) (hfits : Fits cfg client l) (times : List ℚ) :
    (l.setTimestamps client times).clients.length ≤ cfg.maxClients := by
  rw [Limiter.setTimestamps, Dict.length_set]
  have hsize := h.size
  split
  · exact hsize
  · next hnew => exact hfits.resolve_left hnew

theorem Exact.prune (h : Exact cfg now allowed l) (hfits : Fits cfg client l) :
    Exact cfg now allowed
      (l.setTimestamps client (since (now - cfg.windowSeconds) (l.timestamps client))) := by
  refine ⟨Dict.keys_set_nodup h.keys _ _, length_set_le h hfits _, ?_, ?_, h.allowedPast, ?_⟩
  · intro client'
    rw [timestamps_set]
    split
    · exact (h.sorted client).filter _
    · exact h.sorted client'
  · intro client' t ht
    rw [timestamps_set] at ht
    split at ht
    · exact h.past client t (List.mem_of_mem_filter ht)
    · exact h.past client' t ht
  · intro client'
    rw [timestamps_set]
    split
    · next heq =>
      subst heq
      exact (h.agree client).prune le_rfl
    · exact h.agree client'

theorem Exact.record (h : Exact cfg now allowed l) (hfits : Fits cfg client l) :
    Exact cfg now (allowed ++ [⟨client, now⟩]) (l.setTimestamps client
      (since (now - cfg.windowSeconds) (l.timestamps client) ++ [now])) := by
  have hpruned := h.prune hfits
  refine ⟨Dict.keys_set_nodup h.keys _ _, length_set_le h hfits _, ?_, ?_, ?_, ?_⟩
  · intro client'
    rw [timestamps_set]
    split
    · have hpast : ∀ t ∈ since (now - cfg.windowSeconds) (l.timestamps client), t ≤ now :=
        fun t ht => h.past client t (List.mem_of_mem_filter ht)
      exact List.pairwise_append.mpr
        ⟨(h.sorted client).filter _, List.pairwise_singleton _ _, by simpa using hpast⟩
    · exact h.sorted client'
  · intro client' t ht
    rw [timestamps_set] at ht
    split at ht
    · rcases List.mem_append.mp ht with ht | ht
      · exact h.past client t (List.mem_of_mem_filter ht)
      · exact (List.mem_singleton.mp ht).le
    · exact h.past client' t ht
  · intro r hr
    rcases List.mem_append.mp hr with hr | hr
    · exact h.allowedPast r hr
    · rw [List.mem_singleton.mp hr]
  · intro client'
    rw [timestamps_set, timesOf_concat]
    split
    · next heq =>
      subst heq
      exact ((h.agree client).prune le_rfl).append _
    · simpa using h.agree client'

theorem count_since (h : Exact cfg now allowed l) (client : Str) :
    (since (now - cfg.windowSeconds) (l.timestamps client)).length =
      (allowed.filter fun r =>
        r.client = client ∧ now - cfg.windowSeconds < r.time ∧ r.time ≤ now).length := by
  have hle : ∀ r ∈ allowed, (decide (now - cfg.windowSeconds < r.time) && decide (r.client = client)) =
      decide (r.client = client ∧ now - cfg.windowSeconds < r.time ∧ r.time ≤ now) := by
    intro r hr
    simp [h.allowedPast r hr, Bool.and_comm]
  have hagree : since (now - cfg.windowSeconds) (l.timestamps client) =
      since (now - cfg.windowSeconds) (timesOf client allowed) := h.agree client
  rw [hagree, timesOf, since, List.filter_map, List.length_map, List.filter_filter]
  exact congrArg List.length (List.filter_congr hle)

theorem Fits.evict (h : Exact cfg now allowed l) (hfits : Fits cfg client l) :
    Fits cfg client (l.evict cfg now) := by
  have hsize := h.size
  rcases hfits with hmem | hroom
  · by_cases hkept : client ∈ (l.evict cfg now).clients.keys
    · exact .inl hkept
    · obtain ⟨entry,hentry,rfl⟩ := List.mem_map.mp hmem
      have hstale : ¬ (!Limiter.isStale (now - cfg.windowSeconds * 2) entry.2) = true :=
        fun hfresh => hkept (List.mem_map_of_mem (List.mem_filter.mpr ⟨hentry, hfresh⟩))
      have hless : (l.evict cfg now).clients.length < l.clients.length :=
        (List.length_filter_lt_length_iff_exists
          (p := fun p : Str × List ℚ =>
            !Limiter.isStale (now - cfg.windowSeconds * 2) p.2)).mpr
          ⟨entry, hentry, hstale⟩
      exact .inr (hless.trans_le hsize)
  · exact .inr ((List.length_filter_le _ _).trans_lt hroom)

def inWindow (cfg : Config) (now : ℚ) (client : Str) (allowed : List Request) : List Request :=
  allowed.filter fun r => r.client = client ∧ now - cfg.windowSeconds < r.time ∧ r.time ≤ now

def after (allowed : List Request) (r : Request) (answer : Bool) : List Request :=
  if answer then allowed ++ [r] else allowed

theorem checkWindow_spec (h : Exact cfg now allowed l) (hfits : Fits cfg client l) :
    ((l.checkWindow cfg now client).2 = true ↔
      (inWindow cfg now client allowed).length < cfg.maxRequests) ∧
    Exact cfg now (after allowed ⟨client, now⟩ (l.checkWindow cfg now client).2)
      (l.checkWindow cfg now client).1 := by
  have hperiodic : ∃ l', Exact cfg now allowed l' ∧ Fits cfg client l' ∧
      l' = if cfg.windowSeconds < now - l.lastEviction then l.evict cfg now else l := by
    split
    · exact ⟨_, h.evict, hfits.evict h, rfl⟩
    · exact ⟨_, h, hfits, rfl⟩
  obtain ⟨l',h',hfits',hl'⟩ := hperiodic
  have hcount := count_since h' client
  simp only [Limiter.checkWindow, ← hl', inWindow]
  split
  · next hfull =>
    refine ⟨iff_of_false Bool.false_ne_true (by omega), ?_⟩
    exact h'.prune hfits'
  · next hroom =>
    refine ⟨iff_of_true rfl (by omega), ?_⟩
    exact h'.record hfits'

theorem isAllowed_spec (h : Exact cfg now allowed l) (client : Str) :
    ((l.isAllowed cfg now client).2 = true ↔
      (inWindow cfg now client allowed).length < cfg.maxRequests ∧
        (client ∈ l.clients.keys ∨ (l.evictStale cfg now).clients.length < cfg.maxClients)) ∧
    Exact cfg now (after allowed ⟨client, now⟩ (l.isAllowed cfg now client).2)
      (l.isAllowed cfg now client).1 := by
  rw [Limiter.isAllowed]
  split
  · next hfull =>
    have hsame : (l.evict cfg now).clients.length = (l.evictStale cfg now).clients.length := rfl
    dsimp only
    split
    · next hstill =>
      refine ⟨iff_of_false Bool.false_ne_true ?_, h.evict⟩
      rintro ⟨-,hmem | hroom⟩
      · exact hfull.1 hmem
      · omega
    · next hroom =>
      have hfits : Fits cfg client (l.evict cfg now) := .inr (by omega)
      have hspec := checkWindow_spec h.evict hfits
      exact ⟨by rw [hspec.1, and_iff_left (.inr (by omega))], hspec.2⟩
  · next hopen =>
    have hfits : Fits cfg client l := by
      by_contra hnot
      rw [Fits, not_or, not_lt] at hnot
      exact hopen hnot
    have hroom : client ∈ l.clients.keys ∨
        (l.evictStale cfg now).clients.length < cfg.maxClients :=
      hfits.imp_right (List.length_filter_le _ _).trans_lt
    have hspec := checkWindow_spec h hfits
    exact ⟨by rw [hspec.1, and_iff_left hroom], hspec.2⟩

end Window

section Run

variable {cfg : Config} {start : ℚ}

theorem run_concat (cfg : Config) (start : ℚ) (requests : List Request) (r : Request) :
    run cfg start (requests ++ [r]) = (run cfg start requests).next cfg r := by
  simp [run]

theorem exact_run {requests : List Request} {now : ℚ}
    (hsorted : (requests.map Request.time).Pairwise (· ≤ ·)) (hnow : ∀ r ∈ requests, r.time ≤ now) :
    Exact cfg now (run cfg start requests).2 (run cfg start requests).1 := by
  induction requests using List.reverseRecOn generalizing now with
  | nil => exact ⟨List.nodup_nil, Nat.zero_le _, by simp [run, Limiter.timestamps, Dict.get?],
      by simp [run, Limiter.timestamps, Dict.get?], by simp [run], fun _ => rfl⟩
  | append_singleton requests r ih =>
    rw [List.map_append, List.pairwise_append] at hsorted
    have hbefore : ∀ r' ∈ requests, r'.time ≤ r.time := by
      intro r' hr'
      exact hsorted.2.2 r'.time (List.mem_map_of_mem hr') r.time (by simp)
    rw [run_concat]
    exact (isAllowed_spec (ih hsorted.1 hbefore) r.client).2.mono (hnow r (by simp))

end Run

theorem is_allowed_exactly (cfg : Config) (start : ℚ) (requests : List Request) (r : Request)
    (h : ((requests ++ [r]).map Request.time).Pairwise (· ≤ ·)) :
    (((run cfg start requests).1.isAllowed cfg r.time r.client).2 = true ↔
      (inWindow cfg r.time r.client (run cfg start requests).2).length < cfg.maxRequests ∧
        (r.client ∈ (run cfg start requests).1.clients.keys ∨
          ((run cfg start requests).1.evictStale cfg r.time).clients.length < cfg.maxClients)) ∧
    (run cfg start requests).1.clients.length ≤ cfg.maxClients ∧
    (run cfg start (requests ++ [r])).1.clients.length ≤ cfg.maxClients := by
  rw [List.map_append, List.pairwise_append] at h
  have hbefore : ∀ r' ∈ requests, r'.time ≤ r.time := by
    intro r' hr'
    exact h.2.2 r'.time (List.mem_map_of_mem hr') r.time (by simp)
  have hexact := @exact_run cfg start requests r.time h.1 hbefore
  have hspec := isAllowed_spec hexact r.client
  refine ⟨hspec.1, hexact.size, ?_⟩
  rw [run_concat]
  exact hspec.2.size

def twoClients : List Request :=
  [⟨"10.0.0.1".toList, 0⟩, ⟨"10.0.0.1".toList, 1 / 2⟩, ⟨"10.0.0.2".toList, 30⟩]

theorem is_allowed_exactly_two_clients :
    ((run ⟨2, 60, 1⟩ 0 twoClients).1.isAllowed ⟨2, 60, 1⟩ 60 "10.0.0.1".toList).2 = true ∧
    (run ⟨2, 60, 1⟩ 0 twoClients).1.clients.length ≤ 1 ∧
    (run ⟨2, 60, 1⟩ 0 (twoClients ++ [⟨"10.0.0.1".toList, 60⟩])).1.clients.length ≤ 1 := by
  have h := is_allowed_exactly ⟨2, 60, 1⟩ 0 twoClients ⟨"10.0.0.1".toList, 60⟩ (by decide +kernel)
  exact ⟨h.1.mpr (by decide +kernel), h.2⟩

end PicoSentry.Watch.RateLimiter
