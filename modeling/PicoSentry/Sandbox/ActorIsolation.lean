import PicoSentry.Sandbox.RateLimiter

namespace PicoSentry.Sandbox.RateLimiter

open Foundation Foundation.Run

-- The run without the requests of an actor that its own bucket denied.
def withoutDenied (c : RateLimitConfig) (actor : Str) : TokenBucketLimiter → List Call → List Call
  | _, [] => []
  | l, call :: calls =>
    let r := allow c l call
    if call.actor = actor ∧ deniedGlobally l call = false ∧ r.2 = false then
      withoutDenied c actor r.1 calls
    else call :: withoutDenied c actor r.1 calls

section Global

variable {c : RateLimitConfig} {l l' : TokenBucketLimiter} {call : Call} {now t : ℚ}

structure Covers (now : ℚ) (b b' : TokenBucket ℚ) : Prop where
  rate_nonneg : 0 ≤ b.rate
  rate_eq : b.rate = b'.rate
  burst_eq : b.burst = b'.burst
  available : ∀ x, now ≤ x → b.available x ≤ b'.available x

theorem Covers.refl {b : TokenBucket ℚ} (hrate : 0 ≤ b.rate) (now : ℚ) : Covers now b b :=
  ⟨hrate, rfl, rfl, fun _ _ => le_refl _⟩

theorem rate_consume (b : TokenBucket ℚ) (tokens now : ℚ) :
    (b.consume tokens now).1.rate = b.rate ∧ (b.consume tokens now).1.burst = b.burst := by
  by_cases hle : tokens ≤ b.available now
  · rw [TokenBucket.consume_of_le hle]
    exact ⟨rfl, rfl⟩
  · rw [TokenBucket.consume_of_not_le hle]
    exact ⟨rfl, rfl⟩

theorem Covers.consume {b b' : TokenBucket ℚ} (h : Covers now b b') {tokens : ℚ} (ht : now ≤ t)
    (hpassed : tokens ≤ b.available t) :
    Covers t (b.consume tokens t).1 (b'.consume tokens t).1 := by
  obtain ⟨hrate,hburst⟩ := rate_consume b tokens t
  obtain ⟨hrate',hburst'⟩ := rate_consume b' tokens t
  refine ⟨hrate ▸ h.rate_nonneg, hrate.trans (h.rate_eq.trans hrate'.symm),
    hburst.trans (h.burst_eq.trans hburst'.symm), fun x _ => ?_⟩
  have hmore := h.available t ht
  rw [TokenBucket.available_consume, TokenBucket.available_consume, if_pos hpassed,
    if_pos (hpassed.trans hmore), ← h.burst_eq, ← h.rate_eq]
  exact min_le_min_left _ (add_le_add_left (sub_le_sub_right hmore tokens) _)

theorem Covers.consume_left {b b' : TokenBucket ℚ} (h : Covers now b b') {tokens : ℚ} (ht : now ≤ t)
    (htokens : 0 ≤ tokens) : Covers t (b.consume tokens t).1 b' := by
  obtain ⟨hrate,hburst⟩ := rate_consume b tokens t
  refine ⟨hrate ▸ h.rate_nonneg, hrate.trans h.rate_eq, hburst.trans h.burst_eq, fun x hx => ?_⟩
  have hspent : (0 : ℚ) ≤ if tokens ≤ b.available t then tokens else 0 := by
    split
    · exact htokens
    · exact le_refl 0
  refine le_trans ?_ (h.available x (ht.trans hx))
  rw [TokenBucket.available_consume, TokenBucket.available_advance h.rate_nonneg hx]
  exact min_le_min_left _ (add_le_add_left (sub_le_self _ hspent) _)

theorem globalBucket_allow (l : TokenBucketLimiter) (call : Call) :
    (allow c l call).1.globalBucket = (consumeGlobal l call).map Prod.fst := by
  have hactor : ∀ l, (consumeActor c l call).1.globalBucket = l.globalBucket := by
    intro l
    rw [consumeActor]
    dsimp only
    split
    · rfl
    · rfl
  rw [allow]
  cases hglobal : consumeGlobal l call with
  | none =>
    have hnone : l.globalBucket = none := Option.map_eq_none_iff.mp hglobal
    exact (hactor l).trans hnone
  | some consumed =>
    obtain ⟨bucket,passed⟩ := consumed
    cases passed with
    | true => exact hactor _
    | false => rfl

theorem deniedGlobally_none (h : l.globalBucket = none) : deniedGlobally l call = false := by
  rw [deniedGlobally, consumeGlobal, h, Option.map_none, Option.any_none]

theorem deniedGlobally_some {b : TokenBucket ℚ} (h : l.globalBucket = some b) :
    deniedGlobally l call = false ↔ call.tokens ≤ b.available call.clock.globalRefill := by
  rw [deniedGlobally, consumeGlobal, h, Option.map_some, Option.any_some, TokenBucket.consume_snd,
    Bool.not_eq_false', decide_eq_true_eq]

end Global

section Isolation

variable {c : RateLimitConfig} {l l' : TokenBucketLimiter} {call : Call} {calls : List Call}
  {actor : Str} {now : ℚ} {ds ds' : List Decision}

structure Alike (c : RateLimitConfig) (now : ℚ) (l l' : TokenBucketLimiter) : Prop where
  sound : Sound c now l.buckets
  sound' : Sound c now l'.buckets
  available : ∀ x, now ≤ x → ∀ actor, available c l.buckets actor x = available c l'.buckets actor x
  globalBucket : (l.globalBucket = none ∧ l'.globalBucket = none) ∨
    ∃ b b', l.globalBucket = some b ∧ l'.globalBucket = some b' ∧ Covers now b b'

theorem Alike.passed (h : Alike c now l l') (hclock : now ≤ call.clock.globalRefill)
    (hpassed : deniedGlobally l call = false) : deniedGlobally l' call = false := by
  rcases h.globalBucket with ⟨_,hnone⟩ | ⟨b,b',hb,hb',hcovers⟩
  · exact deniedGlobally_none hnone
  · exact (deniedGlobally_some hb').mpr
      (((deniedGlobally_some hb).mp hpassed).trans (hcovers.available _ hclock))

theorem Covers.later {b b' : TokenBucket ℚ} {t : ℚ} (h : Covers now b b') (ht : now ≤ t) :
    Covers t b b' :=
  ⟨h.rate_nonneg, h.rate_eq, h.burst_eq, fun x hx => h.available x (ht.trans hx)⟩

theorem Alike.kept (hc : Refilling c) (h : Alike c now l l') (hclock : call.clock.From now)
    (hpassed : deniedGlobally l call = false) :
    Alike c call.clock.finalSweep (allow c l call).1 (allow c l' call).1 ∧
      (allow c l' call).2 = (allow c l call).2 := by
  have hpassed' := h.passed hclock.globalRefill hpassed
  have hconsumed := allow_consumed hc h.sound hclock hpassed
  have hconsumed' := allow_consumed hc h.sound' hclock hpassed'
  have hlast : now ≤ call.clock.finalSweep := hclock.globalRefill.trans hclock.global_le
  have hsame := h.available call.clock.refill hclock.le_refill call.actor
  refine ⟨⟨hconsumed.sound, hconsumed'.sound, fun x hx actor => ?_, ?_⟩, ?_⟩
  · by_cases hactor : actor = call.actor
    · subst hactor
      rw [hconsumed.own x hx, hconsumed'.own x hx, spent, spent, hsame]
    · rw [hconsumed.others x hx actor hactor, hconsumed'.others x hx actor hactor]
      exact h.available x (hlast.trans hx) actor
  · rw [globalBucket_allow, globalBucket_allow, consumeGlobal, consumeGlobal]
    rcases h.globalBucket with ⟨hnone,hnone'⟩ | ⟨b,b',hb,hb',hcovers⟩
    · rw [hnone, hnone']
      exact .inl ⟨rfl, rfl⟩
    · rw [hb, hb']
      exact .inr ⟨_, _, rfl, rfl, (hcovers.consume hclock.globalRefill
        ((deniedGlobally_some hb).mp hpassed)).later hclock.global_le⟩
  · rw [hconsumed.allowed, hconsumed'.allowed, hsame]

theorem Alike.dropped (hc : Refilling c) (h : Alike c now l l') (hclock : call.clock.From now)
    (hpassed : deniedGlobally l call = false) (hdenied : (allow c l call).2 = false)
    (htokens : 0 ≤ call.tokens) : Alike c call.clock.finalSweep (allow c l call).1 l' := by
  have hconsumed := allow_consumed hc h.sound hclock hpassed
  have hlast : now ≤ call.clock.finalSweep := hclock.globalRefill.trans hclock.global_le
  have hnot : ¬call.tokens ≤ RateLimiter.available c l.buckets call.actor call.clock.refill :=
    of_decide_eq_false (hconsumed.allowed.symm.trans hdenied)
  refine ⟨hconsumed.sound, h.sound'.later hlast, fun x hx other => ?_, ?_⟩
  · have hsame := h.available x (hlast.trans hx) other
    by_cases hother : other = call.actor
    · subst hother
      rw [hconsumed.own x hx, spent, if_neg hnot, sub_zero, ← hsame]
      exact (available_advance hc h.sound (hclock.refill_le.trans hx)).symm
    · rw [hconsumed.others x hx other hother, hsame]
  · rw [globalBucket_allow, consumeGlobal]
    rcases h.globalBucket with ⟨hnone,hnone'⟩ | ⟨b,b',hb,hb',hcovers⟩
    · rw [hnone]
      exact .inl ⟨rfl, hnone'⟩
    · rw [hb]
      exact .inr ⟨_, b', rfl, hb', (hcovers.consume_left hclock.globalRefill htokens).later
        hclock.global_le⟩

theorem decided_alike (hc : Refilling c) (hclocked : Clocked now calls)
    (hpassed : Meets (step c) (fun l call => deniedGlobally l call = false) l calls)
    (hcost : ∀ call ∈ calls, call.actor = actor → 0 ≤ call.tokens) (h : Alike c now l l')
    {r r' : TokenBucketLimiter} (hrun : exec (step c) l calls = some (r, ds))
    (hrun' : exec (step c) l' (withoutDenied c actor l calls) = some (r', ds')) :
    ds'.filter (fun d => d.call.actor ≠ actor) = ds.filter fun d => d.call.actor ≠ actor := by
  induction calls generalizing l l' now ds ds' with
  | nil =>
    cases hrun
    cases hrun'
    rfl
  | cons call calls ih =>
    obtain ⟨hclock,hclocked⟩ := hclocked
    obtain ⟨hfirst,hpassed⟩ := hpassed
    obtain ⟨_,_,es,hstep,hrest,rfl⟩ := exec_cons.mp hrun
    cases hstep
    have hpassed := hpassed _ rfl
    have hcost' := fun later hlater => hcost later (List.mem_cons_of_mem call hlater)
    rw [withoutDenied] at hrun'
    split at hrun'
    · next hdropped =>
      have hnext := h.dropped hc hclock hfirst hdropped.2.2 (hcost call List.mem_cons_self hdropped.1)
      have hskipped : ¬(decide (call.actor ≠ actor) = true) := fun hother =>
        of_decide_eq_true hother hdropped.1
      rw [List.singleton_append, List.filter_cons, if_neg hskipped]
      exact ih hclocked hpassed hcost' hnext hrest hrun'
    · obtain ⟨_,_,es',hstep',hrest',rfl⟩ := exec_cons.mp hrun'
      cases hstep'
      obtain ⟨hnext,hsame⟩ := h.kept hc hclock hfirst
      rw [List.filter_append, List.filter_append, hsame,
        ih hclocked hpassed hcost' hnext hrest hrest']

theorem others_decided_alike (hc : Refilling c) (hclocked : Clocked now calls)
    (hcost : ∀ call ∈ calls, call.actor = actor → 0 ≤ call.tokens) {startedAt globalAt : ℚ}
    (hpassed : Meets (step c) (fun l call => deniedGlobally l call = false)
      (.init c startedAt globalAt) calls)
    (hrun : exec (step c) (.init c startedAt globalAt) calls = some (l, ds))
    (hrun' : exec (step c) (.init c startedAt globalAt)
      (withoutDenied c actor (.init c startedAt globalAt) calls) = some (l', ds')) :
    ds'.filter (fun d => d.call.actor ≠ actor) = ds.filter fun d => d.call.actor ≠ actor := by
  have hempty : Sound c now (TokenBucketLimiter.init c startedAt globalAt).buckets :=
    ⟨List.nodup_nil, fun _ hentry => absurd hentry List.not_mem_nil⟩
  refine decided_alike hc hclocked hpassed hcost ⟨hempty, hempty, fun _ _ _ => rfl, ?_⟩ hrun hrun'
  rw [TokenBucketLimiter.init]
  dsimp only
  split
  · next hrps => exact .inr ⟨_, _, rfl, rfl, .refl hrps.le now⟩
  · exact .inl ⟨rfl, rfl⟩

def wideGlobal : RateLimitConfig :=
  { ratePerSecond := 1, burstSize := 1, idleTimeoutSeconds := 1, globalRps := 1 }

def smallGlobal : RateLimitConfig := { wideGlobal with globalRps := 3 / 10 }

def shortIdle : RateLimitConfig :=
  { ratePerSecond := 0, burstSize := 1, idleTimeoutSeconds := 0, globalRps := 0 }

def fallingRate : RateLimitConfig :=
  { ratePerSecond := -1, burstSize := 1, idleTimeoutSeconds := -1, globalRps := 0 }

def crowded : List Call := [requestAt "a" 0, requestAt "a" 0, requestAt "a" 0, requestAt "b" 0]

def returning : List Call := [requestAt "a" 0, requestAt "b" 0, requestAt "a" 61, requestAt "b" 61]

def decided (c : RateLimitConfig) (calls : List Call) : Option (List Bool) :=
  (exec (step c) (.init c 0 0) calls).map fun r => r.2.map Decision.allowed

def pruned (c : RateLimitConfig) (calls : List Call) : List Call :=
  withoutDenied c "a".toList (.init c 0 0) calls

theorem others_decided_alike_when_crowded :
    ∃ l l' ds ds', exec (step wideGlobal) (.init wideGlobal 0 0) crowded = some (l, ds) ∧
      exec (step wideGlobal) (.init wideGlobal 0 0) (pruned wideGlobal crowded) = some (l', ds') ∧
      ds.map Decision.allowed = [true, false, false, true] ∧ ds'.map Decision.allowed = [true, true] ∧
      ds'.filter (fun d => d.call.actor ≠ "a".toList) =
        ds.filter fun d => d.call.actor ≠ "a".toList := by
  have hdecided : decided wideGlobal crowded = some [true, false, false, true] := by decide +kernel
  have hdecided' : decided wideGlobal (pruned wideGlobal crowded) = some [true, true] := by
    decide +kernel
  obtain ⟨r,hrun,hds⟩ := Option.map_eq_some_iff.mp hdecided
  obtain ⟨r',hrun',hds'⟩ := Option.map_eq_some_iff.mp hdecided'
  have hc : Refilling wideGlobal := ⟨by decide +kernel, by decide +kernel⟩
  have hstart := Readings.at_from (le_refl 0)
  have hclocked : Clocked 0 crowded := ⟨hstart, hstart, hstart, hstart, trivial⟩
  have hcost : ∀ call ∈ crowded, call.actor = "a".toList → 0 ≤ call.tokens := by
    simp [crowded, requestAt]
  have hpassed : Meets (step wideGlobal) (fun l call => deniedGlobally l call = false)
      (.init wideGlobal 0 0) crowded := by decide +kernel
  exact ⟨r.1, r'.1, r.2, r'.2, hrun, hrun', hds, hds',
    others_decided_alike hc hclocked hcost hpassed hrun hrun'⟩

-- Denied requests of a drain the global bucket; one makes the limiter drop the bucket of b.
theorem denied_requests_affect_others :
    (Clocked 0 crowded ∧ decided smallGlobal crowded = some [true, false, false, false] ∧
      pruned smallGlobal crowded = [requestAt "a" 0, requestAt "b" 0] ∧
      decided smallGlobal (pruned smallGlobal crowded) = some [true, true]) ∧
    Clocked 0 returning ∧ ∀ c ∈ [shortIdle, fallingRate],
      decided c returning = some [true, true, false, true] ∧
      pruned c returning = [requestAt "a" 0, requestAt "b" 0, requestAt "b" 61] ∧
      decided c (pruned c returning) = some [true, true, false] := by
  have hstart := Readings.at_from (le_refl 0)
  have hlater : (0 : ℚ) ≤ 61 := by norm_num
  refine ⟨⟨⟨hstart, hstart, hstart, hstart, trivial⟩, by decide +kernel, by decide +kernel,
    by decide +kernel⟩, ⟨hstart, hstart, Readings.at_from hlater, Readings.at_from (le_refl 61),
      trivial⟩, List.forall_mem_cons.mpr ⟨?_, List.forall_mem_singleton.mpr ?_⟩⟩
  · exact ⟨by decide +kernel, by decide +kernel, by decide +kernel⟩
  · exact ⟨by decide +kernel, by decide +kernel, by decide +kernel⟩

end Isolation

end PicoSentry.Sandbox.RateLimiter
