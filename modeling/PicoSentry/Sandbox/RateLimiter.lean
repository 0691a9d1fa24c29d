import Mathlib.Algebra.Order.Ring.Rat
import PicoSentry.Foundation.Dict
import PicoSentry.Foundation.Run
import PicoSentry.Foundation.Text
import PicoSentry.Foundation.TokenBucket

namespace PicoSentry.Sandbox.RateLimiter

open Foundation

structure RateLimitConfig where
  ratePerSecond : ℚ := 2
  burstSize : Int := 10
  maxActors : Int := 10000
  idleTimeoutSeconds : Int := 3600
  globalRps : ℚ := 25

abbrev Buckets := Dict Str (TokenBucket ℚ)

structure TokenBucketLimiter where
  buckets : Buckets := []
  globalBucket : Option (TokenBucket ℚ)
  lastCleanup : ℚ

-- What time.monotonic() gives at the places of allow that read it, in their order.
structure Readings where
  globalRefill : ℚ
  sweep : ℚ
  created : ℚ
  refill : ℚ
  finished : ℚ
  finalSweep : ℚ
  deriving DecidableEq

def Readings.at (now : ℚ) : Readings := ⟨now, now, now, now, now, now⟩

structure Call where
  actor : Str
  tokens : ℚ := 1
  clock : Readings
  deriving DecidableEq

def requestAt (actor : String) (now : ℚ) : Call where
  actor := actor.toList
  clock := .at now

section Limiter

variable (c : RateLimitConfig)

def TokenBucketLimiter.init (startedAt globalAt : ℚ) : TokenBucketLimiter where
  globalBucket :=
    if c.globalRps > 0 then some (.full c.globalRps ((c.globalRps * 10).floor : Int) globalAt) else none
  lastCleanup := startedAt

def cleanupStale (buckets : Buckets) (now : ℚ) : Buckets :=
  buckets.filter fun entry => ¬entry.2.lastRefill < now - c.idleTimeoutSeconds

def actorBucket (buckets : Buckets) (call : Call) : Buckets × TokenBucket ℚ :=
  match buckets.get? call.actor with
  | some bucket => (buckets, bucket)
  | none =>
    (if (buckets.length : Int) ≥ c.maxActors then cleanupStale c buckets call.clock.sweep else buckets,
      .full c.ratePerSecond c.burstSize call.clock.created)

def consumeGlobal (l : TokenBucketLimiter) (call : Call) : Option (TokenBucket ℚ × Bool) :=
  l.globalBucket.map fun bucket => bucket.consume call.tokens call.clock.globalRefill

def consumeActor (l : TokenBucketLimiter) (call : Call) : TokenBucketLimiter × Bool :=
  let found := actorBucket c l.buckets call
  let consumed := found.2.consume call.tokens call.clock.refill
  let l := { l with buckets := found.1.set call.actor consumed.1 }
  if call.clock.finished - l.lastCleanup > 60 then
    ({ l with
        buckets := cleanupStale c l.buckets call.clock.finalSweep
        lastCleanup := call.clock.finished }, consumed.2)
  else (l, consumed.2)

def allow (l : TokenBucketLimiter) (call : Call) : TokenBucketLimiter × Bool :=
  match consumeGlobal l call with
  | none => consumeActor c l call
  | some (bucket, passed) =>
    if passed then consumeActor c { l with globalBucket := some bucket } call
    else ({ l with globalBucket := some bucket }, false)

def deniedGlobally (l : TokenBucketLimiter) (call : Call) : Bool :=
  (consumeGlobal l call).any fun consumed => !consumed.2

structure Decision where
  call : Call
  allowed : Bool
  deriving DecidableEq

def step (l : TokenBucketLimiter) (call : Call) : Option (TokenBucketLimiter × List Decision) :=
  some ((allow c l call).1, [⟨call, (allow c l call).2⟩])

end Limiter

structure Readings.From (now : ℚ) (r : Readings) : Prop where
  globalRefill : now ≤ r.globalRefill
  sweep : r.globalRefill ≤ r.sweep
  created : r.sweep ≤ r.created
  refill : r.created ≤ r.refill
  finished : r.refill ≤ r.finished
  finalSweep : r.finished ≤ r.finalSweep

theorem Readings.From.le_refill {r : Readings} {now : ℚ} (h : r.From now) : now ≤ r.refill :=
  h.globalRefill.trans (h.sweep.trans (h.created.trans h.refill))

theorem Readings.From.refill_le {r : Readings} {now : ℚ} (h : r.From now) : r.refill ≤ r.finalSweep :=
  h.finished.trans h.finalSweep

theorem Readings.From.global_le {r : Readings} {now : ℚ} (h : r.From now) :
    r.globalRefill ≤ r.finalSweep :=
  h.sweep.trans (h.created.trans (h.refill.trans h.refill_le))

theorem Readings.at_from {now later : ℚ} (h : now ≤ later) : (Readings.at later).From now :=
  ⟨h, le_refl later, le_refl later, le_refl later, le_refl later, le_refl later⟩

def Clocked : ℚ → List Call → Prop
  | _, [] => True
  | now, call :: calls => call.clock.From now ∧ Clocked call.clock.finalSweep calls

section Available

variable {c : RateLimitConfig} {l : TokenBucketLimiter} {call : Call} {buckets : Buckets}
  {actor : Str} {now t x : ℚ}

def available (c : RateLimitConfig) (buckets : Buckets) (actor : Str) (x : ℚ) : ℚ :=
  match buckets.get? actor with
  | none => c.burstSize
  | some bucket => bucket.available x

structure Refilling (c : RateLimitConfig) : Prop where
  rate_nonneg : 0 ≤ c.ratePerSecond
  idle : (c.burstSize : ℚ) ≤ c.idleTimeoutSeconds * c.ratePerSecond

structure Sound (c : RateLimitConfig) (now : ℚ) (buckets : Buckets) : Prop where
  nodup : buckets.keys.Nodup
  sound : ∀ entry ∈ buckets, TokenBucket.Sound c.ratePerSecond (c.burstSize : ℚ) now entry.2

theorem Sound.later (h : Sound c now buckets) (ht : now ≤ t) : Sound c t buckets :=
  ⟨h.nodup, fun entry hentry => (h.sound entry hentry).later ht⟩

theorem Sound.get? (h : Sound c now buckets) {bucket : TokenBucket ℚ}
    (hget : buckets.get? actor = some bucket) :
    TokenBucket.Sound c.ratePerSecond (c.burstSize : ℚ) now bucket :=
  h.sound _ (Dict.mem_of_get? hget)

theorem Sound.set (h : Sound c now buckets) {bucket : TokenBucket ℚ}
    (hbucket : TokenBucket.Sound c.ratePerSecond (c.burstSize : ℚ) now bucket) (actor : Str) :
    Sound c now (buckets.set actor bucket) := by
  refine ⟨Dict.keys_set_nodup h.nodup actor bucket, fun entry hentry => ?_⟩
  rcases Dict.mem_set hentry with hentry | rfl
  · exact h.sound entry hentry
  · exact hbucket

theorem Sound.cleanupStale (h : Sound c now buckets) (t : ℚ) :
    Sound c now (cleanupStale c buckets t) :=
  ⟨h.nodup.sublist (List.filter_sublist.map _),
    fun entry hentry => h.sound entry (List.mem_of_mem_filter hentry)⟩

theorem available_set (bucket : TokenBucket ℚ) (other : Str) :
    available c (buckets.set actor bucket) other x =
      if actor = other then bucket.available x else available c buckets other x := by
  rw [available, Dict.get?_set]
  by_cases h : actor = other
  · rw [if_pos h, if_pos h]
  · rw [if_neg h, if_neg h, available]

theorem available_cleanupStale (hc : Refilling c) (h : Sound c now buckets) (ht : now ≤ t)
    (hx : t ≤ x) (actor : Str) :
    available c (cleanupStale c buckets t) actor x = available c buckets actor x := by
  cases hget : buckets.get? actor with
  | none =>
    have hnone : (cleanupStale c buckets t).get? actor = none := by
      rw [← Dict.not_mem_keys_iff] at hget ⊢
      exact fun hmem => hget ((List.filter_sublist.map _).subset hmem)
    rw [available, available, hnone, hget]
  | some bucket =>
    have hbucket := h.get? hget
    by_cases hstale : bucket.lastRefill < t - c.idleTimeoutSeconds
    · have hnone : (cleanupStale c buckets t).get? actor = none := by
        rw [← Dict.not_mem_keys_iff]
        intro hmem
        obtain ⟨entry,hentry,rfl⟩ := List.mem_map.mp hmem
        obtain ⟨hentry,hkept⟩ := List.mem_filter.mp hentry
        have hfound := Dict.get?_of_mem h.nodup hentry
        obtain rfl : entry.2 = bucket := Option.some.inj (hfound.symm.trans hget)
        exact of_decide_eq_true hkept hstale
      rw [available, available, hnone, hget]
      exact (hbucket.available_idle hc.rate_nonneg hc.idle hstale ht hx).symm
    · have hkept : (cleanupStale c buckets t).get? actor = some bucket :=
        Dict.get?_filter hget (decide_eq_true hstale)
      rw [available, available, hkept, hget]

theorem available_advance (hc : Refilling c) (h : Sound c now buckets) {y : ℚ} (hxy : x ≤ y) :
    available c buckets actor y =
      min (c.burstSize : ℚ) (available c buckets actor x + (y - x) * c.ratePerSecond) := by
  rw [available, available]
  split
  · exact (min_eq_left (le_add_of_nonneg_right (TokenBucket.gain_nonneg hc.rate_nonneg hxy))).symm
  · next bucket hget =>
    have hbucket := h.get? hget
    have hnonneg : 0 ≤ bucket.rate := hbucket.rate_eq.symm ▸ hc.rate_nonneg
    rw [← hbucket.burst_eq, ← hbucket.rate_eq]
    exact TokenBucket.available_advance hnonneg hxy

theorem actorBucket_spec (hc : Refilling c) (h : Sound c now buckets) (hclock : call.clock.From now) :
    Sound c call.clock.created (actorBucket c buckets call).1 ∧
      TokenBucket.Sound c.ratePerSecond (c.burstSize : ℚ) call.clock.created
        (actorBucket c buckets call).2 ∧
      ∀ x, call.clock.created ≤ x →
        (actorBucket c buckets call).2.available x = available c buckets call.actor x ∧
        ∀ actor, available c (actorBucket c buckets call).1 actor x = available c buckets actor x := by
  have hsweep : now ≤ call.clock.sweep := hclock.globalRefill.trans hclock.sweep
  have hcreated : now ≤ call.clock.created := hsweep.trans hclock.created
  rw [actorBucket]
  split
  · next bucket hget =>
    refine ⟨h.later hcreated, (h.get? hget).later hcreated, fun x _ => ⟨?_, fun _ => rfl⟩⟩
    rw [available, hget]
  · next hget =>
    have hempty : ∀ x, available c buckets call.actor x = c.burstSize := fun x => by
      rw [available, hget]
    have hfull : ∀ x, call.clock.created ≤ x → (TokenBucket.full c.ratePerSecond (c.burstSize : ℚ)
        call.clock.created).available x = available c buckets call.actor x := fun x hx => by
      rw [hempty, TokenBucket.available_full hc.rate_nonneg hx]
    split
    · exact ⟨(h.cleanupStale _).later hcreated, TokenBucket.sound_full _ _ _, fun x hx => ⟨hfull x hx,
        available_cleanupStale hc h hsweep (hclock.created.trans hx)⟩⟩
    · exact ⟨h.later hcreated, TokenBucket.sound_full _ _ _, fun x hx => ⟨hfull x hx, fun _ => rfl⟩⟩

def spent (c : RateLimitConfig) (buckets : Buckets) (call : Call) : ℚ :=
  if call.tokens ≤ available c buckets call.actor call.clock.refill then call.tokens else 0

structure Consumed (c : RateLimitConfig) (buckets : Buckets) (call : Call)
    (r : TokenBucketLimiter × Bool) : Prop where
  sound : Sound c call.clock.finalSweep r.1.buckets
  allowed : r.2 = decide (call.tokens ≤ available c buckets call.actor call.clock.refill)
  own : ∀ x, call.clock.finalSweep ≤ x → available c r.1.buckets call.actor x = min (c.burstSize : ℚ)
    (available c buckets call.actor call.clock.refill - spent c buckets call +
      (x - call.clock.refill) * c.ratePerSecond)
  others : ∀ x, call.clock.finalSweep ≤ x → ∀ actor ≠ call.actor,
    available c r.1.buckets actor x = available c buckets actor x

theorem consumeActor_spec (hc : Refilling c) (h : Sound c now l.buckets) (hclock : call.clock.From now) :
    Consumed c l.buckets call (consumeActor c l call) := by
  obtain ⟨hsound,hbucket,hsame⟩ := actorBucket_spec hc h hclock
  have hrefill := hsame call.clock.refill hclock.refill
  have hfinal : call.clock.refill ≤ call.clock.finalSweep := hclock.refill_le
  have hconsumed := hbucket.consume hc.rate_nonneg hclock.refill call.tokens
  have hset := (hsound.later hclock.refill).set hconsumed call.actor
  have hown : ∀ x, call.clock.finalSweep ≤ x → available c ((actorBucket c l.buckets call).1.set
      call.actor ((actorBucket c l.buckets call).2.consume call.tokens call.clock.refill).1)
        call.actor x = min (c.burstSize : ℚ) (available c l.buckets call.actor call.clock.refill -
          spent c l.buckets call + (x - call.clock.refill) * c.ratePerSecond) := fun x _ => by
    rw [available_set, if_pos rfl, TokenBucket.available_consume, hbucket.burst_eq, hbucket.rate_eq,
      hrefill.1, spent]
  have hothers : ∀ x, call.clock.finalSweep ≤ x → ∀ actor ≠ call.actor, available c
      ((actorBucket c l.buckets call).1.set call.actor ((actorBucket c l.buckets call).2.consume
        call.tokens call.clock.refill).1) actor x = available c l.buckets actor x :=
    fun x hx actor hactor => by
      rw [available_set, if_neg hactor.symm]
      exact (hsame x (hclock.refill.trans (hfinal.trans hx))).2 actor
  have hallowed : ((actorBucket c l.buckets call).2.consume call.tokens call.clock.refill).2 =
      decide (call.tokens ≤ available c l.buckets call.actor call.clock.refill) := by
    rw [TokenBucket.consume_snd, hrefill.1]
  rw [consumeActor]
  dsimp only
  split
  · have hswept := fun x (hx : call.clock.finalSweep ≤ x) =>
      available_cleanupStale hc hset hfinal hx
    exact ⟨(hset.cleanupStale _).later hfinal, hallowed,
      fun x hx => (hswept x hx call.actor).trans (hown x hx),
      fun x hx actor hactor => (hswept x hx actor).trans (hothers x hx actor hactor)⟩
  · exact ⟨hset.later hfinal, hallowed, hown, hothers⟩

theorem allow_deniedGlobally (hdenied : deniedGlobally l call = true) :
    (allow c l call).1.buckets = l.buckets ∧ (allow c l call).2 = false := by
  rw [deniedGlobally] at hdenied
  rw [allow]
  cases hglobal : consumeGlobal l call with
  | none =>
    rw [hglobal] at hdenied
    cases hdenied
  | some consumed =>
    obtain ⟨bucket,passed⟩ := consumed
    rw [hglobal] at hdenied
    obtain rfl : passed = false := by simpa using hdenied
    exact ⟨rfl, rfl⟩

theorem allow_consumed (hc : Refilling c) (h : Sound c now l.buckets) (hclock : call.clock.From now)
    (hpassed : deniedGlobally l call = false) : Consumed c l.buckets call (allow c l call) := by
  rw [deniedGlobally] at hpassed
  rw [allow]
  cases hglobal : consumeGlobal l call with
  | none => exact consumeActor_spec hc h hclock
  | some consumed =>
    obtain ⟨bucket,passed⟩ := consumed
    rw [hglobal] at hpassed
    obtain rfl : passed = true := by simpa using hpassed
    exact consumeActor_spec (l := { l with globalBucket := some bucket }) hc h hclock

theorem sound_allow (hc : Refilling c) (h : Sound c now l.buckets) (hclock : call.clock.From now) :
    Sound c call.clock.finalSweep (allow c l call).1.buckets := by
  cases hdenied : deniedGlobally l call with
  | true =>
    rw [(allow_deniedGlobally hdenied).1]
    exact h.later (hclock.globalRefill.trans hclock.global_le)
  | false => exact (allow_consumed hc h hclock hdenied).sound

end Available

end PicoSentry.Sandbox.RateLimiter
