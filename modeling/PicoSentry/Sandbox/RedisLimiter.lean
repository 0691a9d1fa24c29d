import PicoSentry.Sandbox.RateLimiter

namespace PicoSentry.Sandbox.RedisLimiter

open Foundation RateLimiter

structure RedisHash where
  fields : Dict Str ℚ
  expiresAt : ℚ

abbrev RedisStore := Dict Str RedisHash

def keyExpiry : ℚ := 7200

def liveFields (store : RedisStore) (key : Str) (now : ℚ) : Dict Str ℚ :=
  match store.get? key with
  | some hash => if now < hash.expiresAt then hash.fields else []
  | none => []

-- HSET of both fields followed by EXPIRE.
def writeBucket (store : RedisStore) (key : Str) (tokens lastRefill now : ℚ) : RedisStore :=
  store.set key
    ⟨((liveFields store key now).set "tokens".toList tokens).set "last_refill".toList lastRefill,
      now + keyExpiry⟩

-- What a key that is there no longer, or not yet, is read as: a full bucket of this moment.
def readBucket (store : RedisStore) (key : Str) (burst now : ℚ) : ℚ × ℚ :=
  let data := liveFields store key now
  ((data.get? "tokens".toList).getD burst, (data.get? "last_refill".toList).getD now)

def refill (rate burst now : ℚ) (read : ℚ × ℚ) : ℚ × ℚ :=
  let elapsed := now - read.2
  if elapsed > 0 then (min burst (read.1 + elapsed * rate), now) else read

def checkAndConsume (store : RedisStore) (key : Str) (consume now tokens lastRefill : ℚ) :
    RedisStore × Bool :=
  if tokens ≥ consume then (writeBucket store key (tokens - consume) lastRefill now, true)
  else (writeBucket store key tokens lastRefill now, false)

def tokenBucketScript (key : Str) (rate burst consume now : ℚ) (store : RedisStore) :
    RedisStore × Bool :=
  let refilled := refill rate burst now (readBucket store key burst now)
  checkAndConsume store key consume now refilled.1 refilled.2

structure Request where
  actor : Str
  tokens : ℚ := 1
  now : ℚ
  deriving DecidableEq

def redisKey (actor : Str) : Str := "picodome:ratelimit:".toList ++ actor

section Limiters

variable (c : RateLimitConfig)

def redisAllow (store : RedisStore) (r : Request) : RedisStore × Bool :=
  tokenBucketScript (redisKey r.actor) c.ratePerSecond c.burstSize r.tokens r.now store

def memoryAllow (l : TokenBucketLimiter) (r : Request) : TokenBucketLimiter × Bool :=
  RateLimiter.allow c l ⟨r.actor, r.tokens, .at r.now⟩

def decisions {σ : Type} (step : σ → Request → σ × Bool) : σ → List Request → List (Request × Bool)
  | _, [] => []
  | s, r :: rs => (r, (step s r).2) :: decisions step (step s r).1 rs

def answersFor (actor : Str) (decided : List (Request × Bool)) : List (Request × Bool) :=
  decided.filter fun decision => decision.1.actor = actor

def requestsOf (actor : Str) (requests : List Request) : List Request :=
  requests.filter fun r => r.actor = actor

def Within (r s : Request) : Prop :=
  s.now < r.now + keyExpiry ∧ s.now < r.now + c.idleTimeoutSeconds

end Limiters

section Script

variable {store : RedisStore} {key : Str} {rate burst consume now tokens lastRefill expiresAt : ℚ}

def stored (tokens lastRefill expiresAt : ℚ) : RedisHash where
  fields := [("tokens".toList, tokens), ("last_refill".toList, lastRefill)]
  expiresAt := expiresAt

def Written (store : RedisStore) (key : Str) : Prop :=
  ∀ hash ∈ store.get? key, ∃ tokens lastRefill expiresAt, hash = stored tokens lastRefill expiresAt

theorem writeBucket_eq (h : Written store key) (tokens lastRefill now : ℚ) :
    writeBucket store key tokens lastRefill now =
      store.set key (stored tokens lastRefill (now + keyExpiry)) := by
  rw [writeBucket, liveFields]
  cases hget : store.get? key with
  | none => rfl
  | some hash =>
    obtain ⟨t,u,expiresAt,rfl⟩ := h hash hget
    dsimp only
    split
    · rfl
    · rfl

theorem readBucket_of_none (h : store.get? key = none) : readBucket store key burst now = (burst, now) := by
  rw [readBucket, liveFields, h]
  rfl

theorem readBucket_of_stored (h : store.get? key = some (stored tokens lastRefill expiresAt))
    (hlive : now < expiresAt) : readBucket store key burst now = (tokens, lastRefill) := by
  have hfields : liveFields store key now = (stored tokens lastRefill expiresAt).fields := by
    rw [liveFields, h]
    exact if_pos hlive
  rw [readBucket, hfields]
  rfl

theorem refill_eq {b : TokenBucket ℚ} (hle : b.lastRefill ≤ now) (hcap : b.tokens ≤ b.burst) :
    refill b.rate b.burst now (b.tokens, b.lastRefill) = (b.available now, now) := by
  rw [refill]
  split
  · rfl
  · next hstill =>
    have hsame : b.lastRefill = now := le_antisymm hle (sub_nonpos.mp (not_lt.mp hstill))
    rw [TokenBucket.available, hsame, sub_self, zero_mul, add_zero, min_eq_right hcap]

theorem script_eq {b : TokenBucket ℚ} (hwritten : Written store key)
    (hread : readBucket store key b.burst now = (b.tokens, b.lastRefill)) (hle : b.lastRefill ≤ now)
    (hcap : b.tokens ≤ b.burst) :
    tokenBucketScript key b.rate b.burst consume now store =
      (store.set key (stored (b.consume consume now).1.tokens now (now + keyExpiry)),
        (b.consume consume now).2) := by
  rw [tokenBucketScript, hread, refill_eq hle hcap, checkAndConsume, writeBucket_eq hwritten,
    writeBucket_eq hwritten]
  by_cases hpays : consume ≤ b.available now
  · rw [if_pos hpays, TokenBucket.consume_of_le hpays]
  · rw [if_neg hpays, TokenBucket.consume_of_not_le hpays]
    rfl

end Script

section Simulation

variable {c : RateLimitConfig} {l : TokenBucketLimiter} {store : RedisStore} {actor : Str}
  {now : ℚ} {last : Option Request} {r : Request} {requests : List Request}

theorem redisKey_inj {actor actor' : Str} (h : redisKey actor = redisKey actor') : actor = actor' :=
  List.append_cancel_left h

def bucketOf (c : RateLimitConfig) (tokens lastRefill : ℚ) : TokenBucket ℚ :=
  ⟨tokens, lastRefill, c.ratePerSecond, c.burstSize⟩

structure Related (c : RateLimitConfig) (actor : Str) (now : ℚ) (last : Option Request)
    (l : TokenBucketLimiter) (store : RedisStore) : Prop where
  globalOff : l.globalBucket = none
  fresh : last = none → l.buckets.get? actor = none ∧ store.get? (redisKey actor) = none
  kept : ∀ r ∈ last, ∃ tokens ≤ (c.burstSize : ℚ),
    store.get? (redisKey actor) = some (stored tokens r.now (r.now + keyExpiry)) ∧
      (now - c.idleTimeoutSeconds ≤ r.now → l.buckets.get? actor = some (bucketOf c tokens r.now))

theorem cleanupStale_none {buckets : Buckets} (h : buckets.get? actor = none) (now : ℚ) :
    (cleanupStale c buckets now).get? actor = none := by
  rw [← Dict.not_mem_keys_iff] at h ⊢
  exact fun hmem => h ((List.filter_sublist.map _).subset hmem)

theorem cleanupStale_some {buckets : Buckets} {b : TokenBucket ℚ} (h : buckets.get? actor = some b)
    (hfresh : now - c.idleTimeoutSeconds ≤ b.lastRefill) :
    (cleanupStale c buckets now).get? actor = some b :=
  Dict.get?_filter h (decide_eq_true (not_lt.mpr hfresh))

theorem memoryAllow_eq (hglobal : l.globalBucket = none) (r : Request) :
    memoryAllow c l r = consumeActor c l ⟨r.actor, r.tokens, .at r.now⟩ := by
  rw [memoryAllow, RateLimiter.allow, consumeGlobal, hglobal]
  rfl

theorem redisAllow_other (hother : r.actor ≠ actor) (store : RedisStore) :
    (redisAllow c store r).1.get? (redisKey actor) = store.get? (redisKey actor) := by
  have hkey : redisKey r.actor ≠ redisKey actor := fun h => hother (redisKey_inj h)
  rw [redisAllow, tokenBucketScript, checkAndConsume]
  split
  · rw [writeBucket, Dict.get?_set, if_neg hkey]
  · rw [writeBucket, Dict.get?_set, if_neg hkey]

theorem consumeActor_other (c : RateLimitConfig) (l : TokenBucketLimiter) (call : Call) (hother : call.actor ≠ actor) (hclock : call.clock = .at now) :
    (l.buckets.get? actor = none → (consumeActor c l call).1.buckets.get? actor = none) ∧
      ∀ b, l.buckets.get? actor = some b → now - c.idleTimeoutSeconds ≤ b.lastRefill →
        (consumeActor c l call).1.buckets.get? actor = some b := by
  have hfound : (l.buckets.get? actor = none → (actorBucket c l.buckets call).1.get? actor = none) ∧
      ∀ b, l.buckets.get? actor = some b → now - c.idleTimeoutSeconds ≤ b.lastRefill →
        (actorBucket c l.buckets call).1.get? actor = some b := by
    rw [actorBucket, hclock]
    split
    · exact ⟨fun h => h, fun b h _ => h⟩
    · split
      · exact ⟨fun h => cleanupStale_none h now, fun b h => cleanupStale_some h⟩
      · exact ⟨fun h => h, fun b h _ => h⟩
  have hset : ∀ b, ((actorBucket c l.buckets call).1.set call.actor b).get? actor =
      (actorBucket c l.buckets call).1.get? actor := fun b => by
    rw [Dict.get?_set, if_neg hother]
  rw [consumeActor]
  dsimp only
  split
  · rw [hclock]
    refine ⟨fun h => cleanupStale_none ((hset _).trans (hfound.1 h)) now, fun b h hfresh => ?_⟩
    exact cleanupStale_some ((hset _).trans (hfound.2 b h hfresh)) hfresh
  · exact ⟨fun h => (hset _).trans (hfound.1 h), fun b h hfresh => (hset _).trans (hfound.2 b h hfresh)⟩

theorem consumeActor_globalBucket (call : Call) :
    (consumeActor c l call).1.globalBucket = l.globalBucket := by
  rw [consumeActor]
  dsimp only
  split
  · rfl
  · rfl

theorem related_other (h : Related c actor now last l store) (hle : now ≤ r.now)
    (hother : r.actor ≠ actor) :
    Related c actor r.now last (memoryAllow c l r).1 (redisAllow c store r).1 := by
  rw [memoryAllow_eq h.globalOff]
  obtain ⟨hnone,hsome⟩ := consumeActor_other c l ⟨r.actor, r.tokens, .at r.now⟩ hother rfl
  refine ⟨(consumeActor_globalBucket _).trans h.globalOff, fun hlast => ?_, fun s hs => ?_⟩
  · obtain ⟨hbucket,hkey⟩ := h.fresh hlast
    exact ⟨hnone hbucket, (redisAllow_other hother store).trans hkey⟩
  · obtain ⟨tokens,hcap,hkey,hbucket⟩ := h.kept s hs
    refine ⟨tokens, hcap, (redisAllow_other hother store).trans hkey, fun hfresh => ?_⟩
    exact hsome _ (hbucket ((sub_le_sub_right hle _).trans hfresh)) hfresh

theorem consumeActor_own (c : RateLimitConfig) (l : TokenBucketLimiter) (call : Call) {b : TokenBucket ℚ} (hclock : call.clock = .at now)
    (hbucket : (actorBucket c l.buckets call).2 = b) :
    (consumeActor c l call).2 = (b.consume call.tokens now).2 ∧
      (now - c.idleTimeoutSeconds ≤ (b.consume call.tokens now).1.lastRefill →
        (consumeActor c l call).1.buckets.get? call.actor = some (b.consume call.tokens now).1) := by
  rw [consumeActor, hbucket, hclock]
  dsimp only
  split
  · exact ⟨rfl, cleanupStale_some (Dict.get?_set_self _ _ _)⟩
  · exact ⟨rfl, fun _ => Dict.get?_set_self _ _ _⟩

theorem consume_bucketOf (tokens lastRefill : ℚ) (consume : ℚ) :
    ((bucketOf c tokens lastRefill).consume consume now).1 =
      bucketOf c ((bucketOf c tokens lastRefill).consume consume now).1.tokens now := by
  by_cases hpays : consume ≤ (bucketOf c tokens lastRefill).available now
  · rw [TokenBucket.consume_of_le hpays]
    rfl
  · rw [TokenBucket.consume_of_not_le hpays]
    rfl

theorem consume_le_burst {b : TokenBucket ℚ} {consume : ℚ} (hpos : 0 ≤ consume) :
    (b.consume consume now).1.tokens ≤ b.burst := by
  by_cases hpays : consume ≤ b.available now
  · rw [TokenBucket.consume_of_le hpays]
    exact (sub_le_self _ hpos).trans (b.available_le_burst now)
  · rw [TokenBucket.consume_of_not_le hpays]
    exact b.available_le_burst now

theorem related_consume {tokens lastRefill : ℚ} (hglobal : l.globalBucket = none)
    (hbucket : (actorBucket c l.buckets ⟨r.actor, r.tokens, .at r.now⟩).2 = bucketOf c tokens lastRefill)
    (hwritten : Written store (redisKey r.actor))
    (hread : readBucket store (redisKey r.actor) c.burstSize r.now = (tokens, lastRefill))
    (hle : lastRefill ≤ r.now) (hcap : tokens ≤ c.burstSize) (hpos : 0 ≤ r.tokens) :
    (memoryAllow c l r).2 = (redisAllow c store r).2 ∧
      Related c r.actor r.now (some r) (memoryAllow c l r).1 (redisAllow c store r).1 := by
  obtain ⟨hanswer,hheld⟩ := consumeActor_own c l ⟨r.actor, r.tokens, .at r.now⟩ rfl hbucket
  have hscript : redisAllow c store r = (store.set (redisKey r.actor)
      (stored ((bucketOf c tokens lastRefill).consume r.tokens r.now).1.tokens r.now
        (r.now + keyExpiry)), ((bucketOf c tokens lastRefill).consume r.tokens r.now).2) :=
    script_eq (b := bucketOf c tokens lastRefill) hwritten hread hle hcap
  rw [memoryAllow_eq hglobal, hscript]
  refine ⟨hanswer, (consumeActor_globalBucket _).trans hglobal, fun hnone => ?_, ?_⟩
  · cases hnone
  intro s hs
  obtain rfl : r = s := Option.some.inj hs
  refine ⟨_, consume_le_burst hpos, Dict.get?_set_self _ _ _, fun hfresh => ?_⟩
  rw [← consume_bucketOf]
  refine hheld ?_
  rw [consume_bucketOf]
  exact hfresh

theorem related_own (h : Related c r.actor now last l store) (hle : now ≤ r.now)
    (hlast : ∀ s ∈ last, s.now ≤ r.now ∧ Within c s r) (hpos : 0 ≤ r.tokens) :
    (memoryAllow c l r).2 = (redisAllow c store r).2 ∧
      Related c r.actor r.now (some r) (memoryAllow c l r).1 (redisAllow c store r).1 := by
  cases last with
  | none =>
    obtain ⟨hbucket,hkey⟩ := h.fresh rfl
    have hfull : (actorBucket c l.buckets ⟨r.actor, r.tokens, .at r.now⟩).2 =
        bucketOf c c.burstSize r.now := by
      rw [actorBucket, hbucket]
      rfl
    have hwritten : Written store (redisKey r.actor) := fun hash hget => by
      rw [hkey] at hget
      cases hget
    exact related_consume h.globalOff hfull hwritten (readBucket_of_none hkey) (le_refl _) (le_refl _) hpos
  | some s =>
    obtain ⟨tokens,hcap,hkey,hbucket⟩ := h.kept s rfl
    obtain ⟨hsle,hexpiry,hidle⟩ := hlast s rfl
    have hkept : l.buckets.get? r.actor = some (bucketOf c tokens s.now) := hbucket (by linarith)
    have hfound : (actorBucket c l.buckets ⟨r.actor, r.tokens, .at r.now⟩).2 =
        bucketOf c tokens s.now := by
      rw [actorBucket, hkept]
    have hwritten : Written store (redisKey r.actor) := fun hash hget => by
      rw [hkey] at hget
      exact ⟨tokens, s.now, s.now + keyExpiry, (Option.some.inj hget).symm⟩
    exact related_consume h.globalOff hfound hwritten (readBucket_of_stored hkey hexpiry) hsle hcap hpos

theorem answersFor_cons (decision : Request × Bool) (decided : List (Request × Bool)) :
    answersFor actor (decision :: decided) =
      if decision.1.actor = actor then decision :: answersFor actor decided
      else answersFor actor decided := by
  rw [answersFor, List.filter_cons]
  simp only [decide_eq_true_eq]
  rfl

theorem related_decisions (h : Related c actor now last l store)
    (hclock : (now :: requests.map Request.now).IsChain (· ≤ ·))
    (hgaps : (last.toList ++ requestsOf actor requests).IsChain (Within c))
    (hpast : ∀ s ∈ last, s.now ≤ now) (hpos : ∀ r ∈ requests, 0 ≤ r.tokens) :
    answersFor actor (decisions (memoryAllow c) l requests) =
      answersFor actor (decisions (redisAllow c) store requests) := by
  induction requests generalizing now last l store with
  | nil => rfl
  | cons r rs ih =>
    obtain ⟨hle,hclock⟩ := List.isChain_cons_cons.mp hclock
    have hposs : ∀ r ∈ rs, 0 ≤ r.tokens := fun s hs => hpos s (List.mem_cons_of_mem r hs)
    rw [decisions, decisions, answersFor_cons, answersFor_cons]
    by_cases hown : r.actor = actor
    · subst hown
      have hrequests : requestsOf r.actor (r :: rs) = r :: requestsOf r.actor rs :=
        List.filter_cons_of_pos (decide_eq_true rfl)
      rw [hrequests] at hgaps
      have hnext : ∀ s ∈ last, s.now ≤ r.now ∧ Within c s r := fun s hs => by
        obtain rfl : last = some s := hs
        exact ⟨(hpast s rfl).trans hle, (List.isChain_cons_cons.mp hgaps).1⟩
      obtain ⟨hanswer,hrelated⟩ := related_own h hle hnext (hpos r List.mem_cons_self)
      rw [if_pos rfl, if_pos rfl, hanswer]
      refine congrArg (_ :: ·) (ih hrelated hclock ?_ (fun s hs => ?_) hposs)
      · cases last with
        | none => exact hgaps
        | some s => exact (List.isChain_cons_cons.mp hgaps).2
      · obtain rfl : r = s := Option.some.inj hs
        exact le_refl _
    · have hrequests : requestsOf actor (r :: rs) = requestsOf actor rs :=
        List.filter_cons_of_neg (by simpa using hown)
      rw [hrequests] at hgaps
      rw [if_neg hown, if_neg hown]
      exact ih (related_other h hle hown) hclock hgaps (fun s hs => (hpast s hs).trans hle) hposs

theorem redis_agrees_with_memory (c : RateLimitConfig) (hglobal : c.globalRps ≤ 0)
    (startedAt globalAt : ℚ) (requests : List Request) (actor : Str)
    (hclock : (requests.map Request.now).IsChain (· ≤ ·))
    (hgaps : (requestsOf actor requests).IsChain (Within c)) (hpos : ∀ r ∈ requests, 0 ≤ r.tokens) :
    answersFor actor (decisions (memoryAllow c) (TokenBucketLimiter.init c startedAt globalAt) requests) =
      answersFor actor (decisions (redisAllow c) [] requests) := by
  have hoff : (TokenBucketLimiter.init c startedAt globalAt).globalBucket = none :=
    if_neg (not_lt.mpr hglobal)
  cases requests with
  | nil => rfl
  | cons r rs =>
    have hrelated : Related c actor r.now none (TokenBucketLimiter.init c startedAt globalAt) [] :=
      ⟨hoff, fun _ => ⟨rfl, rfl⟩, fun _ hs => absurd hs (Option.not_mem_none _)⟩
    exact related_decisions hrelated (List.isChain_cons_cons.mpr ⟨le_refl _, hclock⟩) hgaps
      (fun _ hs => absurd hs (Option.not_mem_none _)) hpos

def asks (actor : String) (tokens now : ℚ) : Request := ⟨actor.toList, tokens, now⟩

theorem redis_agrees_with_memory_three :
    answersFor "ci".toList (decisions (memoryAllow ⟨2, 10, 1, 3600, 0⟩)
        (TokenBucketLimiter.init ⟨2, 10, 1, 3600, 0⟩ 0 0)
        [asks "ci" 8 5, asks "dev" 1 5, asks "ci" 4 5, asks "ci" 4 6]) =
      answersFor "ci".toList (decisions (redisAllow ⟨2, 10, 1, 3600, 0⟩) []
        [asks "ci" 8 5, asks "dev" 1 5, asks "ci" 4 5, asks "ci" 4 6]) :=
  redis_agrees_with_memory ⟨2, 10, 1, 3600, 0⟩ (by decide +kernel) 0 0
    [asks "ci" 8 5, asks "dev" 1 5, asks "ci" 4 5, asks "ci" 4 6] "ci".toList
    (by decide +kernel) (by unfold Within; decide +kernel) (by decide +kernel)

end Simulation

end PicoSentry.Sandbox.RedisLimiter
