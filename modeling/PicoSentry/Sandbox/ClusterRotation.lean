import Mathlib.Tactic.Linarith
import PicoSentry.Foundation.Run
import PicoSentry.Sandbox.ClusterGossip
import PicoSentry.Sandbox.ClusterTrust

namespace PicoSentry.Sandbox.Cluster

open Foundation Foundation.Run Relation TokenStore

inductive Side where
  | near
  | far
  deriving DecidableEq

def Side.peer : Side → Side
  | .near => .far
  | .far => .near

@[simp] theorem Side.peer_peer (m : Side) : m.peer.peer = m := by cases m <;> rfl

@[simp] theorem Side.peer_ne (m : Side) : m.peer ≠ m := by cases m <;> decide

theorem Side.eq_or_peer (m m' : Side) : m' = m ∨ m' = m.peer := by
  cases m <;> cases m' <;> decide

structure TokenPair where
  clock : ℚ
  store : Side → TokenStore

inductive TokenCall where
  | rotate (m : Side) (announcedBy fresh : Str) (now : ℚ)
  | deliver (sender : Side) (now : ℚ)
  | retire (m : Side) (now : ℚ)

namespace TokenCall

def now : TokenCall → ℚ
  | .rotate _ _ _ now => now
  | .deliver _ now => now
  | .retire _ now => now

def rotator : TokenCall → Option Side
  | .rotate m _ _ _ => some m
  | _ => none

def sender : TokenCall → Option Side
  | .deliver sender _ => some sender
  | _ => none

end TokenCall

namespace TokenPair

variable (c : Crypto) (grace : ℚ)

def put (w : TokenPair) (m : Side) (s : TokenStore) (now : ℚ) : TokenPair :=
  ⟨now, Function.update w.store m s⟩

def act (w : TokenPair) : TokenCall → TokenPair
  | .rotate m announcedBy fresh now =>
    w.put m ((w.store m).rotate c none announcedBy fresh now grace) now
  | .deliver sender now =>
    match (w.store sender).announcement with
    | none => { w with clock := now }
    | some announcement =>
      w.put sender.peer ((w.store sender.peer).applyAnnouncement c announcement now).1 now
  | .retire m now => w.put m ((w.store m).retireOlderThan (now - grace)) now

def step (w : TokenPair) (call : TokenCall) : Option (TokenPair × List Unit) :=
  if call.now < w.clock then none else some (w.act c grace call, [])

def Delivers (m : Side) (announcement : Announcement) (deadline : ℚ) (w : TokenPair)
    (call : TokenCall) : Prop :=
  call.sender = some m ∧ (w.store m).announcement = some announcement ∧ call.now ≤ deadline

instance (m : Side) (announcement : Announcement) (deadline : ℚ) (w : TokenPair) (call : TokenCall) :
    Decidable (Delivers m announcement deadline w call) :=
  inferInstanceAs (Decidable (_ ∧ _ ∧ _))

def EveryReaches : TokenPair → List TokenCall → Prop
  | _, [] => True
  | w, call :: calls => ∀ r ∈ step c grace w call,
      (∀ m ∈ call.rotator, ∀ announcement ∈ (r.1.store m).announcement,
        Eventually (step c grace) (Delivers m announcement (call.now + grace)) r.1 calls) ∧
      EveryReaches r.1 calls

instance decidableEveryReaches : ∀ w calls, Decidable (EveryReaches c grace w calls)
  | _, [] => isTrue trivial
  | w, call :: calls =>
    have : ∀ w, Decidable (EveryReaches c grace w calls) := fun w => decidableEveryReaches w calls
    inferInstanceAs (Decidable (∀ r ∈ step c grace w call,
      (∀ m ∈ call.rotator, ∀ announcement ∈ (r.1.store m).announcement,
        Eventually (step c grace) (Delivers m announcement (call.now + grace)) r.1 calls) ∧
      EveryReaches c grace r.1 calls))

end TokenPair

structure Rooted (c : Crypto) (s : TokenStore) (token : Str) : Prop where
  primary : ∃ info, s.primary = some info ∧ info.token = token
  accepted : token ∈ s.acceptedTokens
  keyed : ∀ entry ∈ s.accepted, entry.2.token = entry.1
  descends : ∀ other ∈ s.acceptedTokens, ReflTransGen (Rotated c) other token

def Led (c : Crypto) (s : TokenStore) (token : Str) : Prop :=
  ∀ announcement ∈ s.announcement, ∃ anchor t,
    Announces c announcement anchor (.finite t) ∧ deriveRotationToken c anchor (.finite t) = token

section Rooted

variable {c : Crypto} {s : TokenStore} {token : Str} {now cutoff : ℚ}

theorem Rooted.primaryToken (h : Rooted c s token) : s.primaryToken = token := by
  obtain ⟨info,hprimary,rfl⟩ := h.primary
  exact primaryToken_of_primary hprimary

theorem Rooted.retireOlderThan (h : Rooted c s token) : Rooted c (s.retireOlderThan cutoff) token := by
  obtain ⟨info,hmem⟩ := mem_acceptedTokens.mp h.accepted
  exact ⟨h.primary,
    mem_acceptedTokens.mpr ⟨info, mem_retireOlderThan.mpr ⟨hmem, .inl h.primaryToken.symm⟩⟩,
    fun entry hentry => h.keyed entry (mem_retireOlderThan.mp hentry).1,
    fun other hother => h.descends other (acceptedTokens_retireOlderThan hother)⟩

theorem keyed_setPrimary {old : TokenInfo} (hprimary : s.primary = some old)
    (h : ∀ entry ∈ s.accepted, entry.2.token = entry.1) :
    ∀ entry ∈ (s.setPrimary token now).accepted, entry.2.token = entry.1 := by
  intro entry hentry
  rw [accepted_setPrimary hprimary] at hentry
  rcases Dict.mem_set hentry with hentry | rfl
  · rcases Dict.mem_set hentry with hentry | rfl
    · exact h entry hentry
    · rfl
  · rfl

theorem Rooted.setPrimary (h : Rooted c s token) (t now : ℚ) :
    Rooted c (s.setPrimary (deriveRotationToken c token (.finite t)) now) (deriveRotationToken c token (.finite t)) := by
  obtain ⟨old,hprimary,htoken⟩ := h.primary
  have hmem : ∀ other, other ∈ (s.setPrimary (deriveRotationToken c token (.finite t)) now).acceptedTokens ↔
      other ∈ s.acceptedTokens ∨ other = deriveRotationToken c token (.finite t) :=
    fun _ => mem_acceptedTokens_setPrimary hprimary (htoken ▸ h.accepted)
  refine ⟨⟨_, rfl, rfl⟩, (hmem _).mpr (.inr rfl), keyed_setPrimary hprimary h.keyed, ?_⟩
  intro other hother
  rcases (hmem other).mp hother with hother | rfl
  · exact (h.descends other hother).tail rotated_derive
  · exact .refl

theorem Rooted.with_announcement (h : Rooted c s token) (announcement : Option Announcement) :
    Rooted c { s with announcement := announcement } token := ⟨h.primary, h.accepted, h.keyed, h.descends⟩

end Rooted

section Missed

variable {c : Crypto} {grace now : ℚ} {s s' : TokenStore} {anchor : Str} {t : ℚ}
  {announcement : Announcement}

structure Missed (c : Crypto) (s : TokenStore) (announcement : Announcement) (anchor : Str) (t : ℚ) :
    Prop where
  replaced : s.announcement ≠ some announcement
  moved : ∃ info, s.primary = some info ∧ TransGen (Rotated c) anchor info.token
  accepted : s.primaryToken ∈ s.acceptedTokens
  holds : Holds s (deriveRotationToken c anchor (.finite t)) t

theorem moved_ne_nil (hc : c.Ideal) {info : TokenInfo}
    (h : TransGen (Rotated c) anchor info.token) : info.token ≠ [] := by
  obtain ⟨last,_,announcedAt,hlast⟩ := TransGen.tail'_iff.mp h
  exact hlast ▸ hc.ne_nil _ _

theorem promoted_accepted {token : Str} : token ∈ (s.setPrimary token now).acceptedTokens :=
  (holds_promoted : Holds _ token now).accepted

theorem Missed.rotate (hc : c.Ideal) (hfresh : Fresh c anchor)
    (hann : Announces c announcement anchor (.finite t)) (ht : t ≤ now) {info : TokenInfo}
    (hprimary : s.primary = some info) (hmoved : TransGen (Rotated c) anchor info.token)
    (hholds : Holds s (deriveRotationToken c anchor (.finite t)) t) (announcedBy fresh : Str) :
    Missed c (s.rotate c none announcedBy fresh now grace) announcement anchor t := by
  obtain ⟨announcement',hann',heq⟩ :=
    rotate_derives c now hprimary (moved_ne_nil hc hmoved) announcedBy fresh grace
  rw [heq]
  refine ⟨?_, ⟨_, rfl, hmoved.tail rotated_derive⟩, promoted_accepted,
    Holds.setPrimary hholds (by simp [hprimary]) fun _ => ht⟩
  intro hsame
  obtain rfl : announcement' = announcement := Option.some.inj hsame
  have hanchor : info.token = anchor := (hann.unique hc hann').1
  exact hfresh (hanchor ▸ hmoved)

theorem Missed.hear (hc : c.Ideal) (hann : Announces c announcement anchor (.finite t)) (ht : t ≤ now)
    (h : Missed c s announcement anchor t) (heard : Announcement) :
    Missed c (s.applyAnnouncement c heard now).1 announcement anchor t := by
  obtain ⟨info,hprimary,hmoved⟩ := h.moved
  rcases s.applyAnnouncement_cases c heard now with heq | ⟨t',anchor',hverifies,heq⟩
  · rw [heq]
    exact h
  · have hreplaced : (some heard : Option Announcement) ≠ some announcement := by
      rintro hsame
      obtain rfl := Option.some.inj hsame
      obtain ⟨rfl,rfl⟩ := hann.unique hc hverifies.announces
      exact hverifies.not_accepted h.holds.accepted
    rw [heq]
    dsimp only [follow]
    split
    · next hanchor =>
      have hinfo : info.token = anchor' := hanchor ▸ (primaryToken_of_primary hprimary).symm
      exact ⟨hreplaced, ⟨_, rfl, (hinfo ▸ hmoved).tail rotated_derive⟩, promoted_accepted,
        h.holds.setPrimary (by simp [hprimary]) fun _ => ht⟩
    · refine ⟨hreplaced, ⟨info, (primary_adoptToken _ _).trans hprimary, hmoved⟩, ?_,
        h.holds.adoptToken _ _⟩
      have hsub := acceptedTokens_adoptToken (s := s)
        (deriveRotationToken c anchor' t') 0 (t'.min (.finite now))
      exact (primaryToken_adoptToken s (deriveRotationToken c anchor' t') 0 (t'.min (.finite now))) ▸
        hsub h.accepted

theorem Missed.retireOlderThan (h : Missed c s announcement anchor t) {cutoff : ℚ}
    (hcutoff : cutoff ≤ t) : Missed c (s.retireOlderThan cutoff) announcement anchor t := by
  obtain ⟨info,hprimary,hmoved⟩ := h.moved
  have hheld : Holds s s.primaryToken t := by
    obtain ⟨entry,hmem⟩ := mem_acceptedTokens.mp h.accepted
    exact ⟨entry, hmem, .inl rfl⟩
  exact ⟨h.replaced, ⟨info, hprimary, hmoved⟩, (hheld.retireOlderThan hcutoff).accepted,
    h.holds.retireOlderThan hcutoff⟩

end Missed

namespace TokenPair

section Steps

variable {c : Crypto} {grace : ℚ} {w : TokenPair} {call : TokenCall} {r : TokenPair × List Unit}

theorem step_spec (h : step c grace w call = some r) :
    w.clock ≤ call.now ∧ r.1 = w.act c grace call := by
  rw [step] at h
  split at h
  · cases h
  · next hnow =>
    cases h
    exact ⟨not_lt.mp hnow, rfl⟩

@[simp] theorem clock_act : (w.act c grace call).clock = call.now := by
  cases call with
  | rotate m announcedBy fresh now => rfl
  | deliver sender now =>
    rw [act]
    split <;> rfl
  | retire m now => rfl

@[simp] theorem store_put_self (m : Side) (s : TokenStore) (now : ℚ) :
    (w.put m s now).store m = s := by simp only [put, Function.update_self]

@[simp] theorem store_put_peer (m : Side) (s : TokenStore) (now : ℚ) :
    (w.put m s now).store m.peer = w.store m.peer := by
  simp only [put, ne_eq, m.peer_ne, not_false_eq_true, Function.update_of_ne]

@[simp] theorem store_put_of_peer (m : Side) (s : TokenStore) (now : ℚ) :
    (w.put m.peer s now).store m = w.store m := by
  simp only [put, ne_eq, m.peer_ne.symm, not_false_eq_true, Function.update_of_ne]

inductive Change (c : Crypto) (grace now : ℚ) (s : TokenStore) : TokenStore → Prop where
  | same : Change c grace now s s
  | rotate (announcedBy fresh : Str) : Change c grace now s (s.rotate c none announcedBy fresh now grace)
  | hear (heard : Announcement) : Change c grace now s (s.applyAnnouncement c heard now).1
  | retire : Change c grace now s (s.retireOlderThan (now - grace))

theorem change_act (m : Side) :
    Change c grace call.now (w.store m) ((w.act c grace call).store m) := by
  cases call with
  | rotate m' announcedBy fresh now =>
    rcases m.eq_or_peer m' with rfl | rfl
    · rw [act, store_put_self]
      exact .rotate announcedBy fresh
    · rw [act, store_put_of_peer]
      exact .same
  | deliver sender now =>
    rw [act]
    split
    · exact .same
    · next announcement _ =>
      rcases m.eq_or_peer sender with rfl | rfl
      · rw [store_put_of_peer]
        exact .same
      · rw [Side.peer_peer, store_put_self]
        exact .hear announcement
  | retire m' now =>
    rcases m.eq_or_peer m' with rfl | rfl
    · rw [act, store_put_self]
      exact .retire
    · rw [act, store_put_of_peer]
      exact .same

theorem clock_le_deadline {m : Side} {announcement : Announcement} {deadline : ℚ}
    {calls : List TokenCall}
    (h : Eventually (step c grace) (Delivers m announcement deadline) w calls) :
    w.clock ≤ deadline := by
  induction calls generalizing w with
  | nil => exact h.elim
  | cons call calls ih =>
    obtain ⟨r,hr,h⟩ := h
    obtain ⟨hclock,hact⟩ := step_spec hr
    rcases h with h | h
    · exact hclock.trans h.2.2
    · have hrest := ih h
      rw [hact, clock_act] at hrest
      exact hclock.trans hrest

theorem Missed.change (hc : c.Ideal) (hfresh : Fresh c anchor) {s s' : TokenStore} {now t : ℚ}
    {announcement : Announcement} (hann : Announces c announcement anchor (.finite t)) (ht : t ≤ now)
    (hdeadline : now ≤ t + grace) (h : Missed c s announcement anchor t)
    (hchange : Change c grace now s s') : Missed c s' announcement anchor t := by
  obtain ⟨info,hprimary,hmoved⟩ := h.moved
  cases hchange with
  | same => exact h
  | rotate announcedBy fresh =>
    exact .rotate hc hfresh hann ht hprimary hmoved h.holds announcedBy fresh
  | hear heard => exact h.hear hc hann ht heard
  | retire => exact h.retireOlderThan (by linarith)

theorem not_delivered_of_missed (hc : c.Ideal) {anchor : Str} (hfresh : Fresh c anchor) {t : ℚ}
    {announcement : Announcement} (hann : Announces c announcement anchor (.finite t)) {m : Side}
    {calls : List TokenCall} (ht : t ≤ w.clock) (h : Missed c (w.store m) announcement anchor t) :
    ¬Eventually (step c grace) (Delivers m announcement (t + grace)) w calls := by
  have hstep : ∀ w call r, (t ≤ TokenPair.clock w ∧
      (w.clock ≤ t + grace → Missed c (w.store m) announcement anchor t)) →
      step c grace w call = some r → t ≤ TokenPair.clock r.1 ∧
        (r.1.clock ≤ t + grace → Missed c (r.1.store m) announcement anchor t) := by
    rintro w call r ⟨ht,h⟩ hr
    obtain ⟨hclock,hact⟩ := step_spec hr
    rw [hact, clock_act]
    exact ⟨ht.trans hclock, fun hdeadline => Missed.change hc hfresh hann (ht.trans hclock) hdeadline
      (h (hclock.trans hdeadline)) (change_act m)⟩
  refine not_eventually hstep ?_ ⟨ht, fun _ => h⟩
  rintro w call r ⟨_,h⟩ hr ⟨_,hannounces,hdeadline⟩
  exact (h ((step_spec hr).1.trans hdeadline)).replaced hannounces

end Steps

section Forked

variable {c : Crypto} {grace : ℚ} {token : Str} {t t' : ℚ} {announcement announcement' : Announcement}

structure Branch (c : Crypto) (s : TokenStore) (token : Str) (t : ℚ) (announcement : Announcement)
    (other : Str) : Prop where
  announced : Announces c announcement token (.finite t)
  announcement : s.announcement = some announcement
  primary : ∃ info, s.primary = some info ∧ info.token = deriveRotationToken c token (.finite t)
  accepted : deriveRotationToken c token (.finite t) ∈ s.acceptedTokens
  holds : Holds s token t
  misses : other ∉ s.acceptedTokens

theorem Branch.holds_own {s : TokenStore} {other : Str} (h : Branch c s token t announcement other)
    (since : ℚ) : Holds s (deriveRotationToken c token (.finite t)) since := by
  obtain ⟨info,hprimary,hinfo⟩ := h.primary
  exact hinfo ▸ holds_primary hprimary (hinfo ▸ h.accepted)

theorem Branch.missed_of_rotate (hc : c.Ideal) (hfresh : Fresh c token) {s : TokenStore} {other : Str}
    {now : ℚ} (h : Branch c s token t announcement other) (ht : t ≤ now) (announcedBy fresh : Str) :
    Missed c (s.rotate c none announcedBy fresh now grace) announcement token t := by
  obtain ⟨info,hprimary,hinfo⟩ := h.primary
  exact .rotate hc hfresh h.announced ht hprimary (hinfo ▸ .single rotated_derive) (h.holds_own t) _ _

theorem Branch.missed_of_deliver (hc : c.Ideal) (hfresh : Fresh c token) {s : TokenStore} {now : ℚ}
    (h : Branch c s token t announcement (deriveRotationToken c token (.finite t')))
    (hann : Announces c announcement' token (.finite t'))
    (hne : deriveRotationToken c token (.finite t') ≠ deriveRotationToken c token (.finite t)) :
    Missed c (s.applyAnnouncement c announcement' now).1 announcement token t := by
  obtain ⟨info,hprimary,hinfo⟩ := h.primary
  have htoken := (primaryToken_of_primary hprimary).trans hinfo
  have hnot : token ≠ s.primaryToken := by
    rw [htoken]
    intro heq
    exact hfresh.not_descends (t := .finite t) (heq ▸ .refl)
  have hreplaced : (some announcement' : Option Announcement) ≠ some announcement := by
    intro hsame
    obtain rfl := Option.some.inj hsame
    obtain ⟨_,htime⟩ := h.announced.unique hc hann
    exact hne (by rw [htime])
  rw [applyAnnouncement_new hc hann h.holds.accepted (htoken ▸ hne) h.misses, follow, if_neg hnot]
  refine ⟨hreplaced, ⟨info, (primary_adoptToken 0 _).trans hprimary, hinfo ▸ .single rotated_derive⟩, ?_,
    (h.holds_own t).adoptToken 0 _⟩
  have hsub := acceptedTokens_adoptToken (s := s) (deriveRotationToken c token (.finite t')) 0
    ((Number.finite t').min (.finite now))
  exact (primaryToken_adoptToken s (deriveRotationToken c token (.finite t')) 0
    ((Number.finite t').min (.finite now))) ▸ hsub (htoken ▸ h.accepted)

theorem Branch.retireOlderThan {s : TokenStore} {other : Str} {cutoff : ℚ}
    (h : Branch c s token t announcement other) (hcutoff : cutoff ≤ t) :
    Branch c (s.retireOlderThan cutoff) token t announcement other :=
  ⟨h.announced, h.announcement, h.primary, ((h.holds_own t).retireOlderThan hcutoff).accepted,
    h.holds.retireOlderThan hcutoff, fun hother => h.misses (acceptedTokens_retireOlderThan hother)⟩

structure Forked (c : Crypto) (w : TokenPair) (m : Side) (token : Str) (t t' : ℚ)
    (announcement announcement' : Announcement) : Prop where
  own : Branch c (w.store m) token t announcement (deriveRotationToken c token (.finite t'))
  peer : Branch c (w.store m.peer) token t' announcement' (deriveRotationToken c token (.finite t))
  apart : deriveRotationToken c token (.finite t) ≠ deriveRotationToken c token (.finite t')
  own_made : t ≤ w.clock
  peer_made : t' ≤ w.clock

theorem Forked.swap {w : TokenPair} {m : Side}
    (h : Forked c w m token t t' announcement announcement') :
    Forked c w m.peer token t' t announcement' announcement :=
  ⟨h.peer, m.peer_peer.symm ▸ h.own, h.apart.symm, h.peer_made, h.own_made⟩

theorem Forked.step_own (hc : c.Ideal) (hfresh : Fresh c token) {w : TokenPair} {m : Side}
    {call : TokenCall} (h : Forked c w m token t t' announcement announcement')
    (hclock : w.clock ≤ call.now)
    (hcall : call.rotator = some m ∨ call.sender = some m.peer) :
    Missed c ((w.act c grace call).store m) announcement token t := by
  cases call with
  | rotate m' announcedBy fresh now =>
    obtain rfl : m' = m := by simpa [TokenCall.rotator, TokenCall.sender] using hcall
    rw [act, store_put_self]
    exact h.own.missed_of_rotate hc hfresh (h.own_made.trans hclock) announcedBy fresh
  | deliver sender now =>
    obtain rfl : sender = m.peer := by simpa [TokenCall.rotator, TokenCall.sender] using hcall
    rw [act, h.peer.announcement]
    dsimp only
    rw [Side.peer_peer, store_put_self]
    exact h.own.missed_of_deliver hc hfresh h.peer.announced h.apart.symm
  | retire m' now => simp [TokenCall.rotator, TokenCall.sender] at hcall

theorem Forked.step_retire {w : TokenPair} {m : Side} {call : TokenCall}
    (h : Forked c w m token t t' announcement announcement') (hclock : w.clock ≤ call.now)
    (hcall : call.rotator = none ∧ call.sender = none) (hown : call.now ≤ t + grace)
    (hpeer : call.now ≤ t' + grace) :
    Forked c (w.act c grace call) m token t t' announcement announcement' := by
  cases call with
  | rotate m' announcedBy fresh now => simp [TokenCall.rotator] at hcall
  | deliver sender now => simp [TokenCall.sender] at hcall
  | retire m' now =>
    have hcut : now - grace ≤ t ∧ now - grace ≤ t' := by
      rw [TokenCall.now] at hown hpeer
      exact ⟨by linarith, by linarith⟩
    rcases m.eq_or_peer m' with rfl | rfl
    · refine ⟨?_, ?_, h.apart, h.own_made.trans hclock, h.peer_made.trans hclock⟩
      · rw [act, store_put_self]
        exact h.own.retireOlderThan hcut.1
      · rw [act, store_put_peer]
        exact h.peer
    · refine ⟨?_, ?_, h.apart, h.own_made.trans hclock, h.peer_made.trans hclock⟩
      · rw [act, store_put_of_peer]
        exact h.own
      · rw [act, store_put_self]
        exact h.peer.retireOlderThan hcut.2

theorem idle_of_not {m : Side} {call : TokenCall}
    (hown : ¬(call.rotator = some m ∨ call.sender = some m.peer))
    (hpeer : ¬(call.rotator = some m.peer ∨ call.sender = some m.peer.peer)) :
    (call.rotator = none ∧ call.sender = none) ∧ call.sender ≠ some m ∧ call.sender ≠ some m.peer := by
  cases call with
  | rotate m' announcedBy fresh now =>
    rcases m.eq_or_peer m' with rfl | rfl <;> simp [TokenCall.rotator] at hown hpeer
  | deliver sender now =>
    rcases m.eq_or_peer sender with rfl | rfl <;> simp [TokenCall.sender] at hown hpeer
  | retire m' now => exact ⟨⟨rfl, rfl⟩, by simp [TokenCall.sender], by simp [TokenCall.sender]⟩

theorem Forked.own_undelivered (hc : c.Ideal) (hfresh : Fresh c token) {w : TokenPair} {m : Side}
    {call : TokenCall} {calls : List TokenCall}
    (h : Forked c w m token t t' announcement announcement')
    (hcall : call.rotator = some m ∨ call.sender = some m.peer) :
    ¬Eventually (step c grace) (Delivers m announcement (t + grace)) w (call :: calls) := by
  rintro ⟨r,hr,hdelivers | hlater⟩
  · obtain ⟨hsender,_⟩ := hdelivers
    rcases hcall with hcall | hcall
    · cases call <;> simp [TokenCall.rotator, TokenCall.sender] at hcall hsender
    · exact m.peer_ne (Option.some.inj (hcall.symm.trans hsender))
  · obtain ⟨hclock,hact⟩ := step_spec hr
    rw [hact] at hlater
    refine not_delivered_of_missed hc hfresh h.own.announced ?_ (h.step_own hc hfresh hclock hcall) hlater
    rw [clock_act]
    exact h.own_made.trans hclock

theorem not_both_delivered (hc : c.Ideal) (hfresh : Fresh c token) {w : TokenPair} {m : Side}
    {calls : List TokenCall} (h : Forked c w m token t t' announcement announcement')
    (hown : Eventually (step c grace) (Delivers m announcement (t + grace)) w calls)
    (hpeer : Eventually (step c grace) (Delivers m.peer announcement' (t' + grace)) w calls) : False := by
  induction calls generalizing w with
  | nil => exact hown
  | cons call calls ih =>
    by_cases hcall : call.rotator = some m ∨ call.sender = some m.peer
    · exact h.own_undelivered hc hfresh hcall hown
    · by_cases hcall' : call.rotator = some m.peer ∨ call.sender = some m.peer.peer
      · exact h.swap.own_undelivered hc hfresh hcall' hpeer
      · obtain ⟨hidle,hsender,hsender'⟩ := idle_of_not hcall hcall'
        obtain ⟨r,hr,_⟩ := id hown
        obtain ⟨hclock,hact⟩ := step_spec hr
        have hown' := hown.later hr fun hdelivers => hsender hdelivers.1
        have hpeer' := hpeer.later hr fun hdelivers => hsender' hdelivers.1
        have hown_now := clock_le_deadline hown'
        have hpeer_now := clock_le_deadline hpeer'
        rw [hact] at hown' hpeer' hown_now hpeer_now
        rw [clock_act] at hown_now hpeer_now
        exact ih (h.step_retire hclock hidle hown_now hpeer_now) hown' hpeer'

end Forked

section Phases

variable {c : Crypto} {grace now : ℚ} {w : TokenPair} {m : Side} {token : Str} {t : ℚ}
  {announcement : Announcement}

structure Synced (c : Crypto) (w : TokenPair) (token : Str) : Prop where
  rooted : ∀ m, Rooted c (w.store m) token
  led : ∀ m, Led c (w.store m) token

structure Pending (c : Crypto) (w : TokenPair) (m : Side) (token : Str) (t : ℚ)
    (announcement : Announcement) : Prop where
  announced : Announces c announcement token (.finite t)
  announcement : (w.store m).announcement = some announcement
  rotated : Rooted c (w.store m) (deriveRotationToken c token (.finite t))
  holds : Holds (w.store m) token t
  peer : Rooted c (w.store m.peer) token
  led : Led c (w.store m.peer) token
  made : t ≤ w.clock

theorem Synced.of_sides (hm : Rooted c (w.store m) token) (hled : Led c (w.store m) token)
    (hpeer : Rooted c (w.store m.peer) token) (hledpeer : Led c (w.store m.peer) token) :
    Synced c w token := by
  constructor
  · intro m'
    rcases m.eq_or_peer m' with rfl | rfl
    · exact hm
    · exact hpeer
  · intro m'
    rcases m.eq_or_peer m' with rfl | rfl
    · exact hled
    · exact hledpeer

variable (grace now) in
theorem store_deliver_known {sender : Side} (hc : c.Ideal) (hled : Led c (w.store sender) token)
    (hknown : token ∈ (w.store sender.peer).acceptedTokens) :
    (w.act c grace (.deliver sender now)).store = w.store := by
  rw [act]
  split
  · rfl
  · next announcement hann =>
    obtain ⟨anchor,t,hannounces,htoken⟩ := hled announcement hann
    rw [applyAnnouncement_known hc hannounces (htoken ▸ hknown)]
    exact Function.update_eq_self _ _

theorem Synced.of_store {w' : TokenPair} (h : Synced c w token) (heq : w'.store = w.store) :
    Synced c w' token := ⟨heq ▸ h.rooted, heq ▸ h.led⟩

theorem Synced.retire (h : Synced c w token) (m : Side) :
    Synced c (w.act c grace (.retire m now)) token := by
  refine .of_sides (m := m) ?_ ?_ ?_ ?_
  · rw [act, store_put_self]
    exact (h.rooted m).retireOlderThan
  · rw [act, store_put_self]
    exact h.led m
  · rw [act, store_put_peer]
    exact h.rooted m.peer
  · rw [act, store_put_peer]
    exact h.led m.peer

variable (grace now) in
theorem Synced.rotate (h : Synced c w token) (hne : token ≠ []) (m : Side) (announcedBy fresh : Str) :
    ∃ announcement, Pending c (w.act c grace (.rotate m announcedBy fresh now)) m token now
      announcement := by
  obtain ⟨info,hprimary,rfl⟩ := (h.rooted m).primary
  obtain ⟨announcement,hann,heq⟩ :=
    rotate_derives c now hprimary hne announcedBy fresh grace
  refine ⟨announcement, hann, ?_, ?_, ?_, ?_, ?_, le_refl _⟩
  · rw [act, store_put_self, heq]
    rfl
  · rw [act, store_put_self, heq]
    exact ((h.rooted m).with_announcement _).setPrimary now now
  · have hheld : Holds (w.store m) info.token now := holds_primary hprimary (h.rooted m).accepted
    have hheld' : Holds { w.store m with announcement := some announcement } info.token now := hheld
    rw [act, store_put_self, heq]
    exact hheld'.setPrimary (by simp [hprimary]) fun _ => le_refl _
  · rw [act, store_put_peer]
    exact h.rooted m.peer
  · rw [act, store_put_peer]
    exact h.led m.peer

theorem Pending.of_store {w' : TokenPair} (h : Pending c w m token t announcement)
    (heq : w'.store = w.store) (hclock : w.clock ≤ w'.clock) : Pending c w' m token t announcement :=
  ⟨h.announced, heq ▸ h.announcement, heq ▸ h.rotated, heq ▸ h.holds, heq ▸ h.peer, heq ▸ h.led,
    h.made.trans hclock⟩

theorem Pending.retire (h : Pending c w m token t announcement) (hclock : w.clock ≤ now)
    (hnow : now ≤ t + grace) (m' : Side) :
    Pending c (w.act c grace (.retire m' now)) m token t announcement := by
  rcases m.eq_or_peer m' with rfl | rfl
  · refine ⟨h.announced, ?_, ?_, ?_, ?_, ?_, h.made.trans hclock⟩
    · rw [act, store_put_self]
      exact h.announcement
    · rw [act, store_put_self]
      exact h.rotated.retireOlderThan
    · rw [act, store_put_self]
      exact h.holds.retireOlderThan (by linarith)
    · rw [act, store_put_peer]
      exact h.peer
    · rw [act, store_put_peer]
      exact h.led
  · refine ⟨h.announced, ?_, ?_, ?_, ?_, ?_, h.made.trans hclock⟩
    · rw [act, store_put_of_peer]
      exact h.announcement
    · rw [act, store_put_of_peer]
      exact h.rotated
    · rw [act, store_put_of_peer]
      exact h.holds
    · rw [act, store_put_self]
      exact h.peer.retireOlderThan
    · rw [act, store_put_self]
      exact h.led

variable (grace now) in
theorem Pending.deliver (hc : c.Ideal) (hfresh : Fresh c token)
    (h : Pending c w m token t announcement) :
    Synced c (w.act c grace (.deliver m now)) (deriveRotationToken c token (.finite t)) := by
  have hnew : deriveRotationToken c token (.finite t) ∉ (w.store m.peer).acceptedTokens :=
    fun hmem => hfresh.not_descends (h.peer.descends _ hmem)
  have hprimary : deriveRotationToken c token (.finite t) ≠ (w.store m.peer).primaryToken := by
    rw [h.peer.primaryToken]
    intro heq
    rw [heq] at hnew
    exact hnew h.peer.accepted
  have hact : w.act c grace (.deliver m now) = w.put m.peer
      { (w.store m.peer).setPrimary (deriveRotationToken c token (.finite t)) now with
        announcement := some announcement } now := by
    rw [act, h.announcement]
    dsimp only
    rw [applyAnnouncement_new hc h.announced h.peer.accepted hprimary hnew, follow,
      if_pos h.peer.primaryToken.symm]
  have hled : ∀ announcement' ∈ some announcement, ∃ anchor t',
      Announces c announcement' anchor (.finite t') ∧
      deriveRotationToken c anchor (.finite t') = deriveRotationToken c token (.finite t) := by
    rintro _ ⟨⟩
    exact ⟨token, t, h.announced, rfl⟩
  rw [hact]
  refine .of_sides (m := m) ?_ ?_ ?_ ?_
  · rw [store_put_of_peer]
    exact h.rotated
  · rw [store_put_of_peer, Led, h.announcement]
    exact hled
  · rw [store_put_self]
    exact (h.peer.setPrimary t _).with_announcement _
  · rw [store_put_self]
    exact hled

end Phases

section Sharing

variable {c : Crypto} {grace now : ℚ} {w : TokenPair} {m : Side} {token : Str} {t : ℚ}
  {announcement : Announcement}

variable (grace now) in
theorem Pending.rotate_own (hc : c.Ideal) (hfresh : Fresh c token)
    (h : Pending c w m token t announcement) (hclock : w.clock ≤ now) (announcedBy fresh : Str) :
    Missed c ((w.act c grace (.rotate m announcedBy fresh now)).store m) announcement token t := by
  obtain ⟨info,hprimary,hinfo⟩ := h.rotated.primary
  have hholds : Holds (w.store m) info.token t :=
    holds_primary hprimary (hinfo ▸ h.rotated.accepted)
  rw [act, store_put_self]
  exact .rotate hc hfresh h.announced (h.made.trans hclock) hprimary
    (hinfo ▸ .single rotated_derive) (hinfo ▸ hholds) announcedBy fresh

variable (grace now) in
theorem Pending.rotate_peer (hc : c.Ideal) (hfresh : Fresh c token) (hne : token ≠ [])
    (h : Pending c w m token t announcement) (hclock : w.clock ≤ now) (announcedBy fresh : Str) :
    let w' := w.act c grace (.rotate m.peer announcedBy fresh now)
    Synced c w' (deriveRotationToken c token (.finite t)) ∨
      ∃ announcement', (w'.store m.peer).announcement = some announcement' ∧
        Forked c w' m token t now announcement announcement' := by
  obtain ⟨info,hprimary,rfl⟩ := h.peer.primary
  obtain ⟨announcement',hann',heq⟩ :=
    rotate_derives c now hprimary hne announcedBy fresh grace
  have hrooted := (h.peer.with_announcement (some announcement')).setPrimary now now
  by_cases hsame : deriveRotationToken c info.token (.finite now) = deriveRotationToken c info.token (.finite t)
  · left
    rw [hsame] at hrooted
    refine .of_sides (m := m) ?_ ?_ ?_ ?_
    · rw [act, store_put_of_peer]
      exact h.rotated
    · rw [act, store_put_of_peer, Led, h.announcement]
      rintro _ ⟨⟩
      exact ⟨info.token, t, h.announced, rfl⟩
    · rw [act, store_put_self, heq, hsame]
      exact hrooted
    · rw [act, store_put_self, heq]
      rintro _ ⟨⟩
      exact ⟨info.token, now, hann', hsame⟩
  · right
    obtain ⟨own,hown,hinfo⟩ := h.rotated.primary
    have hheld : Holds { w.store m.peer with announcement := some announcement' } info.token now :=
      holds_primary hprimary h.peer.accepted
    refine ⟨announcement', ?_, ⟨h.announced, ?_, ?_, ?_, ?_, ?_⟩, ⟨hann', ?_, ?_, ?_, ?_, ?_⟩,
      Ne.symm hsame, h.made.trans hclock, le_refl _⟩
    · rw [act, store_put_self, heq]
      rfl
    · rw [act, store_put_of_peer]
      exact h.announcement
    · rw [act, store_put_of_peer]
      exact ⟨own, hown, hinfo⟩
    · rw [act, store_put_of_peer]
      exact h.rotated.accepted
    · rw [act, store_put_of_peer]
      exact h.holds
    · rw [act, store_put_of_peer]
      exact fun hmem => hfresh.not_descends_sibling hc hsame (h.rotated.descends _ hmem)
    · rw [act, store_put_self, heq]
      rfl
    · rw [act, store_put_self, heq]
      exact hrooted.primary
    · rw [act, store_put_self, heq]
      exact hrooted.accepted
    · rw [act, store_put_self, heq]
      exact hheld.setPrimary (by simp [hprimary]) fun _ => le_refl _
    · rw [act, store_put_self, heq]
      exact fun hmem => hfresh.not_descends_sibling hc (Ne.symm hsame) (hrooted.descends _ hmem)

inductive Phase (c : Crypto) (grace : ℚ) (w : TokenPair) (calls : List TokenCall) : Prop where
  | synced (token : Str) (hne : token ≠ []) (hfresh : Fresh c token) (h : Synced c w token)
  | pending (m : Side) (token : Str) (t : ℚ) (announcement : Announcement) (hne : token ≠ [])
      (hfresh : Fresh c token) (h : Pending c w m token t announcement)
      (hreaches : Eventually (step c grace) (Delivers m announcement (t + grace)) w calls)

theorem Phase.step (hc : c.Ideal) {call : TokenCall} {calls : List TokenCall}
    {r : TokenPair × List Unit} (h : Phase c grace w (call :: calls))
    (hreach : EveryReaches c grace w (call :: calls)) (hr : step c grace w call = some r) :
    Phase c grace r.1 calls := by
  obtain ⟨hclock,hact⟩ := step_spec hr
  have hmade := (hreach r hr).1
  cases h with
  | synced token hne hfresh h =>
    cases call with
    | rotate m announcedBy fresh now =>
      obtain ⟨announcement,hpending⟩ := h.rotate grace now hne m announcedBy fresh
      rw [← hact] at hpending
      exact .pending m token now announcement hne hfresh hpending
        (hmade m rfl announcement hpending.announcement)
    | deliver sender now =>
      have hstore := store_deliver_known grace now hc (h.led sender)
        (h.rooted sender.peer).accepted
      exact .synced token hne hfresh (h.of_store (hact ▸ hstore))
    | retire m now => exact .synced token hne hfresh (hact ▸ h.retire m)
  | pending m token t announcement hne hfresh h hreaches =>
    have hlater := fun hnot => hreaches.later hr hnot
    have hdeadline : call.now ≤ t + grace := by
      by_cases hdelivers : Delivers m announcement (t + grace) w call
      · exact hdelivers.2.2
      · have hbefore := clock_le_deadline (hlater hdelivers)
        rw [hact, clock_act] at hbefore
        exact hbefore
    cases call with
    | rotate m' announcedBy fresh now =>
      have hstill := hlater fun hdelivers => Option.some_ne_none m hdelivers.1.symm
      rcases m.eq_or_peer m' with rfl | rfl
      · have hmissed := h.rotate_own grace now hc hfresh hclock announcedBy fresh
        rw [← hact] at hmissed
        refine absurd hstill (not_delivered_of_missed hc hfresh h.announced ?_ hmissed)
        rw [hact, clock_act]
        exact h.made.trans hclock
      · rcases h.rotate_peer grace now hc hfresh hne hclock announcedBy fresh with
          hsynced | ⟨announcement',hann',hforked⟩
        · rw [← hact] at hsynced
          exact .synced _ (hc.ne_nil _ _) (hfresh.derive hc _) hsynced
        · rw [← hact] at hann' hforked
          exact (not_both_delivered hc hfresh hforked hstill
            (hmade m.peer rfl announcement' hann')).elim
    | deliver sender now =>
      rcases m.eq_or_peer sender with rfl | rfl
      · have hsynced := h.deliver grace now hc hfresh
        rw [← hact] at hsynced
        exact .synced _ (hc.ne_nil _ _) (hfresh.derive hc _) hsynced
      · have hstore := store_deliver_known grace now hc h.led
          (m.peer_peer.symm ▸ h.holds.accepted)
        have hclock' : w.clock ≤ r.1.clock := by rw [hact, clock_act]; exact hclock
        exact .pending m token t announcement hne hfresh
          (h.of_store (hact ▸ hstore) hclock')
          (hlater fun hdelivers => m.peer_ne (Option.some.inj hdelivers.1))
    | retire m' now =>
      have hstill := hlater fun hdelivers => Option.some_ne_none m hdelivers.1.symm
      exact .pending m token t announcement hne hfresh (hact ▸ h.retire hclock hdeadline m') hstill

structure Shares (c : Crypto) (w : TokenPair) : Prop where
  common : ∃ token, ∀ m, token ∈ (w.store m).acceptedTokens
  merges : ∀ m (own other : ClusterState) timestamp now, own.tokenStore = w.store m →
    other.tokenStore = w.store m.peer →
      (own.mergeState c (other.getStateSnapshot c timestamp) now).2 = .ok ()

theorem sharesDigest_of_common {tokens other : TokenStore} (htoken : token ∈ tokens.acceptedTokens)
    (hother : token ∈ other.acceptedTokens)
    (hkeyed : ∀ entry ∈ other.accepted, entry.2.token = entry.1) :
    ClusterState.sharesDigest c tokens (other.toGossipSnapshot c).accepted = true := by
  obtain ⟨info,hmem⟩ := mem_acceptedTokens.mp hother
  rw [ClusterState.sharesDigest, List.any_eq_true]
  refine ⟨_, List.mem_map_of_mem hmem, ?_⟩
  dsimp only
  rw [decide_eq_true_eq, hkeyed _ hmem]
  exact List.mem_map_of_mem htoken

theorem mergeState_of_common {own other : ClusterState} {timestamp : Str}
    (htoken : token ∈ own.tokenStore.acceptedTokens) (hother : token ∈ other.tokenStore.acceptedTokens)
    (hkeyed : ∀ entry ∈ other.tokenStore.accepted, entry.2.token = entry.1) :
    (own.mergeState c (other.getStateSnapshot c timestamp) now).2 = .ok () := by
  have hformat : ClusterState.inGossipFormat (other.tokenStore.toGossipSnapshot c) = true := by
    obtain ⟨info,hmem⟩ := mem_acceptedTokens.mp hother
    rw [ClusterState.inGossipFormat, toGossipSnapshot]
    cases haccepted : other.tokenStore.accepted with
    | nil => simp [haccepted] at hmem
    | cons entry entries => rfl
  rw [ClusterState.mergeState_trusted (ClusterState.mergeTokens_shared rfl hformat
    (sharesDigest_of_common htoken hother hkeyed))]

theorem Phase.shares {calls : List TokenCall} (h : Phase c grace w calls) : Shares c w := by
  have hshares : (∃ token, ∀ m, token ∈ (w.store m).acceptedTokens) ∧
      ∀ m, ∀ entry ∈ (w.store m).accepted, entry.2.token = entry.1 := by
    cases h with
    | synced token _ _ h =>
      exact ⟨⟨token, fun m => (h.rooted m).accepted⟩, fun m => (h.rooted m).keyed⟩
    | pending m token t announcement _ _ h _ =>
      refine ⟨⟨token, fun m' => ?_⟩, fun m' => ?_⟩
      · rcases m.eq_or_peer m' with rfl | rfl
        · exact h.holds.accepted
        · exact h.peer.accepted
      · rcases m.eq_or_peer m' with rfl | rfl
        · exact h.rotated.keyed
        · exact h.peer.keyed
  obtain ⟨⟨token,hcommon⟩,hkeyed⟩ := hshares
  refine ⟨⟨token, hcommon⟩, ?_⟩
  intro m own other timestamp now hown hother
  exact mergeState_of_common (hown ▸ hcommon m) (hother ▸ hcommon m.peer) (hother ▸ hkeyed m.peer)

structure StartsWith (s : TokenStore) (token : Str) : Prop where
  primary : ∃ info, s.primary = some info ∧ info.token = token
  accepted : s.acceptedTokens = [token]
  keyed : ∀ entry ∈ s.accepted, entry.2.token = entry.1
  announcement : s.announcement = none

theorem startsWith_init (hne : token ≠ []) : StartsWith (TokenStore.init token now) token := by
  rw [TokenStore.init, if_neg hne]
  exact ⟨⟨_, rfl, rfl⟩, rfl, by simp [setPrimary, Dict.set], rfl⟩

theorem StartsWith.synced (h : ∀ m, StartsWith (w.store m) token) : Synced c w token := by
  refine ⟨fun m => ⟨(h m).primary, (h m).accepted ▸ List.mem_singleton_self token, (h m).keyed, ?_⟩, ?_⟩
  · intro other hother
    rw [(h m).accepted, List.mem_singleton] at hother
    exact hother ▸ .refl
  · intro m announcement hann
    rw [(h m).announcement] at hann
    cases hann

theorem accepted_tokens_shared (hc : c.Ideal) (hne : token ≠ []) (hfresh : Fresh c token)
    {calls : List TokenCall} (hstart : ∀ m, StartsWith (w.store m) token)
    (hreach : EveryReaches c grace w calls) : Always (step c grace) (Shares c) w calls := by
  have hphase : Phase c grace w calls := .synced token hne hfresh (StartsWith.synced hstart)
  clear hstart
  induction calls generalizing w with
  | nil => exact hphase.shares
  | cons call calls ih =>
    refine ⟨hphase.shares, ?_⟩
    intro r hr
    exact ih (hreach r hr).2 (hphase.step hc hreach hr)

def sameStart : TokenPair := ⟨0, fun _ => TokenStore.init "s".toList 0⟩

theorem startsWith_sameStart (m : Side) : StartsWith (sameStart.store m) "s".toList := by
  have hstart : StartsWith (TokenStore.init "s".toList 0) "s".toList := startsWith_init (by decide)
  exact hstart

def oneRotationEach : List TokenCall :=
  [.rotate .near "n1".toList [] 1, .deliver .near 2, .rotate .far "n2".toList [] 3, .deliver .far 13,
    .retire .near 14, .retire .far 14]

theorem accepted_tokens_shared_after_two_rotations :
    Always (step Crypto.framed 10) (Shares Crypto.framed) sameStart oneRotationEach :=
  accepted_tokens_shared Crypto.framed_ideal (by decide) (fresh_framed "s".toList)
    startsWith_sameStart (by decide +kernel)

end Sharing

section Cycle

-- As framed, but deriving twice, at the times 1 and 2, leads from the token s back to it.
def cyclic : Crypto where
  hmac key message :=
    if key = Crypto.framed.hmac "s".toList (Crypto.framed.context (.finite 1)) ∧
        message = Crypto.framed.context (.finite 2) then "s".toList
    else Crypto.framed.hmac key message
  context := Crypto.framed.context
  tokenDigest := Crypto.framed.tokenDigest

theorem framed_ne_start (key message : Str) : Crypto.framed.hmac key message ≠ "s".toList := by
  cases key <;> simp [Crypto.framed]

theorem cyclic_ideal : cyclic.Ideal := by
  constructor
  · intro key key' message message' h
    simp only [cyclic] at h
    split at h
    · next hloop =>
      split at h
      · next hloop' => exact ⟨hloop.1.trans hloop'.1.symm, hloop.2.trans hloop'.2.symm⟩
      · exact absurd h.symm (framed_ne_start key' message')
    · split at h
      · exact absurd h (framed_ne_start key message)
      · exact Crypto.framed_ideal.injective h
  · intro key message
    simp only [cyclic]
    split
    · decide
    · exact Crypto.framed_ideal.ne_nil key message

def twoRotationsBack : List TokenCall :=
  [.rotate .near "n1".toList [] 1, .deliver .near 1, .rotate .near "n1".toList [] 2, .deliver .near 2,
    .retire .near 13, .retire .far 13]

theorem cyclic_derivation_splits_tokens :
    cyclic.Ideal ∧ (∀ m, StartsWith (sameStart.store m) "s".toList) ∧
      EveryReaches cyclic 10 sameStart twoRotationsBack ∧
      ¬Always (step cyclic 10) (Shares cyclic) sameStart twoRotationsBack := by
  refine ⟨cyclic_ideal, startsWith_sameStart, by decide +kernel, ?_⟩
  intro h
  have hrun : ∃ r, exec (step cyclic 10) sameStart twoRotationsBack = some r ∧
      (r.1.store .near).acceptedTokens = ["s".toList] ∧
      "s".toList ∉ (r.1.store .far).acceptedTokens := ⟨_, rfl, by decide +kernel, by decide +kernel⟩
  obtain ⟨r,hexec,hnear,hfar⟩ := hrun
  obtain ⟨token,hcommon⟩ := (h.final hexec).common
  have htoken := hcommon .near
  rw [hnear, List.mem_singleton] at htoken
  exact hfar (htoken ▸ hcommon .far)

end Cycle

end TokenPair

end PicoSentry.Sandbox.Cluster
