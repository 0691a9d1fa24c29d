import PicoSentry.Foundation.Run
import PicoSentry.Sandbox.ClusterTrust

namespace PicoSentry.Sandbox.Cluster.TokenStore

open Foundation Foundation.Run

-- The operations of a token store; each holds the store's lock, so that threads interleave whole ones.
inductive TokenOp where
  | setPrimary (token : Str) (now : ℚ)
  | rotate (newToken : Option Str) (announcedBy fresh : Str) (now grace : ℚ)
  | adoptToken (token : Str) (version : Int) (issuedAt : Number)
  | applyAnnouncement (announcement : Announcement) (now : ℚ)
  | retireOlderThan (cutoff : ℚ)

section Operations

variable (c : Crypto)

def perform (s : TokenStore) : TokenOp → TokenStore
  | .setPrimary token now => s.setPrimary token now
  | .rotate newToken announcedBy fresh now grace => s.rotate c newToken announcedBy fresh now grace
  | .adoptToken token version issuedAt => s.adoptToken token version issuedAt
  | .applyAnnouncement announcement now => (s.applyAnnouncement c announcement now).1
  | .retireOlderThan cutoff => s.retireOlderThan cutoff

def step (s : TokenStore) (op : TokenOp) : Option (TokenStore × List Unit) := some (s.perform c op, [])

def Verified (s : TokenStore) (announcement : Announcement) : Prop :=
  ∃ anchor ∈ s.acceptedTokens, ∃ t, Announces c announcement anchor t

structure Sound (s : TokenStore) : Prop where
  primary_accepted : ∀ info ∈ s.primary, info.token ∈ s.acceptedTokens
  primary_stays : ∀ info ∈ s.primary, ∀ cutoff, info.token ∈ (s.retireOlderThan cutoff).acceptedTokens
  announcement_verified : ∀ announcement ∈ s.announcement, s.Verified c announcement

def SparesAnchor (s : TokenStore) : TokenOp → Prop
  | .retireOlderThan cutoff => ∀ announcement ∈ s.announcement,
      ∃ anchor t, Announces c announcement anchor t ∧ Holds s anchor cutoff
  | _ => True

end Operations

section Steps

variable {c : Crypto} {s s' : TokenStore} {token : Str} {now : ℚ} {announcement : Announcement}

theorem Verified.mono (h : s.Verified c announcement) (hsub : s.acceptedTokens ⊆ s'.acceptedTokens) :
    s'.Verified c announcement := by
  obtain ⟨anchor,hanchor,t,hann⟩ := h
  exact ⟨anchor, hsub hanchor, t, hann⟩

theorem sound_of (hprimary : ∀ info ∈ s.primary, info.token ∈ s.acceptedTokens)
    (hann : ∀ announcement ∈ s.announcement, s.Verified c announcement) : Sound c s where
  primary_accepted := hprimary
  primary_stays info hinfo _ :=
    mem_acceptedTokens_retireOlderThan.mpr (holds_primary hinfo (hprimary info hinfo))
  announcement_verified := hann

theorem accepted_promoted : token ∈ (s.setPrimary token now).acceptedTokens :=
  (holds_promoted : Holds _ token now).accepted

theorem sound_setPrimary (h : ∀ announcement ∈ s.announcement, s.Verified c announcement)
    (token : Str) (now : ℚ) : Sound c (s.setPrimary token now) := by
  refine sound_of ?_ fun announcement hann => ?_
  · rintro info ⟨⟩
    exact accepted_promoted
  · exact (h announcement hann).mono (acceptedTokens_setPrimary token now)

theorem sound_adoptToken (h : Sound c s) (token : Str) (version : Int) (issuedAt : Number) :
    Sound c (s.adoptToken token version issuedAt) := by
  have hgrown := acceptedTokens_adoptToken (s := s) token version issuedAt
  refine sound_of (fun info hinfo => ?_) fun announcement hann => ?_
  · rw [primary_adoptToken] at hinfo
    exact hgrown (h.primary_accepted info hinfo)
  · have hsame : (s.adoptToken token version issuedAt).announcement = s.announcement := by
      rw [TokenStore.adoptToken]
      split <;> rfl
    rw [hsame] at hann
    exact (h.announcement_verified announcement hann).mono hgrown

theorem sound_announced (h : Sound c s) (hverified : s.Verified c announcement) :
    Sound c { s with announcement := some announcement } := by
  refine sound_of h.primary_accepted ?_
  rintro announcement' ⟨⟩
  exact hverified

theorem sound_rotate (h : Sound c s) (newToken : Option Str) (announcedBy fresh : Str)
    (now grace : ℚ) : Sound c (s.rotate c newToken announcedBy fresh now grace) := by
  cases newToken with
  | some token => exact sound_setPrimary (fun _ hann => by cases hann) token now
  | none =>
    cases hprimary : s.primary with
    | none =>
      rw [TokenStore.rotate, primaryToken, hprimary]
      exact sound_setPrimary h.announcement_verified fresh now
    | some old =>
      by_cases hempty : old.token = []
      · rw [TokenStore.rotate, primaryToken_of_primary hprimary]
        dsimp only
        rw [if_pos hempty]
        exact sound_setPrimary h.announcement_verified fresh now
      · obtain ⟨announcement,hann,heq⟩ := rotate_derives c now hprimary hempty announcedBy fresh grace
        rw [heq]
        refine sound_setPrimary ?_ _ now
        rintro announcement' ⟨⟩
        exact ⟨old.token, h.primary_accepted old hprimary, .finite now, hann⟩

theorem sound_applyAnnouncement (h : Sound c s) (announcement : Announcement) (now : ℚ) :
    Sound c (s.applyAnnouncement c announcement now).1 := by
  rcases s.applyAnnouncement_cases c announcement now with heq | ⟨t,anchor,hverifies,heq⟩
  · rw [heq]
    exact h
  · have hverified : s.Verified c announcement := ⟨anchor, hverifies.accepted, t, hverifies.announces⟩
    rw [heq]
    dsimp only [follow]
    split
    · exact sound_announced (sound_setPrimary h.announcement_verified _ now)
        (hverified.mono (acceptedTokens_setPrimary _ now))
    · exact sound_announced (sound_adoptToken h _ 0 _) (hverified.mono (acceptedTokens_adoptToken _ 0 _))

theorem sound_retireOlderThan_iff (h : Sound c s) (cutoff : ℚ) :
    Sound c (s.retireOlderThan cutoff) ↔ SparesAnchor c s (.retireOlderThan cutoff) := by
  have hverified : ∀ announcement, (s.retireOlderThan cutoff).Verified c announcement ↔
      ∃ anchor t, Announces c announcement anchor t ∧ Holds s anchor cutoff := by
    intro announcement
    constructor
    · rintro ⟨anchor,hanchor,t,hann⟩
      exact ⟨anchor, t, hann, mem_acceptedTokens_retireOlderThan.mp hanchor⟩
    · rintro ⟨anchor,t,hann,hholds⟩
      exact ⟨anchor, mem_acceptedTokens_retireOlderThan.mpr hholds, t, hann⟩
  constructor
  · exact fun hsound announcement hann => (hverified announcement).mp
      (hsound.announcement_verified announcement hann)
  · exact fun hspares => sound_of (fun info hinfo => h.primary_stays info hinfo cutoff)
      fun announcement hann => (hverified announcement).mpr (hspares announcement hann)

theorem sound_perform_iff (h : Sound c s) (op : TokenOp) :
    Sound c (s.perform c op) ↔ SparesAnchor c s op := by
  cases op with
  | setPrimary token now => exact iff_of_true (sound_setPrimary h.announcement_verified token now) trivial
  | rotate newToken announcedBy fresh now grace =>
    exact iff_of_true (sound_rotate h newToken announcedBy fresh now grace) trivial
  | adoptToken token version issuedAt => exact iff_of_true (sound_adoptToken h token version issuedAt) trivial
  | applyAnnouncement announcement now =>
    exact iff_of_true (sound_applyAnnouncement h announcement now) trivial
  | retireOlderThan cutoff => exact sound_retireOlderThan_iff h cutoff

theorem sound_init (c : Crypto) (initialToken : Str) (now : ℚ) : Sound c (init initialToken now) := by
  rw [init]
  split
  · exact sound_of (fun _ hinfo => by cases hinfo) fun _ hann => by cases hann
  · exact sound_setPrimary (fun _ hann => by cases hann) initialToken now

end Steps

section Runs

theorem tokens_sound_iff (c : Crypto) (initialToken : Str) (now : ℚ) (ops : List TokenOp) :
    Always (step c) (Sound c) (init initialToken now) ops ↔
      Meets (step c) (SparesAnchor c) (init initialToken now) ops := by
  refine always_iff_meets_of_total (fun _ _ => ⟨_, rfl⟩) ?_ (sound_init c initialToken now)
  rintro s op r hsound ⟨⟩
  exact sound_perform_iff hsound op

def retiredAfterRotation : List TokenOp :=
  [.rotate none "alpha".toList [] 10 3600, .retireOlderThan 11]

-- The rotation's announcement stays behind the token that it was derived from.
theorem retirement_orphans_announcement :
    ¬Always (step Crypto.framed) (Sound Crypto.framed) (init "s3cret".toList 0) retiredAfterRotation := by
  intro h
  have hsound := ((h.2 _ rfl).2 _ rfl : Sound Crypto.framed _)
  obtain ⟨anchor,hanchor,t,hann⟩ := hsound.announcement_verified _ rfl
  obtain rfl : Number.finite 10 = t := Option.some.inj hann.at_time
  obtain rfl : anchor = deriveRotationToken Crypto.framed "s3cret".toList (.finite 10) :=
    List.mem_singleton.mp hanchor
  exact absurd hann.by_hmac (by decide)

end Runs

end PicoSentry.Sandbox.Cluster.TokenStore
