import PicoSentry.Foundation.Dict
import PicoSentry.Foundation.Number
import PicoSentry.Sandbox.ClusterModels

namespace PicoSentry.Sandbox.Cluster

open Foundation

-- hmac.new(key, message, sha256).hexdigest(), the text of f"{ROTATION_CONTEXT}{float(announced_at)}"
-- and token_digest.
structure Crypto where
  hmac : Str → Str → Str
  context : Number → Str
  tokenDigest : Str → Str

def Crypto.plain : Crypto where
  hmac key message := key ++ '.' :: message
  context _ := "picodome-cluster-rotation:v1:0.0".toList
  tokenDigest token := token

structure TokenInfo where
  token : Str
  version : Int
  issuedAt : Number
  primary : Bool := false
  deriving DecidableEq

-- The keys of an announcement dict; none is a key that is missing or has a value of another type.
structure Announcement where
  announcedBy : Option Str := none
  hmac : Option Str := none
  announcedAt : Option Number := none
  graceExpires : Option ℚ := none
  deriving DecidableEq

-- One entry of a snapshot's "primary" or "accepted", in the gossip format or the raw one.
structure TokenEntry where
  digest : Option Str := none
  token : Option Str := none
  version : Option Int := none
  issuedAt : Option Number := none
  deriving DecidableEq

structure TokenStoreSnapshot where
  primary : Option TokenEntry := none
  accepted : List TokenEntry := []
  announcement : Option Announcement := none
  deriving DecidableEq

structure TokenStore where
  primary : Option TokenInfo := none
  accepted : Dict Str TokenInfo := []
  versionCounter : Int := 0
  announcement : Option Announcement := none
  deriving DecidableEq

namespace TokenStore

variable (c : Crypto)

def primaryToken (s : TokenStore) : Str :=
  match s.primary with
  | none => []
  | some info => info.token

def acceptedTokens (s : TokenStore) : List Str := s.accepted.keys

def isAccepted (s : TokenStore) (token : Str) : Bool :=
  decide (token ≠ []) && decide (token ∈ s.accepted.keys)

def setPrimary (s : TokenStore) (token : Str) (now : ℚ) : TokenStore :=
  let info : TokenInfo :=
    { token := token, version := s.versionCounter + 1, issuedAt := .finite now, primary := true }
  let accepted :=
    match s.primary with
    | none => s.accepted
    | some old => s.accepted.set old.token { old with issuedAt := .finite now, primary := false }
  { s with
    versionCounter := s.versionCounter + 1
    primary := some info
    accepted := accepted.set token info }

def init (initialToken : Str) (now : ℚ) : TokenStore :=
  if initialToken = [] then {} else setPrimary {} initialToken now

def adoptToken (s : TokenStore) (token : Str) (version : Int) (issuedAt : Number) : TokenStore :=
  if token ∈ s.accepted.keys then s
  else { s with accepted := s.accepted.set token ⟨token, version, issuedAt, false⟩ }

def retireOlderThan (s : TokenStore) (cutoff : ℚ) : TokenStore :=
  { s with
    accepted := s.accepted.filter fun p => !(p.1 ≠ s.primaryToken && p.2.issuedAt.lt (.finite cutoff)) }

def deriveRotationToken (anchor : Str) (announcedAt : Number) : Str :=
  c.hmac anchor (c.context announcedAt)

-- fresh is what secrets.token_urlsafe returns.
def rotate (s : TokenStore) (newToken : Option Str) (announcedBy fresh : Str) (now grace : ℚ) :
    TokenStore :=
  match newToken with
  | some token => setPrimary { s with announcement := none } token now
  | none =>
    if s.primaryToken = [] then setPrimary s fresh now
    else
      let token := deriveRotationToken c s.primaryToken (.finite now)
      let announcement : Announcement :=
        { announcedBy := some announcedBy
          hmac := some (c.hmac s.primaryToken token)
          announcedAt := some (.finite now)
          graceExpires := some (now + grace) }
      setPrimary { s with announcement := some announcement } token now

def anchors (announcedHmac : Str) (announcedAt : Number) (token : Str) : Bool :=
  c.hmac token (deriveRotationToken c token announcedAt) = announcedHmac

def follow (s : TokenStore) (anchor candidate : Str) (announcedAt : Number) (now : ℚ) : TokenStore :=
  if anchor = s.primaryToken then setPrimary s candidate now
  else adoptToken s candidate 0 (announcedAt.min (.finite now))

def applyAnnouncement (s : TokenStore) (announcement : Announcement) (now : ℚ) :
    TokenStore × Bool :=
  match announcement.announcedAt, announcement.hmac with
  | some announcedAt, some announcedHmac =>
    match s.acceptedTokens.find? (anchors c announcedHmac announcedAt) with
    | none => (s, false)
    | some anchor =>
      let candidate := deriveRotationToken c anchor announcedAt
      if candidate = s.primaryToken ∨ candidate ∈ s.acceptedTokens then (s, false)
      else
        ({ follow s anchor candidate announcedAt now with announcement := some announcement }, true)
  | _, _ => (s, false)

def toGossipSnapshot (s : TokenStore) : TokenStoreSnapshot where
  primary := s.primary.map fun info =>
    { digest := some (c.tokenDigest info.token)
      version := some info.version
      issuedAt := some info.issuedAt }
  accepted := s.accepted.map fun p =>
    { digest := some (c.tokenDigest p.2.token)
      version := some p.2.version
      issuedAt := some p.2.issuedAt }
  announcement := s.announcement

def acceptedDigests (s : TokenStore) : List Str := s.acceptedTokens.map c.tokenDigest

def readEntry (entry : TokenEntry) (primary : Bool) : Except PyError TokenInfo := do
  let token ← item entry.token
  let version ← item entry.version
  let issuedAt ← item entry.issuedAt
  return ⟨token, version, issuedAt, primary⟩

def loadEntry (s : TokenStore) (entry : TokenEntry) : Except PyError TokenStore := do
  let info ← readEntry entry false
  return { s with
    accepted := s.accepted.set info.token info
    versionCounter := max s.versionCounter info.version }

def fromSnapshot (snapshot : TokenStoreSnapshot) : Except PyError TokenStore := do
  let store ← match snapshot.primary with
    | none => .ok {}
    | some entry => do
      let info ← readEntry entry true
      pure { primary := some info
             accepted := [(info.token, info)]
             versionCounter := max 0 info.version : TokenStore }
  snapshot.accepted.foldlM loadEntry store

section Accepted

variable {c} {s : TokenStore}

theorem acceptedTokens_setPrimary (token : Str) (now : ℚ) :
    s.acceptedTokens ⊆ (s.setPrimary token now).acceptedTokens := by
  intro t ht
  rw [setPrimary, acceptedTokens, Dict.mem_keys_set]
  left
  split
  · exact ht
  · rw [Dict.mem_keys_set]
    exact .inl ht

theorem acceptedTokens_adoptToken (token : Str) (version : Int) (issuedAt : Number) :
    s.acceptedTokens ⊆ (s.adoptToken token version issuedAt).acceptedTokens := by
  intro t ht
  rw [adoptToken]
  split
  · exact ht
  · rw [acceptedTokens, Dict.mem_keys_set]
    exact .inl ht

structure Verifies (c : Crypto) (s : TokenStore) (announcement : Announcement)
    (announcedAt : Number) (anchor : Str) : Prop where
  at_time : announcement.announcedAt = some announcedAt
  by_hmac : announcement.hmac = some (c.hmac anchor (deriveRotationToken c anchor announcedAt))
  accepted : anchor ∈ s.acceptedTokens
  not_primary : deriveRotationToken c anchor announcedAt ≠ s.primaryToken
  not_accepted : deriveRotationToken c anchor announcedAt ∉ s.acceptedTokens

theorem applyAnnouncement_cases (c : Crypto) (s : TokenStore) (announcement : Announcement) (now : ℚ) :
    s.applyAnnouncement c announcement now = (s, false) ∨
      ∃ announcedAt anchor, Verifies c s announcement announcedAt anchor ∧
        s.applyAnnouncement c announcement now = ({ follow s anchor
          (deriveRotationToken c anchor announcedAt) announcedAt now with
            announcement := some announcement }, true) := by
  cases hat : announcement.announcedAt with
  | none =>
    left
    simp only [applyAnnouncement, hat]
  | some announcedAt =>
    cases hhmac : announcement.hmac with
    | none =>
      left
      simp only [applyAnnouncement, hat, hhmac]
    | some announcedHmac =>
      cases hfind : s.acceptedTokens.find? (anchors c announcedHmac announcedAt) with
      | none =>
        left
        simp only [applyAnnouncement, hat, hhmac, hfind]
      | some anchor =>
        by_cases hold : deriveRotationToken c anchor announcedAt = s.primaryToken ∨
            deriveRotationToken c anchor announcedAt ∈ s.acceptedTokens
        · left
          simp only [applyAnnouncement, hat, hhmac, hfind, if_pos hold]
        · right
          rw [not_or] at hold
          have hanchors := List.find?_some hfind
          rw [anchors, decide_eq_true_eq] at hanchors
          refine ⟨announcedAt, anchor, ⟨hat, hanchors ▸ hhmac, List.mem_of_find?_eq_some hfind,
            hold.1, hold.2⟩, ?_⟩
          simp only [applyAnnouncement, hat, hhmac, hfind, hold, or_self, if_false]

theorem acceptedTokens_applyAnnouncement (announcement : Announcement) (now : ℚ) :
    s.acceptedTokens ⊆ (s.applyAnnouncement c announcement now).1.acceptedTokens := by
  rcases s.applyAnnouncement_cases c announcement now with heq | ⟨announcedAt,anchor,_,heq⟩
  · rw [heq]
    exact List.Subset.refl _
  · have hfollow : s.acceptedTokens ⊆ (follow s anchor (deriveRotationToken c anchor announcedAt)
        announcedAt now).acceptedTokens := by
      rw [follow]
      split
      · exact acceptedTokens_setPrimary _ now
      · exact acceptedTokens_adoptToken _ _ _
    rw [heq]
    exact hfollow

end Accepted

end TokenStore

end PicoSentry.Sandbox.Cluster
