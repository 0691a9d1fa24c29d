import Mathlib.Logic.Relation
import PicoSentry.Sandbox.ClusterTokens

namespace PicoSentry.Sandbox.Cluster

open Foundation Relation TokenStore

structure Crypto.Ideal (c : Crypto) : Prop where
  injective : Function.Injective2 c.hmac
  ne_nil : ∀ key message, c.hmac key message ≠ []

-- A free pairing of key and message in place of the digest.
def Crypto.framed : Crypto where
  hmac key message := key.flatMap (fun ch => ['0', ch]) ++ '1' :: message
  context t := "picodome-cluster-rotation:v1:".toList ++ match t with
    | .finite q => (toString q.num).toList ++ ".0".toList
    | .posInf => "inf".toList
    | .negInf => "-inf".toList
    | .nan => "nan".toList
  tokenDigest token := token

theorem Crypto.framed_injective {key key' message message' : Str}
    (h : framed.hmac key message = framed.hmac key' message') : key = key' ∧ message = message' := by
  induction key generalizing key' with
  | nil => cases key' <;> simp_all [framed]
  | cons ch key ih =>
    cases key' with
    | nil => simp [framed] at h
    | cons ch' key' =>
      simp only [framed, List.flatMap_cons, List.cons_append, List.nil_append, List.cons.injEq,
        true_and] at h
      obtain ⟨rfl,hrest⟩ := h
      obtain ⟨rfl,rfl⟩ := ih hrest
      exact ⟨rfl, rfl⟩

theorem Crypto.framed_ideal : framed.Ideal :=
  ⟨fun _ _ _ _ h => framed_injective h, fun key message => by simp [framed]⟩

def Rotated (c : Crypto) (token token' : Str) : Prop :=
  ∃ announcedAt, deriveRotationToken c token announcedAt = token'

def Fresh (c : Crypto) (token : Str) : Prop := ¬TransGen (Rotated c) token token

section Descent

variable {c : Crypto} {token token' : Str} {t t' : Number}

theorem rotated_derive : Rotated c token (deriveRotationToken c token t) := ⟨t, rfl⟩

theorem rotated_derive_iff (hc : c.Ideal) :
    Rotated c token' (deriveRotationToken c token t) ↔
      token' = token ∧ ∃ t', c.context t' = c.context t := by
  constructor
  · rintro ⟨t',h⟩
    obtain ⟨htoken,hcontext⟩ := hc.injective h
    exact ⟨htoken, t', hcontext⟩
  · rintro ⟨rfl,_⟩
    exact rotated_derive

theorem descends_of_descends_derive (hc : c.Ideal)
    (h : TransGen (Rotated c) token' (deriveRotationToken c token t)) :
    ReflTransGen (Rotated c) token' token := by
  obtain ⟨last,hlast,hrotated⟩ := TransGen.tail'_iff.mp h
  exact ((rotated_derive_iff hc).mp hrotated).1 ▸ hlast

theorem Fresh.derive (hc : c.Ideal) (h : Fresh c token) (t : Number) :
    Fresh c (deriveRotationToken c token t) := by
  intro hcycle
  exact h (TransGen.head' rotated_derive (descends_of_descends_derive hc hcycle))

theorem Fresh.not_descends (h : Fresh c token) :
    ¬ReflTransGen (Rotated c) (deriveRotationToken c token t) token :=
  fun hback => h (TransGen.head' rotated_derive hback)

theorem Fresh.not_descends_sibling (hc : c.Ideal) (h : Fresh c token)
    (hne : deriveRotationToken c token t ≠ deriveRotationToken c token t') :
    ¬ReflTransGen (Rotated c) (deriveRotationToken c token t) (deriveRotationToken c token t') := by
  intro hdesc
  rcases reflTransGen_iff_eq_or_transGen.mp hdesc with heq | htrans
  · exact hne heq.symm
  · exact h.not_descends (descends_of_descends_derive hc htrans)

theorem length_lt_of_rotated (h : TransGen (Rotated Crypto.framed) token token') :
    token.length < token'.length := by
  have hstep : ∀ {token token' : Str}, Rotated Crypto.framed token token' →
      token.length < token'.length := by
    rintro token _ ⟨t,rfl⟩
    simp [deriveRotationToken, Crypto.framed]
    omega
  induction h with
  | single h => exact hstep h
  | tail _ h ih => exact ih.trans (hstep h)

theorem fresh_framed (token : Str) : Fresh Crypto.framed token :=
  fun h => lt_irrefl _ (length_lt_of_rotated h)

end Descent

namespace TokenStore

structure Announces (c : Crypto) (announcement : Announcement) (anchor : Str) (t : Number) : Prop where
  at_time : announcement.announcedAt = some t
  by_hmac : announcement.hmac = some (c.hmac anchor (deriveRotationToken c anchor t))

def Holds (s : TokenStore) (token : Str) (since : ℚ) : Prop :=
  ∃ info, (token, info) ∈ s.accepted ∧
    (token = s.primaryToken ∨ info.issuedAt.lt (.finite since) = false)

section Effects

variable {s : TokenStore} {token other : Str} {old : TokenInfo} {now since cutoff : ℚ}

theorem mem_acceptedTokens : token ∈ s.acceptedTokens ↔ ∃ info, (token, info) ∈ s.accepted := by
  rw [acceptedTokens, Dict.keys, List.mem_map]
  constructor
  · rintro ⟨⟨token',info⟩,hmem,rfl⟩
    exact ⟨info, hmem⟩
  · rintro ⟨info,hmem⟩
    exact ⟨(token, info), hmem, rfl⟩

theorem Holds.accepted (h : Holds s token since) : token ∈ s.acceptedTokens := by
  obtain ⟨info,hmem,_⟩ := h
  exact mem_acceptedTokens.mpr ⟨info, hmem⟩

theorem primaryToken_of_primary (h : s.primary = some old) : s.primaryToken = old.token := by
  rw [primaryToken, h]

@[simp] theorem primaryToken_setPrimary : (s.setPrimary token now).primaryToken = token := rfl

@[simp] theorem announcement_setPrimary :
    (s.setPrimary token now).announcement = s.announcement := rfl

variable (s token) in
@[simp] theorem primaryToken_adoptToken (version : Int) (issuedAt : Number) :
    (s.adoptToken token version issuedAt).primaryToken = s.primaryToken := by
  rw [adoptToken]
  split <;> rfl

theorem primary_adoptToken (version : Int) (issuedAt : Number) :
    (s.adoptToken token version issuedAt).primary = s.primary := by
  rw [adoptToken]
  split <;> rfl

theorem accepted_setPrimary (hprimary : s.primary = some old) :
    (s.setPrimary token now).accepted =
      (s.accepted.set old.token { old with issuedAt := .finite now, primary := false }).set token
        { token := token, version := s.versionCounter + 1, issuedAt := .finite now,
          primary := true } := by
  rw [setPrimary]
  dsimp only
  rw [hprimary]

theorem mem_acceptedTokens_setPrimary (hprimary : s.primary = some old)
    (hold : old.token ∈ s.acceptedTokens) :
    other ∈ (s.setPrimary token now).acceptedTokens ↔ other ∈ s.acceptedTokens ∨ other = token := by
  rw [acceptedTokens, accepted_setPrimary hprimary, Dict.mem_keys_set, Dict.mem_keys_set]
  constructor
  · rintro ((h | rfl) | rfl)
    · exact .inl h
    · exact .inl hold
    · exact .inr rfl
  · rintro (h | rfl)
    · exact .inl (.inl h)
    · exact .inr rfl

theorem mem_retireOlderThan {entry : Str × TokenInfo} :
    entry ∈ (s.retireOlderThan cutoff).accepted ↔
      entry ∈ s.accepted ∧
        (entry.1 = s.primaryToken ∨ entry.2.issuedAt.lt (.finite cutoff) = false) := by
  rw [retireOlderThan, List.mem_filter, Bool.not_eq_true', Bool.and_eq_false_iff,
    decide_eq_false_iff_not, not_not]

theorem acceptedTokens_retireOlderThan :
    (s.retireOlderThan cutoff).acceptedTokens ⊆ s.acceptedTokens := by
  intro t ht
  obtain ⟨info,hmem⟩ := mem_acceptedTokens.mp ht
  exact mem_acceptedTokens.mpr ⟨info, (mem_retireOlderThan.mp hmem).1⟩

theorem mem_acceptedTokens_retireOlderThan :
    token ∈ (s.retireOlderThan cutoff).acceptedTokens ↔ Holds s token cutoff := by
  rw [mem_acceptedTokens]
  exact exists_congr fun info => mem_retireOlderThan

theorem Holds.retireOlderThan (h : Holds s token since) (hcutoff : cutoff ≤ since) :
    Holds (s.retireOlderThan cutoff) token since := by
  obtain ⟨info,hmem,hkept⟩ := h
  exact ⟨info, mem_retireOlderThan.mpr ⟨hmem, hkept.imp_right (Number.not_lt_of_le · hcutoff)⟩, hkept⟩

theorem Holds.of_retireOlderThan (h : Holds (s.retireOlderThan cutoff) token since) :
    Holds s token since := by
  obtain ⟨info,hmem,hkept⟩ := h
  exact ⟨info, (mem_retireOlderThan.mp hmem).1, hkept⟩

theorem holds_primary (hprimary : s.primary = some old) (h : old.token ∈ s.acceptedTokens) :
    Holds s old.token since := by
  obtain ⟨info,hmem⟩ := mem_acceptedTokens.mp h
  exact ⟨info, hmem, .inl (primaryToken_of_primary hprimary).symm⟩

theorem holds_promoted : Holds (s.setPrimary token now) token since :=
  ⟨_, Dict.mem_set_self _ _ _, .inl rfl⟩

theorem Holds.setPrimary (h : Holds s token since) (hsome : s.primary ≠ none)
    (hnow : token = s.primaryToken → since ≤ now) : Holds (s.setPrimary other now) token since := by
  obtain ⟨old,hprimary⟩ := Option.ne_none_iff_exists'.mp hsome
  obtain ⟨info,hmem,hkept⟩ := h
  rw [primaryToken_of_primary hprimary] at hkept hnow
  by_cases hother : token = other
  · subst hother
    exact holds_promoted
  · rw [Holds, accepted_setPrimary hprimary]
    by_cases hold : token = old.token
    · subst hold
      exact ⟨_, Dict.mem_set_of_ne (Dict.mem_set_self _ _ _) hother, .inr (Number.lt_finite.mpr (hnow rfl))⟩
    · exact ⟨info, Dict.mem_set_of_ne (Dict.mem_set_of_ne hmem hold) hother,
        .inr (hkept.resolve_left hold)⟩

theorem Holds.adoptToken (h : Holds s token since) (version : Int) (issuedAt : Number) :
    Holds (s.adoptToken other version issuedAt) token since := by
  obtain ⟨info,hmem,hkept⟩ := h
  rw [TokenStore.adoptToken]
  split
  · exact ⟨info, hmem, hkept⟩
  · next hother =>
    have hne : token ≠ other := by
      rintro rfl
      exact hother (mem_acceptedTokens.mpr ⟨info, hmem⟩)
    exact ⟨info, Dict.mem_set_of_ne hmem hne, hkept⟩

end Effects

section Announced

variable {c : Crypto} {s : TokenStore} {announcement : Announcement} {anchor : Str}
  {t : Number} {now : ℚ}

theorem Announces.unique (hc : c.Ideal) (h : Announces c announcement anchor t) {anchor' : Str}
    {t' : Number} (h' : Announces c announcement anchor' t') : anchor' = anchor ∧ t' = t := by
  have htime := h'.at_time.symm.trans h.at_time
  have hhmac := h'.by_hmac.symm.trans h.by_hmac
  exact ⟨(hc.injective (Option.some.inj hhmac)).1, Option.some.inj htime⟩

theorem Verifies.announces {announcedAt : Number} (h : Verifies c s announcement announcedAt anchor) :
    Announces c announcement anchor announcedAt := ⟨h.at_time, h.by_hmac⟩

theorem applyAnnouncement_known (hc : c.Ideal) (h : Announces c announcement anchor t)
    (hknown : deriveRotationToken c anchor t ∈ s.acceptedTokens) :
    s.applyAnnouncement c announcement now = (s, false) := by
  rcases s.applyAnnouncement_cases c announcement now with heq | ⟨t',anchor',hverifies,_⟩
  · exact heq
  · obtain ⟨rfl,rfl⟩ := h.unique hc hverifies.announces
    exact absurd hknown hverifies.not_accepted

theorem applyAnnouncement_new (hc : c.Ideal) (h : Announces c announcement anchor t)
    (hanchor : anchor ∈ s.acceptedTokens) (hprimary : deriveRotationToken c anchor t ≠ s.primaryToken)
    (hnew : deriveRotationToken c anchor t ∉ s.acceptedTokens) :
    s.applyAnnouncement c announcement now = ({ follow s anchor
      (deriveRotationToken c anchor t) t now with announcement := some announcement }, true) := by
  have hfound : (s.acceptedTokens.find? (anchors c
      (c.hmac anchor (deriveRotationToken c anchor t)) t)).isSome := by
    rw [List.find?_isSome]
    exact ⟨anchor, hanchor, by rw [anchors, decide_eq_true_eq]⟩
  obtain ⟨found,hfind⟩ := Option.isSome_iff_exists.mp hfound
  have hanchors := List.find?_some hfind
  rw [anchors, decide_eq_true_eq] at hanchors
  obtain rfl := (hc.injective hanchors).1
  simp only [applyAnnouncement, h.at_time, h.by_hmac, hfind, hprimary, hnew, or_self, if_false]

variable (c now) in
theorem rotate_derives {old : TokenInfo} (hprimary : s.primary = some old) (hne : old.token ≠ [])
    (announcedBy fresh : Str) (grace : ℚ) :
    ∃ announcement, Announces c announcement old.token (.finite now) ∧
      s.rotate c none announcedBy fresh now grace =
        setPrimary { s with announcement := some announcement }
          (deriveRotationToken c old.token (.finite now)) now := by
  have htoken := primaryToken_of_primary hprimary
  refine ⟨⟨some announcedBy, some (c.hmac old.token (deriveRotationToken c old.token (.finite now))),
    some (.finite now),
    some (now + grace)⟩, ⟨rfl, rfl⟩, ?_⟩
  simp only [rotate, htoken, if_neg hne]

end Announced

end TokenStore

end PicoSentry.Sandbox.Cluster
