import Mathlib.Tactic.Linarith
import Mathlib.Tactic.NormNum
import PicoSentry.Foundation.Run
import PicoSentry.Sandbox.ClusterTrust

namespace PicoSentry.Sandbox.Cluster

open Foundation Foundation.Run Relation TokenStore

namespace Refresh

variable (c : Crypto)

inductive Call where
  | hear (announcement : Announcement) (now : ℚ)
  | retire (now : ℚ)

def act (grace : ℚ) (s : TokenStore) : Call → TokenStore
  | .hear announcement now => (s.applyAnnouncement c announcement now).1
  | .retire now => s.retireOlderThan (now - grace)

def step (grace : ℚ) (s : TokenStore) (call : Call) : Option (TokenStore × List Unit) :=
  some (act c grace s call, [])

def DerivableFrom (known : Set Str) (token : Str) : Prop :=
  ∃ origin ∈ known, ReflTransGen (Rotated c) origin token

def ComputableFrom (known : Set Str) (announcement : Announcement) : Prop :=
  ∀ anchor t, Announces c announcement anchor t → DerivableFrom c known anchor

def AllowedBy (known : Set Str) (last : ℚ) : Call → Prop
  | .hear announcement _ => ComputableFrom c known announcement
  | .retire now => now ≤ last

structure Leaked (s : TokenStore) (known : Set Str) (since : ℚ) : Prop where
  not_primary : ∀ token ∈ known, token ≠ s.primaryToken
  accepted : ∀ token ∈ known, token ∈ s.acceptedTokens
  issued : ∀ entry ∈ s.accepted, entry.1 ∈ known → entry.2.issuedAt.le (.finite since) = true

structure Anchored (s : TokenStore) (announcement : Announcement) (t : Number)
    (anchor : Str) : Prop where
  at_time : announcement.announcedAt = some t
  found : ∃ announcedHmac, announcement.hmac = some announcedHmac ∧
    s.acceptedTokens.find? (anchors c announcedHmac t) = some anchor

-- The announcement brings a new token whose stamp, the lesser of the announcement's time and that of
-- the call, is not before the cutoff; NaN is before nothing.
def Late (cutoff : ℚ) (s : TokenStore) : Call → Prop
  | .hear announcement now => ∃ t anchor, Anchored c s announcement t anchor ∧
      deriveRotationToken c anchor t ≠ s.primaryToken ∧
      deriveRotationToken c anchor t ∉ s.acceptedTokens ∧
      (t = .nan ∨ (Number.finite cutoff).le t = true ∧ cutoff ≤ now)
  | .retire _ => False

def Trusts (known : Set Str) (cutoff : ℚ) (s : TokenStore) : Prop :=
  ∃ token, DerivableFrom c known token ∧ Holds s token cutoff

section Hearing

variable {c} {known : Set Str} {s : TokenStore} {announcement : Announcement} {anchor : Str}
  {t : Number} {now cutoff : ℚ}

theorem DerivableFrom.derive (h : DerivableFrom c known anchor) (t : Number) :
    DerivableFrom c known (deriveRotationToken c anchor t) := by
  obtain ⟨origin,horigin,hanchor⟩ := h
  exact ⟨origin, horigin, hanchor.tail rotated_derive⟩

theorem Anchored.unique (h : Anchored c s announcement t anchor) {t' : Number}
    {anchor' : Str} (h' : Anchored c s announcement t' anchor') : t' = t ∧ anchor' = anchor := by
  obtain rfl := Option.some.inj (h'.at_time.symm.trans h.at_time)
  obtain ⟨announcedHmac,hhmac,hfound⟩ := h.found
  obtain ⟨announcedHmac',hhmac',hfound'⟩ := h'.found
  obtain rfl := Option.some.inj (hhmac'.symm.trans hhmac)
  exact ⟨rfl, Option.some.inj (hfound'.symm.trans hfound)⟩

theorem Anchored.accepted (h : Anchored c s announcement t anchor) : anchor ∈ s.acceptedTokens := by
  obtain ⟨_,_,hfound⟩ := h.found
  exact List.mem_of_find?_eq_some hfound

theorem Anchored.announces (h : Anchored c s announcement t anchor) :
    Announces c announcement anchor t := by
  obtain ⟨announcedHmac,hhmac,hfound⟩ := h.found
  have hanchors := List.find?_some hfound
  rw [anchors, decide_eq_true_eq] at hanchors
  exact ⟨h.at_time, hanchors ▸ hhmac⟩

theorem applyAnnouncement_anchored (h : Anchored c s announcement t anchor) :
    s.applyAnnouncement c announcement now =
      if deriveRotationToken c anchor t = s.primaryToken ∨
        deriveRotationToken c anchor t ∈ s.acceptedTokens then (s, false)
      else ({ follow s anchor (deriveRotationToken c anchor t) t now with
        announcement := some announcement }, true) := by
  obtain ⟨announcedHmac,hhmac,hfound⟩ := h.found
  simp only [applyAnnouncement, h.at_time, hhmac, hfound]

theorem applyAnnouncement_unanchored (h : ∀ t anchor, ¬Anchored c s announcement t anchor) :
    s.applyAnnouncement c announcement now = (s, false) := by
  rcases s.applyAnnouncement_cases c announcement now with heq | ⟨t,anchor,hverifies,_⟩
  · exact heq
  · have hfound : (s.acceptedTokens.find? (anchors c
        (c.hmac anchor (deriveRotationToken c anchor t)) t)).isSome := by
      rw [List.find?_isSome]
      exact ⟨anchor, hverifies.accepted, by rw [anchors, decide_eq_true_eq]⟩
    obtain ⟨first,hfirst⟩ := Option.isSome_iff_exists.mp hfound
    exact absurd ⟨hverifies.at_time, _, hverifies.by_hmac, hfirst⟩ (h t first)

theorem trusts_follow (hanchor : DerivableFrom c known anchor) (haccepted : anchor ∈ s.acceptedTokens)
    (hprimary : deriveRotationToken c anchor t ≠ s.primaryToken)
    (hnew : deriveRotationToken c anchor t ∉ s.acceptedTokens) :
    Trusts c known cutoff (follow s anchor (deriveRotationToken c anchor t) t now) ↔
      Trusts c known cutoff s ∨ t = .nan ∨ (Number.finite cutoff).le t = true ∧ cutoff ≤ now := by
  rw [follow]
  split
  · next hanchor' =>
    -- The anchor is the primary: trust was there before, and the promoted token has it now.
    obtain ⟨info,hmem⟩ := mem_acceptedTokens.mp haccepted
    exact iff_of_true ⟨_, hanchor.derive t, holds_promoted⟩ (.inl ⟨anchor, hanchor, info, hmem, .inl hanchor'⟩)
  · have hnew' : deriveRotationToken c anchor t ∉ s.accepted.keys := hnew
    rw [adoptToken, if_neg hnew']
    constructor
    · rintro ⟨token,htoken,info,hmem,hkept⟩
      rcases Dict.mem_set hmem with hmem | heq
      · exact .inl ⟨token, htoken, info, hmem, hkept⟩
      · cases heq
        exact .inr (Number.min_finite_not_lt.mp (hkept.resolve_left hprimary))
    · rintro (⟨token,htoken,info,hmem,hkept⟩ | hlate)
      · have hne : token ≠ deriveRotationToken c anchor t := by
          rintro rfl
          exact hnew (mem_acceptedTokens.mpr ⟨info, hmem⟩)
        exact ⟨token, htoken, info, Dict.mem_set_of_ne hmem hne, hkept⟩
      · exact ⟨_, hanchor.derive t, _, Dict.mem_set_self _ _ _, .inr (Number.min_finite_not_lt.mpr hlate)⟩

theorem trusts_hear (hcomputable : ComputableFrom c known announcement) :
    Trusts c known cutoff (s.applyAnnouncement c announcement now).1 ↔
      Trusts c known cutoff s ∨ Late c cutoff s (.hear announcement now) := by
  by_cases hanchored : ∃ t anchor, Anchored c s announcement t anchor
  · obtain ⟨t,anchor,h⟩ := hanchored
    have hlate : Late c cutoff s (.hear announcement now) ↔
        (deriveRotationToken c anchor t ≠ s.primaryToken ∧
          deriveRotationToken c anchor t ∉ s.acceptedTokens) ∧
          (t = .nan ∨ (Number.finite cutoff).le t = true ∧ cutoff ≤ now) := by
      constructor
      · rintro ⟨t',anchor',h',hprimary,hnew,hcutoff⟩
        obtain ⟨rfl,rfl⟩ := h.unique h'
        exact ⟨⟨hprimary, hnew⟩, hcutoff⟩
      · rintro ⟨⟨hprimary,hnew⟩,hcutoff⟩
        exact ⟨t, anchor, h, hprimary, hnew, hcutoff⟩
    rw [applyAnnouncement_anchored h, hlate]
    split
    · next hold => exact (or_iff_left fun hlate => hold.elim hlate.1.1 hlate.1.2).symm
    · next hnew =>
      rw [not_or] at hnew
      rw [and_iff_right hnew]
      exact trusts_follow (hcomputable anchor t h.announces) h.accepted hnew.1 hnew.2
  · have hnone : ∀ t anchor, ¬Anchored c s announcement t anchor :=
      fun t anchor h => hanchored ⟨t, anchor, h⟩
    rw [applyAnnouncement_unanchored hnone]
    exact (or_iff_left fun ⟨t,anchor,h,_⟩ => hnone t anchor h).symm

theorem trusts_retire {grace : ℚ} (hcutoff : now - grace ≤ cutoff) :
    Trusts c known cutoff (s.retireOlderThan (now - grace)) ↔ Trusts c known cutoff s :=
  exists_congr fun _ => and_congr_right fun _ => ⟨.of_retireOlderThan, (.retireOlderThan · hcutoff)⟩

end Hearing

section Expiry

variable {c} {known : Set Str} {s r : TokenStore} {calls : List Call} {es : List Unit}
  {since grace last : ℚ}

theorem not_trusts_act {call : Call} (hcall : AllowedBy c known last call) :
    ¬Trusts c known (last - grace) (act c grace s call) ↔
      ¬Trusts c known (last - grace) s ∧ ¬Late c (last - grace) s call := by
  rw [← not_or, not_iff_not]
  cases call with
  | hear announcement now => exact trusts_hear hcall
  | retire now => exact (trusts_retire (sub_le_sub_right hcall grace)).trans (or_iff_left id).symm

theorem not_trusts_run (hcalls : ∀ call ∈ calls, AllowedBy c known last call)
    (hrun : exec (step c grace) s calls = some (r, es)) :
    ¬Trusts c known (last - grace) r ↔ ¬Trusts c known (last - grace) s ∧
      Meets (step c grace) (fun s call => ¬Late c (last - grace) s call) s calls := by
  refine final_iff_meets (P := fun s => ¬Trusts c known (last - grace) s) ?_ hrun
  intro s call hcall r hr
  cases hr
  exact not_trusts_act (hcalls call hcall)

theorem Leaked.not_trusts_iff (h : Leaked s known since) (hlast : since + grace < last) :
    ¬Trusts c known (last - grace) s ↔
      ∀ entry ∈ s.accepted, entry.1 ∉ known → DerivableFrom c known entry.1 →
        entry.1 ≠ s.primaryToken ∧ entry.2.issuedAt.lt (.finite (last - grace)) = true := by
  constructor
  · intro hnot entry hentry _ hderivable
    by_contra hkept
    rw [not_and_or, not_not, Bool.not_eq_true] at hkept
    exact hnot ⟨entry.1, hderivable, entry.2, hentry, hkept⟩
  · rintro hstale ⟨token,hderivable,info,hmem,hkept⟩
    by_cases hknown : token ∈ known
    · have hissued := h.issued _ hmem hknown
      have hcutoff := hkept.resolve_left (h.not_primary token hknown)
      exact Bool.false_ne_true (hcutoff.symm.trans (Number.lt_of_le hissued (by linarith)))
    · obtain ⟨hprimary,hissued⟩ := hstale _ hmem hknown hderivable
      exact Bool.false_ne_true ((hkept.resolve_left hprimary).symm.trans hissued)

theorem trust_expires_iff (hleaked : Leaked s known since) (hlast : since + grace < last)
    (hcalls : ∀ call ∈ calls, AllowedBy c known last call)
    (hrun : exec (step c grace) s calls = some (r, es)) :
    (∀ token, DerivableFrom c known token →
        token ∉ (r.retireOlderThan (last - grace)).acceptedTokens) ↔
      (∀ entry ∈ s.accepted, entry.1 ∉ known → DerivableFrom c known entry.1 →
        entry.1 ≠ s.primaryToken ∧ entry.2.issuedAt.lt (.finite (last - grace)) = true) ∧
      Meets (step c grace) (fun s call => ¬Late c (last - grace) s call) s calls := by
  have hfinal : (∀ token, DerivableFrom c known token →
      token ∉ (r.retireOlderThan (last - grace)).acceptedTokens) ↔
        ¬Trusts c known (last - grace) r := by
    rw [Trusts, not_exists]
    exact forall_congr' fun token => by rw [mem_acceptedTokens_retireOlderThan, not_and]
  rw [hfinal, not_trusts_run hcalls hrun, hleaked.not_trusts_iff hlast]

-- The token k was demoted at the time 0.
def demoted : TokenStore := (TokenStore.init "k".toList 0).setPrimary "p".toList 0

def forgery (t : Number) : Announcement where
  hmac := some (Crypto.framed.hmac "k".toList
    (deriveRotationToken Crypto.framed "k".toList t))
  announcedAt := some t

theorem leaked_demoted : Leaked demoted {"k".toList} 0 := by
  refine ⟨?_, ?_, ?_⟩
  · rintro token rfl
    decide
  · rintro token rfl
    decide
  · intro entry hentry _
    have hstamps : ∀ entry ∈ demoted.accepted, entry.2.issuedAt.le (.finite 0) = true := by
      decide +kernel
    exact hstamps entry hentry

theorem computableFrom_forgery (t : Number) :
    ComputableFrom Crypto.framed {"k".toList} (forgery t) := by
  intro anchor t' hann
  have howned : Announces Crypto.framed (forgery t) "k".toList t := ⟨rfl, rfl⟩
  obtain ⟨rfl,_⟩ := howned.unique Crypto.framed_ideal hann
  exact ⟨_, rfl, .refl⟩

theorem trust_expires_after_early_announcement :
    Leaked demoted {"k".toList} 0 ∧
      ∀ token, DerivableFrom Crypto.framed {"k".toList} token → token ∉
        ((act Crypto.framed 10 demoted (.hear (forgery (.finite 0)) 5)).retireOlderThan
          (11 - 10)).acceptedTokens := by
  have hheard : ∀ call ∈ [Call.hear (forgery (.finite 0)) 5],
      AllowedBy Crypto.framed {"k".toList} 11 call := by
    rintro call hcall
    rw [List.mem_singleton] at hcall
    exact hcall ▸ computableFrom_forgery (.finite 0)
  have hlast : (0 : ℚ) + 10 < 11 := by norm_num
  refine ⟨leaked_demoted, (trust_expires_iff leaked_demoted hlast hheard rfl).mpr ⟨?_, ?_, ?_⟩⟩
  · rintro entry hentry hunknown ⟨origin,rfl,hdescends⟩
    have hstamps : ∀ entry ∈ demoted.accepted, entry.2.issuedAt.lt (.finite (11 - 10)) = true := by
      decide +kernel
    refine ⟨fun hprimary => ?_, hstamps entry hentry⟩
    rw [hprimary] at hdescends
    rcases reflTransGen_iff_eq_or_transGen.mp hdescends with heq | htrans
    · exact absurd heq (by decide)
    · exact absurd (length_lt_of_rotated htrans) (by decide)
  · rintro ⟨t,anchor,hanchored,_,_,hcutoff⟩
    obtain rfl : Number.finite 0 = t := Option.some.inj hanchored.at_time
    rcases hcutoff with hnan | ⟨hcutoff,_⟩
    · cases hnan
    · exact absurd hcutoff (by decide +kernel)
  · exact fun _ _ => trivial

theorem forged_token_outlives_grace :
    Leaked demoted {"k".toList} 0 ∧ (0 : ℚ) + 10 < 11 ∧
      AllowedBy Crypto.framed {"k".toList} 11 (.hear (forgery (.finite 5)) 5) ∧
      ∃ token, DerivableFrom Crypto.framed {"k".toList} token ∧ token ∈
        ((act Crypto.framed 10 demoted (.hear (forgery (.finite 5)) 5)).retireOlderThan
          (11 - 10)).acceptedTokens :=
  ⟨leaked_demoted, by norm_num, computableFrom_forgery (.finite 5),
    deriveRotationToken Crypto.framed "k".toList (.finite 5), ⟨_, rfl, .single rotated_derive⟩,
    by decide +kernel⟩

end Expiry

end Refresh

end PicoSentry.Sandbox.Cluster
