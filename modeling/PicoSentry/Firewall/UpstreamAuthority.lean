import PicoSentry.Firewall.Proxy

namespace PicoSentry.Firewall.UpstreamAuthority

open Foundation
open Foundation.Url
open Proxy

section Stays

variable (nfkc : Str → Str)

def Stays (base url : Str) : Prop :=
  ∃ b s, urlsplit nfkc base [] = .ok b ∧ urlsplit nfkc url [] = .ok s ∧
    s.scheme = b.scheme ∧ s.netloc = b.netloc ∧ b.path <+: s.path

-- The reference names no scheme but https and no authority but the base's, and where the base
-- has a path, the path the reference has below the base lies under it.
structure Within (base directory r : SplitResult) : Prop where
  scheme : r.scheme = https
  netloc : r.netloc = [] ∨ r.netloc = base.netloc
  path : base.path = [] ∨ base.path <+: slashed (targetPath directory.withParams r.withParams)

def Confined (base path : Str) : Prop :=
  Admitted nfkc path → reference path ≠ [] → ∀ r, urlsplit nfkc (reference path) https = .ok r →
    Within (splitParts base []) (splitParts (base ++ ['/']) []) r

end Stays

section Confinement

variable {nfkc : Str → Str} {base path : Str}

theorem stays_iff {b s : SplitResult} {url : Str} (hb : urlsplit nfkc base [] = .ok b)
    (hs : urlsplit nfkc url [] = .ok s) : Stays nfkc base url ↔
      s.scheme = b.scheme ∧ s.netloc = b.netloc ∧ b.path <+: s.path := by
  constructor
  · rintro ⟨b',s',hb',hs',h⟩
    rw [hb] at hb'
    rw [hs] at hs'
    cases hb'
    cases hs'
    exact h
  · exact fun h => ⟨b, s, hb, hs, h⟩

theorem urlsplit_foreign {url : Str} {r : SplitResult} (h : urlsplit nfkc url https = .ok r)
    (hr : r.scheme ≠ https) : urlsplit nfkc url [] = .ok r := by
  obtain ⟨hok,rfl⟩ := urlsplit_ok.mp h
  cases hp : splitScheme (clean url) with
  | none =>
    have hdefault : (splitParts url https).scheme = https := by simp only [splitParts, hp, Option.getD_none]
    exact absurd hdefault hr
  | some p => exact urlsplit_ok.mpr ⟨hok, splitScheme_default hp [] https⟩

theorem resolved_stays_iff {b d r : SplitResult} {url : Str} (hb : urlsplit nfkc base [] = .ok b)
    (hscheme : b.scheme = https) (hd : urlsplit nfkc (base ++ ['/']) [] = .ok d)
    (hdn : d.netloc = b.netloc) (hn : d.netloc ≠ []) (hr : urlsplit nfkc url https = .ok r) :
    Stays nfkc base
        (if r.scheme = https then urlunsplit (transform d.withParams r.withParams) else url) ↔
      Within b d r := by
  by_cases hrs : r.scheme = https
  · rw [if_pos hrs, stays_iff hb (urlsplit_transform hd hn hr hrs)]
    have hnetloc : (transform d.withParams r.withParams).netloc = b.netloc ↔
        r.netloc = [] ∨ r.netloc = b.netloc := by
      have hnet : (transform d.withParams r.withParams).netloc =
          if r.netloc ≠ [] then r.netloc else d.netloc := rfl
      rw [hnet, hdn]
      split
      · next h => exact (or_iff_right h).symm
      · next h => exact iff_of_true rfl (.inl (not_not.mp h))
    constructor
    · rintro ⟨_,hnet,hpath⟩
      exact ⟨hrs, hnetloc.mp hnet, .inr hpath⟩
    · rintro ⟨_,hnet,hpath⟩
      refine ⟨hrs.trans hscheme.symm, hnetloc.mpr hnet, ?_⟩
      rcases hpath with hnil | hpath
      · rw [hnil]
        exact List.nil_prefix
      · exact hpath
  · rw [if_neg hrs, stays_iff hb (urlsplit_foreign hr hrs)]
    exact iff_of_false (fun h => hrs (h.1.trans hscheme)) fun h => hrs h.scheme

theorem underBase_stays_iff (hbase : HttpsBase nfkc base) :
    (∀ url, underBase nfkc base path = .ok (some url) → Stays nfkc base url) ↔
      Confined nfkc base path := by
  obtain ⟨b,hb,hscheme,hn⟩ := hbase
  obtain ⟨d,hd,hdscheme,hdn,hunder⟩ := urlsplit_base_slash hb hn
  have hdne : d.netloc ≠ [] := by rwa [hdn]
  have hdirectory : base ++ ['/'] ≠ [] := ne_nil_of_netloc hd hdne
  simp only [underBase_ok, Confined, (urlsplit_ok.mp hb).2, (urlsplit_ok.mp hd).2]
  constructor
  · intro h hadmitted href r hr
    refine (resolved_stays_iff hb hscheme hd hdn hdne hr).mp (h _ ⟨hadmitted, ?_⟩)
    rw [urljoin_https hd (hdscheme.trans hscheme) hdne href, hr]
    rfl
  · rintro h url ⟨hadmitted,hjoin⟩
    by_cases href : reference path = []
    · rw [urljoin, if_neg hdirectory, if_pos href] at hjoin
      cases hjoin
      exact ⟨b, d, hb, hd, hdscheme, hdn, hunder⟩
    · rw [urljoin_https hd (hdscheme.trans hscheme) hdne href] at hjoin
      cases hr : urlsplit nfkc (reference path) https with
      | error e =>
        rw [hr] at hjoin
        cases hjoin
      | ok r =>
        rw [hr] at hjoin
        cases hjoin
        exact (resolved_stays_iff hb hscheme hd hdn hdne hr).mpr (h hadmitted href r hr)

end Confinement

section Proxy

variable {nfkc : Str → Str}

theorem upstream_stays_iff (config : FirewallConfig) (hnpm : HttpsBase nfkc config.upstreamNpm)
    (hpypi : HttpsBase nfkc config.upstreamPypi) (path : Str) :
    (∀ ecosystem, (∀ url, upstreamUrl nfkc config ecosystem path = .ok (some url) →
        Stays nfkc (config.base ecosystem) url) ↔ Confined nfkc (config.base ecosystem) path) ∧
      ((∀ url, guessUpstream nfkc config path = .ok (some url) →
        Stays nfkc (config.guessedBase path) url) ↔ Confined nfkc (config.guessedBase path) path) := by
  have hbase : ∀ (p : Prop) [Decidable p],
      HttpsBase nfkc (if p then config.upstreamNpm else config.upstreamPypi) ∧
        HttpsBase nfkc (if p then config.upstreamPypi else config.upstreamNpm) := by
    intro p _
    split
    · exact ⟨hnpm, hpypi⟩
    · exact ⟨hpypi, hnpm⟩
  exact ⟨fun _ => underBase_stays_iff (hbase _).1, underBase_stays_iff (hbase _).2⟩

theorem upstream_stays_default :
    guessUpstream id .default "/lodash".toList = .ok (some "https://registry.npmjs.org/lodash".toList) ∧
      ∀ url, guessUpstream id .default "/lodash".toList = .ok (some url) →
        Stays id (FirewallConfig.default.guessedBase "/lodash".toList) url := by
  refine ⟨by decide, ((upstream_stays_iff .default httpsBase_default.1 httpsBase_default.2
    "/lodash".toList).2).mpr ?_⟩
  intro _ _ r hr
  cases hr
  exact ⟨rfl, .inl rfl, .inl (by decide)⟩

theorem encoded_authority_escapes :
    ¬∀ (nfkc : Str → Str) (config : FirewallConfig), HttpsBase nfkc config.upstreamNpm →
      HttpsBase nfkc config.upstreamPypi → ∀ path url,
        (∀ ecosystem, upstreamUrl nfkc config ecosystem path = .ok (some url) →
          Stays nfkc (config.base ecosystem) url) ∧
        (guessUpstream nfkc config path = .ok (some url) →
          Stays nfkc (config.guessedBase path) url) := by
  intro h
  have hurl : guessUpstream id .default "/https:%2f%2fevil.com/x".toList =
      .ok (some "https://evil.com/x".toList) := by decide
  have hstays := (h id .default httpsBase_default.1 httpsBase_default.2 _ _).2 hurl
  obtain ⟨b,s,hb,hs,_,hnetloc,_⟩ := hstays
  rw [← (urlsplit_ok.mp hb).2, ← (urlsplit_ok.mp hs).2] at hnetloc
  exact absurd hnetloc (by decide)

end Proxy

end PicoSentry.Firewall.UpstreamAuthority
