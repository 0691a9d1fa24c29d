import PicoSentry.Firewall.VerdictCache

namespace PicoSentry.Firewall.AllowedVersions

open Foundation
open VerdictCache
open VerdictCache.FirewallScanner (Call)

def versionsOf (metadata : Dict Str Json) : Option (Dict Str Json) := asDict (metadata.get? "versions".toList)

def resolvedVersion (metadata : Dict Str Json) (version : Str) : Option Json :=
  if version = VerdictCache.latest then
    (asDict (metadata.get? "dist-tags".toList)).bind fun tags => tags.get? VerdictCache.latest
  else some (.str version)

section Scanner

variable (scanner : FirewallScanner)

-- What the engine reports for a manifest of the request, none where nothing is scanned or the scan raises.
def engineFindings (request : Request) (manifest : Dict Str Json) : Option (List Finding) :=
  if request.ecosystem = "npm".toList then scanner.engine.scanNpm manifest
  else if request.ecosystem = "pypi".toList then
    (scanner.sanitizePypiName request.name).bind fun safeName => scanner.engine.scanPypi safeName request.version manifest
  else none

def NoneBlocked (request : Request) (metadata : Dict Str Json) : Prop :=
  ∀ versions, versionsOf metadata = some versions → ∀ key manifest fs, asDict (versions.get? key) = some manifest →
    engineFindings scanner request manifest = some fs → scanner.verdictFromFindings fs ≠ .block

variable {scanner} {request : Request} {metadata manifest versions : Dict Str Json} {fs : List Finding}

theorem not_blocked_of_allow (h : (scanner.scanManifest request manifest).1 = (.allow, fs)) {found : List Finding}
    (hfound : engineFindings scanner request manifest = some found) : scanner.verdictFromFindings found ≠ .block := by
  intro hblock
  rw [FirewallScanner.scanManifest] at h
  rw [engineFindings] at hfound
  split at hfound
  · next hnpm =>
    rw [if_pos hnpm, hfound] at h
    cases hblock.symm.trans (Prod.mk.inj h).1
  · next hnpm =>
    split at hfound
    · next hpypi =>
      obtain ⟨safeName,hname,hscan⟩ := Option.bind_eq_some_iff.mp hfound
      rw [if_neg hnpm, if_pos hpypi, hname] at h
      dsimp only at h
      rw [hscan] at h
      cases hblock.symm.trans (Prod.mk.inj h).1
    · cases hfound

theorem manifest_of_allow {call : Call} (h : (scanner.scanMetadata [] call).1 = .ok (.allow, fs)) :
    ∃ manifest, extractVersionManifest call.metadata call.request.version = .ok (some manifest) ∧
      (scanner.scanManifest call.request manifest).1 = (.allow, fs) := by
  have hmiss : TtlCache.lookup ([] : FirewallScanner.Store) call.request call.start = (none, []) := rfl
  rw [FirewallScanner.scanMetadata, hmiss] at h
  dsimp only at h
  split at h
  · cases h
  · split at h
    · cases h
    · cases h
  · next manifest hmanifest =>
    refine ⟨manifest, hmanifest, ?_⟩
    split at h
    · next scanned hscan =>
      cases h
      rw [hscan]
    · next scanned hscan =>
      split at h
      · cases h
      · cases h
        rw [hscan]

theorem asDict_resolveTag {tag : Json} (h : (resolveTag versions tag).map asDict = .ok (some manifest)) :
    ∃ name, tag = .str name ∧ asDict (versions.get? name) = some manifest := by
  cases tag with
  | str name =>
    rw [resolveTag] at h
    split at h
    · cases h
    · exact ⟨name, rfl, Except.ok.inj h⟩
  | arr items => cases items <;> cases h
  | obj fields => cases fields <;> cases h
  | _ => cases h

theorem slice_of_versions (hversions : versionsOf metadata = some versions) {version : Str}
    (h : extractVersionManifest metadata version = .ok (some manifest)) :
    ∃ name, resolvedVersion metadata version = some (.str name) ∧ asDict (versions.get? name) = some manifest := by
  rw [versionsOf] at hversions
  rw [extractVersionManifest, hversions] at h
  rw [resolvedVersion]
  dsimp only at h
  split at h
  · next hlatest =>
    rw [if_pos hlatest]
    split at h
    · next tags htags =>
      split at h
      · next tag htag =>
        obtain ⟨name,rfl,hmanifest⟩ := asDict_resolveTag h
        exact ⟨name, by rw [htags, Option.bind_some, htag], hmanifest⟩
      · cases h
    · cases h
  · next hlatest =>
    rw [if_neg hlatest]
    obtain ⟨name,heq,hmanifest⟩ := asDict_resolveTag h
    exact ⟨name, by rw [heq], hmanifest⟩

end Scanner

theorem allowed_slice_not_blocked (scanner : FirewallScanner) (call : Call) (fs : List Finding)
    (versions : Dict Str Json) (hversions : versionsOf call.metadata = some versions)
    (h : (scanner.scanMetadata [] call).1 = .ok (.allow, fs)) :
    ∃ name manifest, resolvedVersion call.metadata call.request.version = some (.str name) ∧
      asDict (versions.get? name) = some manifest ∧
      ∀ found, engineFindings scanner call.request manifest = some found → scanner.verdictFromFindings found ≠ .block := by
  obtain ⟨manifest,hextract,hscan⟩ := manifest_of_allow h
  obtain ⟨name,hname,hmanifest⟩ := slice_of_versions hversions hextract
  exact ⟨name, manifest, hname, hmanifest, fun found => not_blocked_of_allow hscan⟩

def fixedRelease : Dict Str Json :=
  catalog [("1.0.0", object [("preinstall", .str "worm".toList)]), ("2.0.0", object [("name", .str "pad".toList)])] "2.0.0"

theorem allowed_slice_not_blocked_fixed : ∃ name manifest,
    resolvedVersion fixedRelease VerdictCache.latest = some (.str name) ∧
    (versionsOf fixedRelease).bind (fun versions => asDict (versions.get? name)) = some manifest ∧
    ∀ found, engineFindings wormScanner (fetch "latest" fixedRelease 0).request manifest = some found →
      wormScanner.verdictFromFindings found ≠ .block :=
  allowed_slice_not_blocked wormScanner (fetch "latest" fixedRelease 0) [] _ rfl rfl

theorem blocked_version_handed_out :
    (wormScanner.scanMetadata [] (fetch "latest" fixedRelease 0)).1 = .ok (.allow, []) ∧
      ¬NoneBlocked wormScanner (fetch "latest" fixedRelease 0).request fixedRelease := by
  refine ⟨rfl, fun h => ?_⟩
  exact h _ rfl "1.0.0".toList _ [wormFinding] rfl rfl rfl

end PicoSentry.Firewall.AllowedVersions
