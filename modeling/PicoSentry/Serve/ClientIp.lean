import PicoSentry.Serve.RateLimit

namespace PicoSentry.Serve.ClientIp

open Foundation
open RateLimit (BucketType Key Config Worker recordAndCheck)

structure Request where
  path : Str
  forwardedFor : Option Str
  orgApiKey : Option Str
  client : Option Str

structure Settings where
  limits : Config
  exemptPaths : List Str
  trustedProxies : List Str

inductive Response where
  | passed
  | limited (error : Str) (limit : Nat) (window : Int) (retryAfter : Int)
  deriving DecidableEq

def peer (req : Request) : Str := req.client.getD "unknown".toList

section Dispatch

variable (U : Unicode) (sha256 : Str → Str)

def getClientIp (trustedProxies : List Str) (req : Request) : Str :=
  if trustedProxies = [] then peer req
  else
    let forwarded := req.forwardedFor.getD []
    if forwarded = [] then peer req
    else
      match ((forwarded.splitOn ',').map U.strip).reverse.find? (· ∉ trustedProxies) with
      | some ip => ip
      | none => peer req

def orgBucket (req : Request) : Option Key :=
  let key := req.orgApiKey.getD []
  if "sk_".toList.isPrefixOf key || "pk_".toList.isPrefixOf key then some (.org, sha256 key) else none

def checkIp (settings : Settings) (req : Request) (now : ℚ) (w : Worker) : Worker × Response :=
  let r := recordAndCheck settings.limits (.ip, getClientIp U settings.trustedProxies req) now w
  if r.2.1 then
    (r.1, .limited "Rate limit exceeded".toList (settings.limits.maxRequests .ip)
      settings.limits.window r.2.2)
  else (r.1, .passed)

def dispatch (settings : Settings) (req : Request) (now : ℚ) (w : Worker) : Worker × Response :=
  if req.path ∈ settings.exemptPaths then (w, .passed)
  else
    match orgBucket sha256 req with
    | none => checkIp U settings req now w
    | some key =>
      let r := recordAndCheck settings.limits key now w
      if r.2.1 then
        (r.1, .limited "Organization rate limit exceeded".toList (settings.limits.maxRequests .org)
          settings.limits.window r.2.2)
      else checkIp U settings req now r.1

end Dispatch

section Forging

variable {U : Unicode} {trusted : List Str} {req : Request}

def forwardedAddresses (U : Unicode) (req : Request) : List Str :=
  let forwarded := req.forwardedFor.getD []
  if forwarded = [] then [] else (forwarded.splitOn ',').map U.strip

def IsOrigin (U : Unicode) (trusted : List Str) (req : Request) (ip : Str) : Prop :=
  ip ∉ trusted ∧ ∃ before after, forwardedAddresses U req = before ++ ip :: after ∧
    ∀ address ∈ after, address ∈ trusted

structure Unforged (U : Unicode) (trusted : List Str) (req : Request) : Prop where
  direct : peer req ∉ trusted → getClientIp U trusted req = peer req
  proxied : peer req ∈ trusted → ∀ ip, IsOrigin U trusted req ip → getClientIp U trusted req = ip

theorem getClientIp_eq (htrusted : trusted ≠ []) (req : Request) :
    getClientIp U trusted req =
      ((forwardedAddresses U req).reverse.find? (· ∉ trusted)).getD (peer req) := by
  rw [getClientIp, if_neg htrusted, forwardedAddresses]
  dsimp only
  by_cases hempty : req.forwardedFor.getD [] = []
  · simp [hempty]
  · rw [if_neg hempty, if_neg hempty]
    split
    · next ip hip => rw [hip, Option.getD_some]
    · next hnone => rw [hnone, Option.getD_none]

theorem isOrigin_iff {ip : Str} :
    IsOrigin U trusted req ip ↔
      (forwardedAddresses U req).reverse.find? (· ∉ trusted) = some ip := by
  rw [List.find?_eq_some_iff_append]
  constructor
  · rintro ⟨hip,before,after,hsplit,hafter⟩
    refine ⟨by simpa using hip, after.reverse, before.reverse, by simp [hsplit], ?_⟩
    simpa using hafter
  · rintro ⟨hip,after,before,hsplit,hafter⟩
    refine ⟨by simpa using hip, before.reverse, after.reverse, ?_, by simpa using hafter⟩
    simpa using congrArg List.reverse hsplit

theorem getClientIp_of_origin (htrusted : trusted ≠ []) {ip : Str} (h : IsOrigin U trusted req ip) :
    getClientIp U trusted req = ip := by
  rw [getClientIp_eq htrusted, isOrigin_iff.mp h, Option.getD_some]

theorem getClientIp_no_origin (h : ∀ ip, ¬ IsOrigin U trusted req ip) :
    getClientIp U trusted req = peer req := by
  by_cases htrusted : trusted = []
  · rw [getClientIp, if_pos htrusted]
  · have hnone : (forwardedAddresses U req).reverse.find? (· ∉ trusted) = none := by
      rw [Option.eq_none_iff_forall_ne_some]
      intro ip hip
      exact h ip (isOrigin_iff.mpr hip)
    rw [getClientIp_eq htrusted, hnone, Option.getD_none]

end Forging

theorem unforged_iff (U : Unicode) (trusted : List Str) (req : Request) :
    Unforged U trusted req ↔
      peer req ∈ trusted ∨ trusted = [] ∨ ∀ ip, IsOrigin U trusted req ip → ip = peer req := by
  constructor
  · intro h
    by_cases hpeer : peer req ∈ trusted
    · exact .inl hpeer
    by_cases htrusted : trusted = []
    · exact .inr (.inl htrusted)
    refine .inr (.inr ?_)
    intro ip hip
    rw [← getClientIp_of_origin htrusted hip]
    exact h.direct hpeer
  · rintro (hpeer | rfl | horigin)
    · have htrusted : trusted ≠ [] := List.ne_nil_of_mem hpeer
      exact ⟨fun hnot => absurd hpeer hnot, fun _ _ hip => getClientIp_of_origin htrusted hip⟩
    · exact ⟨fun _ => by rw [getClientIp, if_pos rfl], fun hpeer => by cases hpeer⟩
    · have hdirect : getClientIp U trusted req = peer req := by
        by_cases hsome : ∃ ip, IsOrigin U trusted req ip
        · obtain ⟨ip,hip⟩ := hsome
          by_cases htrusted : trusted = []
          · rw [getClientIp, if_pos htrusted]
          · rw [getClientIp_of_origin htrusted hip, horigin ip hip]
        · exact getClientIp_no_origin fun ip hip => hsome ⟨ip, hip⟩
      exact ⟨fun _ => hdirect, fun _ ip hip => hdirect.trans (horigin ip hip).symm⟩

def oneAMinute : Settings where
  limits := ⟨60, 100000, fun _ => 1⟩
  exemptPaths := []
  trustedProxies := ["10.0.0.1".toList]

def direct (forwardedFor : Str) : Request :=
  ⟨"/api/v1/login".toList, some forwardedFor, none, some "203.0.113.7".toList⟩

def noRequests : Worker := ⟨fun _ => [], 0, .idle⟩

theorem one_host_two_buckets :
    peer (direct "198.51.100.1".toList) ∉ oneAMinute.trustedProxies ∧
      ¬ Unforged Unicode.basic oneAMinute.trustedProxies (direct "198.51.100.1".toList) ∧
      (dispatch Unicode.basic id oneAMinute (direct "198.51.100.2".toList) 1
        (dispatch Unicode.basic id oneAMinute (direct "198.51.100.1".toList) 0 noRequests).1).2 =
        .passed ∧
      (dispatch Unicode.basic id oneAMinute (direct "198.51.100.1".toList) 1
        (dispatch Unicode.basic id oneAMinute (direct "198.51.100.1".toList) 0 noRequests).1).2 =
        .limited "Rate limit exceeded".toList 1 60 60 := by
  have hnamed : getClientIp Unicode.basic oneAMinute.trustedProxies (direct "198.51.100.1".toList) =
      "198.51.100.1".toList := by decide +kernel
  refine ⟨by decide, ?_, by decide +kernel, by decide +kernel⟩
  intro h
  have hdirect := h.direct (by decide)
  rw [hnamed] at hdirect
  revert hdirect
  decide

end PicoSentry.Serve.ClientIp
