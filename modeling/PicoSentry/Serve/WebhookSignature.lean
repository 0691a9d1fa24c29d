import PicoSentry.Serve.Webhooks

namespace PicoSentry.Serve.Webhooks

open Foundation

theorem encode_inj {a b : Str} : encode a = encode b ↔ a = b := by
  rw [encode, encode, Array.toList_inj, ← ByteArray.ext_iff, String.toByteArray_inj,
    String.ofList_inj]

theorem constantTimeCompare_iff {a b : Str} : constantTimeCompare a b = true ↔ a = b := by
  rw [constantTimeCompare, decide_eq_true_iff, encode_inj]

section Document

variable (event timestamp : Str) (payload : Json)

-- sort_keys moves "data" to the front; the body keeps "event" there.
theorem sortKeys_eventPayload :
    (eventPayload event timestamp payload).sortKeys =
      .obj (.ofList [("data".toList, payload.sortKeys), ("event".toList, .str event),
        ("timestamp".toList, .str timestamp)]) := by
  have hdata : "data".toList < "timestamp".toList := by decide
  have hevent : "data".toList < "event".toList := by decide
  have hstamp : ¬"timestamp".toList < "event".toList := by decide
  simp only [eventPayload, JsonFields.ofList, Json.sortKeys, Json.sortFields, Json.insertField,
    if_pos hdata, if_pos hevent, if_neg hstamp]

theorem take_dumps_eventPayload :
    (eventPayload event timestamp payload).dumps.take 3 = ['\x7b', '"', 'd'] := by
  rw [Json.dumps, sortKeys_eventPayload]
  rfl

theorem take_render_eventPayload :
    (eventPayload event timestamp payload).render.take 3 = ['\x7b', '"', 'e'] := by
  rfl

theorem render_ne_dumps_eventPayload :
    (eventPayload event timestamp payload).render ≠ (eventPayload event timestamp payload).dumps := by
  intro h
  have htake := congrArg (List.take 3) h
  rw [take_render_eventPayload, take_dumps_eventPayload] at htake
  exact absurd htake (by decide)

end Document

theorem verifySignature_request (env : Env) (call : DispatchCall) (webhook : Webhook)
    (current : List Str) :
    verifySignature env (request env call webhook current).body
        (request env call webhook current).signature webhook.secret = true ↔
      env.hmac (encode webhook.secret) (encode (call.document webhook).dumps) =
        env.hmac (encode webhook.secret) (encode (call.document webhook).render) := by
  rw [verifySignature, constantTimeCompare_iff, request_signature]
  rfl

theorem no_dispatched_signature_verifies (env : Env) (m : Manager) (call : DispatchCall) (r : Request)
    (hr : r ∈ (dispatch env m call).1)
    (hcollision : env.hmac (encode r.webhook.secret) (encode (call.document r.webhook).dumps) =
        env.hmac (encode r.webhook.secret) (encode (call.document r.webhook).render) →
      (call.document r.webhook).dumps = (call.document r.webhook).render) :
    verifySignature env r.body r.signature r.webhook.secret = false := by
  obtain ⟨p,_,_,rfl⟩ := mem_dispatch hr
  rw [Bool.eq_false_iff]
  intro hverify
  have hdigest := (verifySignature_request env call p.2 _).mp hverify
  exact render_ne_dumps_eventPayload _ _ _ (hcollision hdigest).symm

def hookUrl : Str := "https://hooks.example.com/notify".toList

def hookHost : Str := "hooks.example.com".toList

def signingSecret : Str := "s3cret".toList

def runFinished : DispatchCall where
  event := "run.completed".toList
  payload := .obj (.ofList [("ok".toList, .bool true)])
  orgId := none
  timestamp _ := "2026-01-01T00:00:00+00:00".toList
  resolve _ := some ["93.184.216.34".toList]
  response _ := some 200

def signingHook : Webhook :=
  ⟨1, "hook".toList, hookUrl, signingSecret, [['*']], none, ["93.184.216.34".toList]⟩

-- The HMAC-SHA256 digests of the two texts of runFinished under signingSecret.
def sampleHmac (key message : Bytes) : Str :=
  if key = encode signingSecret ∧ message = encode (runFinished.document signingHook).dumps then
    "1056d305891c1a0e30cab9c1783be75d1cf200eb12e560272208a268dde9a65f".toList
  else if key = encode signingSecret ∧ message = encode (runFinished.document signingHook).render then
    "d0743fed01c72271b470bb375cb875061ee56b0f695ca58a84561a919f7bae00".toList
  else []

def sampleUrlparse (url : Str) : Option ParsedUrl :=
  if url = hookUrl then some ⟨"https".toList, hookHost, some hookHost⟩ else none

def sampleEnv : Env := ⟨sampleUrlparse, sampleHmac⟩

def signingManager : Manager := ⟨[], [(1, signingHook)]⟩

theorem sampleHmac_signed :
    sampleHmac (encode signingSecret) (encode (runFinished.document signingHook).dumps) =
      "1056d305891c1a0e30cab9c1783be75d1cf200eb12e560272208a268dde9a65f".toList :=
  if_pos ⟨rfl, rfl⟩

theorem sampleHmac_sent :
    sampleHmac (encode signingSecret) (encode (runFinished.document signingHook).render) =
      "d0743fed01c72271b470bb375cb875061ee56b0f695ca58a84561a919f7bae00".toList := by
  rw [sampleHmac, if_neg, if_pos ⟨rfl, rfl⟩]
  rintro ⟨_,h⟩
  exact render_ne_dumps_eventPayload _ _ _ (encode_inj.mp h)

theorem sampleHmac_ne :
    sampleHmac (encode signingSecret) (encode (runFinished.document signingHook).dumps) ≠
      sampleHmac (encode signingSecret) (encode (runFinished.document signingHook).render) := by
  rw [sampleHmac_signed, sampleHmac_sent]
  intro h
  exact absurd (String.toList_injective h) (by decide)

theorem no_dispatched_signature_verifies_run_finished :
    ∃ r, (dispatch sampleEnv signingManager runFinished).1 = [r] ∧
      verifySignature sampleEnv r.body r.signature r.webhook.secret = false := by
  refine ⟨request sampleEnv runFinished signingHook ["93.184.216.34".toList], rfl, ?_⟩
  apply no_dispatched_signature_verifies sampleEnv signingManager runFinished
  · exact List.mem_singleton.mpr rfl
  · intro h
    dsimp only [sampleEnv] at h
    exact absurd h sampleHmac_ne

theorem run_finished_signature_fails :
    ∃ r, (dispatch sampleEnv signingManager runFinished).1 = [r] ∧ r.webhook.secret = signingSecret ∧
      verifySignature sampleEnv r.body r.signature signingSecret = false := by
  refine ⟨request sampleEnv runFinished signingHook ["93.184.216.34".toList], rfl, rfl, ?_⟩
  rw [Bool.eq_false_iff]
  intro h
  have hdigest := (verifySignature_request sampleEnv runFinished signingHook _).mp h
  dsimp only [sampleEnv] at hdigest
  exact sampleHmac_ne hdigest

end PicoSentry.Serve.Webhooks
