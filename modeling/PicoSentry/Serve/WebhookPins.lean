import PicoSentry.Serve.WebhookSignature

namespace PicoSentry.Serve.Webhooks

open Foundation
open Foundation.Run

def Passes (address : Str) : Prop :=
  ∃ ip, IpAddress.parse address = some ip ∧
    ∀ network ∈ blockedNetworks, network.contains ip = false

def pinsChecked (env : Env) (dns : Lookup) (row : WebhookRow) : Bool :=
  match isSafeWebhookUrl env row.url (dns row.id .check) with
  | some (.ok safe) => ((dns row.id .pin).getD []).all fun ip => safe.contains ip
  | _ => true

def creates (env : Env) (m : Manager) (call : CreateCall) : Bool :=
  match isSafeWebhookUrl env call.url call.checked with
  | some (.ok _) => !(call.resolved.getD [] = [] || duplicate m.rows call)
  | _ => false

def PinsChecked (env : Env) (m : Manager) : Step → Prop
  | .create call dns =>
    creates env m call = true →
      ∀ row ∈ insertRow m.rows call, row.active = true → pinsChecked env dns row = true
  | .delete id dns =>
    ∀ row ∈ deactivate m.rows id, row.active = true → pinsChecked env dns row = true
  | .reload dns => ∀ row ∈ m.rows, row.active = true → pinsChecked env dns row = true
  | .dispatch _ => True

instance decidablePinsChecked (env : Env) (m : Manager) : ∀ l, Decidable (PinsChecked env m l)
  | .create call _ => inferInstanceAs (Decidable (creates env m call = true → _))
  | .delete id _ => inferInstanceAs (Decidable (∀ row ∈ deactivate m.rows id, _))
  | .reload _ => inferInstanceAs (Decidable (∀ row ∈ m.rows, _))
  | .dispatch _ => isTrue trivial

section Check

variable {env : Env} {url : Str} {answer : Answer} {safe : List Str}

theorem scanAddresses_passes {ips : List Str} (h : scanAddresses ips = .ok safe) :
    ∀ a ∈ safe, Passes a := by
  induction ips generalizing safe with
  | nil =>
    cases h
    intro a ha
    cases ha
  | cons text rest ih =>
    rw [scanAddresses] at h
    split at h
    · exact ih h
    · next ip hip =>
      split at h
      · cases h
      · next hnone =>
        split at h
        · cases h
        · next safe' hrest =>
          cases h
          intro a ha
          rcases List.mem_cons.mp ha with rfl | ha
          · refine ⟨ip, hip, ?_⟩
            intro network hnetwork
            exact Bool.eq_false_iff.mpr (List.find?_eq_none.mp hnone network hnetwork)
          · exact ih hrest a ha

theorem isSafeParsed_passes {parsed : ParsedUrl} (h : isSafeParsed parsed answer = .ok safe) :
    ∀ a ∈ safe, Passes a := by
  rw [isSafeParsed] at h
  split at h
  · cases h
  · split at h
    · cases h
    · split at h
      · cases h
      · split at h
        · cases h
        · split at h
          · cases h
          · cases h
          · next hscan =>
            cases h
            exact scanAddresses_passes hscan

theorem isSafeWebhookUrl_passes (h : isSafeWebhookUrl env url answer = some (.ok safe)) :
    ∀ a ∈ safe, Passes a := by
  obtain ⟨parsed,_,hsafe⟩ := Option.map_eq_some_iff.mp h
  exact isSafeParsed_passes hsafe

end Check

section Load

variable {env : Env} {dns : Lookup}

structure Loads (loaded : Dict Nat Webhook) (r : Dict Nat Webhook × List Effect) : Prop where
  passed : ∀ effect ∈ r.2, ∃ a, effect = .passed a ∧ Passes a
  pinned : ∀ p ∈ r.1, p ∈ loaded ∨ ∀ a ∈ p.2.pinnedIps, .passed a ∈ r.2

theorem loads_loadRows {rows : List WebhookRow} (loaded : Dict Nat Webhook)
    (hchecked : ∀ row ∈ rows, pinsChecked env dns row = true) :
    Loads loaded (loadRows env dns loaded rows) := by
  induction rows generalizing loaded with
  | nil =>
    refine ⟨?_, fun p hp => .inl hp⟩
    intro effect heffect
    cases heffect
  | cons row rows ih =>
    have hrest : ∀ r ∈ rows, pinsChecked env dns r = true := by
      intro r hr
      exact hchecked r (List.mem_cons_of_mem _ hr)
    have hrow := hchecked row List.mem_cons_self
    rw [loadRows]
    split
    · refine ⟨?_, fun p hp => .inl hp⟩
      intro effect heffect
      cases heffect
    · exact ih loaded hrest
    · next safe hsafe =>
      rw [pinsChecked, hsafe] at hrow
      have hpins : ∀ a ∈ (dns row.id .pin).getD [], a ∈ safe := by
        intro a ha
        simpa using List.all_eq_true.mp hrow a ha
      obtain ⟨hpassed,hpinned⟩ := ih (if (dns row.id .pin).getD [] = [] then loaded
        else loaded.set row.id (row.pinned ((dns row.id .pin).getD []))) hrest
      constructor
      · intro effect heffect
        rcases List.mem_append.mp heffect with heffect | heffect
        · obtain ⟨a,ha,rfl⟩ := List.mem_map.mp heffect
          exact ⟨a, rfl, isSafeWebhookUrl_passes hsafe a ha⟩
        · exact hpassed effect heffect
      · intro p hp
        rcases hpinned p hp with hold | hnew
        · split at hold
          · exact .inl hold
          · rcases Dict.mem_set hold with hold | rfl
            · exact .inl hold
            · refine .inr ?_
              intro a ha
              exact List.mem_append_left _ (List.mem_map.mpr ⟨a, hpins a ha, rfl⟩)
        · refine .inr ?_
          intro a ha
          exact List.mem_append_right _ (hnew a ha)

theorem loads_loadWebhooks {rows : List WebhookRow}
    (hchecked : ∀ row ∈ rows, row.active = true → pinsChecked env dns row = true) :
    Loads [] ((loadWebhooks env dns rows).1.webhooks, (loadWebhooks env dns rows).2) := by
  apply loads_loadRows []
  intro row hrow
  obtain ⟨hmem,hactive⟩ := List.mem_filter.mp hrow
  exact hchecked row hmem hactive

end Load

section Runs

variable {env : Env} {es effects : List Effect} {m : Manager}

def Ordered (es : List Effect) : Prop :=
  ∀ before r after, es = before ++ .posted r :: after → ∀ a ∈ r.resolved, .passed a ∈ before

structure Vetted (es : List Effect) (m : Manager) : Prop where
  passed : ∀ a, .passed a ∈ es → Passes a
  pinned : ∀ p ∈ m.webhooks, ∀ a ∈ p.2.pinnedIps, .passed a ∈ es
  ordered : Ordered es

theorem Ordered.append (h : Ordered es)
    (hnew : ∀ r, .posted r ∈ effects → ∀ a ∈ r.resolved, .passed a ∈ es) :
    Ordered (es ++ effects) := by
  intro before r after heq a ha
  rcases List.append_eq_append_iff.mp heq with ⟨mid,hbefore,heffects⟩ | ⟨mid,hes,hrest⟩
  · have hmem : .posted r ∈ effects := by simp [heffects]
    rw [hbefore]
    exact List.mem_append_left _ (hnew r hmem a ha)
  · cases mid with
    | nil =>
      rw [List.append_nil] at hes
      have hmem : .posted r ∈ effects := by
        rw [List.nil_append] at hrest
        simp [← hrest]
      rw [← hes]
      exact hnew r hmem a ha
    | cons x mid =>
      rw [List.cons_append, List.cons.injEq] at hrest
      obtain ⟨rfl,_⟩ := hrest
      exact h before r mid hes a ha

theorem Vetted.load (h : Vetted es m) {m' : Manager} (hloads : Loads [] (m'.webhooks, effects)) :
    Vetted (es ++ effects) m' := by
  refine ⟨?_, ?_, ?_⟩
  · intro a ha
    rcases List.mem_append.mp ha with ha | ha
    · exact h.passed a ha
    · obtain ⟨b,hb,hpasses⟩ := hloads.passed _ ha
      cases hb
      exact hpasses
  · intro p hp a ha
    rcases hloads.pinned p hp with hold | hnew
    · cases hold
    · exact List.mem_append_right _ (hnew a ha)
  · apply h.ordered.append
    intro r hr
    obtain ⟨b,hb,_⟩ := hloads.passed _ hr
    cases hb

theorem Vetted.check (h : Vetted es m) {url : Str} {answer : Answer} {safe : List Str}
    (hsafe : isSafeWebhookUrl env url answer = some (.ok safe)) :
    Vetted (es ++ safe.map .passed) m := by
  refine ⟨?_, ?_, ?_⟩
  · intro a ha
    rcases List.mem_append.mp ha with ha | ha
    · exact h.passed a ha
    · obtain ⟨b,hb,heq⟩ := List.mem_map.mp ha
      cases heq
      exact isSafeWebhookUrl_passes hsafe a hb
  · intro p hp a ha
    exact List.mem_append_left _ (h.pinned p hp a ha)
  · apply h.ordered.append
    intro r hr
    obtain ⟨b,_,heq⟩ := List.mem_map.mp hr
    cases heq

theorem Vetted.create (h : Vetted es m) {call : CreateCall} {dns : Lookup}
    (hchecked : PinsChecked env m (.create call dns)) :
    Vetted (es ++ (create env dns m call).2) (create env dns m call).1 := by
  rw [Webhooks.create]
  split
  · rw [List.append_nil]
    exact h
  · rw [List.append_nil]
    exact h
  · next safe hsafe =>
    split
    · exact h.check hsafe
    · next hgo =>
      have hcreates : creates env m call = true := by
        rw [creates, hsafe]
        simpa using hgo
      dsimp only
      rw [← List.append_assoc]
      exact (h.check hsafe).load (loads_loadWebhooks (hchecked hcreates))

-- dispatch sends only when every address it just resolved is pinned.
theorem Vetted.dispatch (h : Vetted es m) (call : DispatchCall) :
    Vetted (es ++ (dispatch env m call).1.map .posted) m := by
  refine ⟨?_, ?_, ?_⟩
  · intro a ha
    rcases List.mem_append.mp ha with ha | ha
    · exact h.passed a ha
    · obtain ⟨r,_,heq⟩ := List.mem_map.mp ha
      cases heq
  · intro p hp a ha
    exact List.mem_append_left _ (h.pinned p hp a ha)
  · apply h.ordered.append
    intro r hr a ha
    obtain ⟨r',hmem,heq⟩ := List.mem_map.mp hr
    cases heq
    obtain ⟨p,hp,hpin,rfl⟩ := mem_dispatch hmem
    rw [pinAllows, Bool.and_eq_true, Bool.and_eq_true] at hpin
    have hsubset := List.all_eq_true.mp hpin.2 a ha
    exact h.pinned p hp a (by simpa using hsubset)

theorem vetted_step (past : List Effect) (m : Manager) (l : Step) (m' : Manager) (es : List Effect)
    (h : Vetted past m) (hchecked : PinsChecked env m l) (hstep : step env m l = some (m', es)) :
    Vetted (past ++ es) m' := by
  cases l with
  | create call dns =>
    have hpair : create env dns m call = (m', es) := Option.some.inj hstep
    have hcreate := h.create hchecked
    rw [hpair] at hcreate
    exact hcreate
  | delete id dns =>
    cases hstep
    exact h.load (loads_loadWebhooks hchecked)
  | reload dns =>
    cases hstep
    exact h.load (loads_loadWebhooks hchecked)
  | dispatch call =>
    cases hstep
    exact h.dispatch call

theorem vetted_start (rows : List WebhookRow) : Vetted [] ⟨rows, []⟩ := by
  refine ⟨?_, ?_, ?_⟩
  · intro a ha
    cases ha
  · intro p hp
    cases hp
  · intro before r after heq
    simp at heq

end Runs

theorem requests_only_to_checked_addresses (env : Env) (rows : List WebhookRow) (ls : List Step)
    (m : Manager) (es : List Effect)
    (hchecked : Meets (step env) (PinsChecked env) ⟨rows, []⟩ ls)
    (hrun : exec (step env) ⟨rows, []⟩ ls = some (m, es)) :
    (∀ before r after, es = before ++ .posted r :: after → ∀ a ∈ r.resolved,
      .passed a ∈ before ∧ Passes a) ∧
    ∀ p ∈ m.webhooks, ∀ a ∈ p.2.pinnedIps, .passed a ∈ es ∧ Passes a := by
  have h : Vetted es m := exec_invariant vetted_step [] (vetted_start rows) hchecked hrun
  constructor
  · intro before r after heq a ha
    have hpassed := h.ordered before r after heq a ha
    refine ⟨hpassed, h.passed a ?_⟩
    rw [heq]
    exact List.mem_append_left _ hpassed
  · intro p hp a ha
    have hpassed := h.pinned p hp a ha
    exact ⟨hpassed, h.passed a hpassed⟩

def publicIp : Str := "93.184.216.34".toList

def loopbackIp : Str := "127.0.0.1".toList

def notifyCall : CreateCall :=
  ⟨"hook".toList, hookUrl, [['*']], signingSecret, none, some [publicIp], some [publicIp]⟩

def steadyDns : Lookup := fun _ _ => some [publicIp]

def steadySteps : List Step :=
  [.reload steadyDns, .create notifyCall steadyDns, .dispatch runFinished, .delete 1 steadyDns,
    .dispatch runFinished]

theorem requests_only_to_checked_addresses_steady :
    ∃ m es, exec (step sampleEnv) ⟨[], []⟩ steadySteps = some (m, es) ∧
      (∃ before r, es = before ++ [.posted r] ∧ r.resolved = [publicIp]) ∧
      ∀ before r after, es = before ++ .posted r :: after → ∀ a ∈ r.resolved,
        .passed a ∈ before ∧ Passes a := by
  refine ⟨_, _, rfl, ⟨[.passed publicIp, .passed publicIp], _, rfl, rfl⟩, ?_⟩
  exact (requests_only_to_checked_addresses sampleEnv [] steadySteps _ _ (by decide) rfl).1

def rebindingDns : Lookup
  | _, .check => some [publicIp]
  | _, .pin => some [loopbackIp]

def rebindingSteps : List Step :=
  [.create notifyCall rebindingDns, .dispatch { runFinished with resolve := fun _ => some [loopbackIp] }]

theorem not_passes_loopback : ¬Passes loopbackIp := by
  rintro ⟨ip,hip,hfree⟩
  have hparse : IpAddress.parse loopbackIp = some (.v4 0x7f000001) := by decide
  rw [hparse] at hip
  cases hip
  exact absurd (hfree ⟨.v4 0x7f000000, 8⟩ List.mem_cons_self) (by decide)

theorem rebound_answer_is_pinned_and_sent :
    ∃ m r, exec (step sampleEnv) ⟨[], []⟩ rebindingSteps =
        some (m, [.passed publicIp, .passed publicIp, .posted r]) ∧
      r.resolved = [loopbackIp] ∧ m.webhooks.map (fun p => p.2.pinnedIps) = [[loopbackIp]] ∧
      ¬Passes loopbackIp :=
  ⟨_, _, rfl, rfl, by decide, not_passes_loopback⟩

end PicoSentry.Serve.Webhooks
