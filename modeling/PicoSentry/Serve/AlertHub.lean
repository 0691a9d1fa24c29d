import Mathlib.Algebra.Order.Field.Rat
import Mathlib.Data.List.Nodup
import Mathlib.Data.List.Perm.Subperm
import Mathlib.Tactic.Linarith
import PicoSentry.Foundation.Decimal
import PicoSentry.Foundation.Dict
import PicoSentry.Foundation.Recent

namespace PicoSentry.Serve.AlertHub

open Foundation Foundation.Recent

def maxRecentKeys : Nat := 1024

structure AlertSettings where
  cooldownSeconds : Int := 300
  discordWebhook : Str := []
  slackWebhook : Str := []
  emailSmtpHost : Str := []

-- What becomes of the alert on a channel: it is delivered, nothing is attempted on a channel that is
-- not configured or not known, an expected error is caught, or another exception leaves the call.
inductive Outcome where
  | delivered
  | unattempted
  | failed
  | raised
  deriving DecidableEq

structure AlertRow where
  projectId : Str
  alertType : Str
  severity : Str
  message : Str
  channel : Str
  orgId : Option Int
  sent : Bool := false
  retryCount : Nat := 0

-- insertFails: the channel at whose row the database raises; outcomes: by the place of the channel.
structure Call where
  projectId : Str
  alertType : Str
  severity : Str := []
  message : Str := []
  channels : Option (List Str) := none
  orgId : Option Int := none
  now : ℚ
  insertFails : Option Nat := none
  outcomes : Nat → Outcome

def Call.triple (c : Call) : Option Int × Str × Str := (c.orgId, c.projectId, c.alertType)

def orgText : Option Int → Str
  | none => "None".toList
  | some n => intText n

def Call.key (c : Call) : Str := orgText c.orgId ++ ':' :: c.projectId ++ ':' :: c.alertType

def getDefaultChannels (settings : AlertSettings) : List Str :=
  "syslog".toList :: (if settings.discordWebhook ≠ [] then ["discord".toList] else []) ++
    (if settings.slackWebhook ≠ [] then ["slack".toList] else []) ++
    if settings.emailSmtpHost ≠ [] then ["email".toList] else []

inductive Reply where
  | suppressed
  | returned (success : Bool)
  | raised
  deriving DecidableEq

structure Hub where
  recentAlerts : Dict Str (List ℚ) := []
  alerts : List AlertRow := []

section Send

variable (settings : AlertSettings)

def channelsOf (c : Call) : List (Str × Outcome) :=
  (c.channels.getD (getDefaultChannels settings)).zipIdx.map fun channel => (channel.1, c.outcomes channel.2)

def rowOf (c : Call) (channel : Str) : AlertRow where
  projectId := c.projectId
  alertType := c.alertType
  severity := c.severity
  message := c.message
  channel := channel
  orgId := c.orgId

def notify (success : Bool) : List (AlertRow × Outcome) → List AlertRow × Reply
  | [] => ([], .returned success)
  | (row, outcome) :: rest =>
    match outcome with
    | .raised => (row :: rest.map Prod.fst, .raised)
    | .failed =>
      let (rows, reply) := notify success rest
      ({ row with retryCount := row.retryCount + 1 } :: rows, reply)
    | _ =>
      let (rows, reply) := notify true rest
      ({ row with sent := true } :: rows, reply)

def deliver (c : Call) : List AlertRow × Reply :=
  let rows := (channelsOf settings c).map fun channel => (rowOf c channel.1, channel.2)
  match c.insertFails with
  | some n => ((rows.take n).map Prod.fst, .raised)
  | none => notify false rows

-- The times of the key that are kept: those less than twice the cooldown old.
def kept (recent : Dict Str (List ℚ)) (c : Call) : List ℚ :=
  since (c.now - settings.cooldownSeconds * 2) ((recent.get? c.key).getD [])

def heldBack (recent : Dict Str (List ℚ)) (c : Call) : Bool :=
  (kept settings recent c).any fun t => c.now - t < settings.cooldownSeconds

def capped (recent : Dict Str (List ℚ)) : Dict Str (List ℚ) := recent.drop (recent.length - maxRecentKeys)

def record (recent : Dict Str (List ℚ)) (c : Call) : Dict Str (List ℚ) :=
  if heldBack settings recent c then recent.set c.key (kept settings recent c)
  else capped ((recent.erase c.key) ++ [(c.key, kept settings recent c ++ [c.now])])

def send (hub : Hub) (c : Call) : Hub × Reply :=
  if heldBack settings hub.recentAlerts c then
    ({ hub with recentAlerts := record settings hub.recentAlerts c }, .suppressed)
  else
    let (rows, reply) := deliver settings c
    ({ recentAlerts := record settings hub.recentAlerts c, alerts := hub.alerts ++ rows }, reply)

structure Entry where
  before : Dict Str (List ℚ)
  call : Call
  reply : Reply

def sendAll (hub : Hub) : List Call → Hub × List Entry
  | [] => (hub, [])
  | c :: calls =>
    let sent := send settings hub c
    let rest := sendAll sent.1 calls
    (rest.1, { before := hub.recentAlerts, call := c, reply := sent.2 } :: rest.2)

def runLog (calls : List Call) : List Entry := (sendAll settings {} calls).2

end Send

section Claims

variable (settings : AlertSettings)

def Reaches (c : Call) : Prop :=
  c.insertFails = none ∧ Outcome.delivered ∈ ((channelsOf settings c).map Prod.snd).takeWhile (· ≠ .raised)

def Attempted (e : Entry) : Prop := heldBack settings e.before e.call = false

def Delivered (e : Entry) : Prop := e.reply ≠ .suppressed ∧ Reaches settings e.call

def Within (e e' : Entry) : Prop := e'.call.now - e.call.now < settings.cooldownSeconds

def Before (log : List Entry) (e e' : Entry) : Prop := ∃ front back, log = front ++ e' :: back ∧ e ∈ front

def NoneSwallowed (log : List Entry) : Prop :=
  ∀ front e back, log = front ++ e :: back → e.reply = .suppressed →
    ∃ e' ∈ front, Delivered settings e' ∧ e'.call.triple = e.call.triple ∧ Within settings e' e

def OncePerPeriod (log : List Entry) : Prop :=
  ∀ e e', Before log e e' → Delivered settings e → Delivered settings e' → e.call.triple = e'.call.triple →
    settings.cooldownSeconds ≤ e'.call.now - e.call.now

def Accounted (log : List Entry) : Prop :=
  ∀ e e', Before log e e' → Attempted settings e → e.call.key = e'.call.key → Within settings e e' →
    e.call.triple = e'.call.triple ∧ Reaches settings e.call

end Claims

section Log

variable {settings : AlertSettings} {hub : Hub} {log : List Entry} {e e' x : Entry} {c : Call}

theorem before_concat : Before (log ++ [x]) e e' ↔ Before log e e' ∨ e' = x ∧ e ∈ log := by
  constructor
  · rintro ⟨front,back,heq,hmem⟩
    rcases List.eq_nil_or_concat back with rfl | ⟨back,y,rfl⟩
    · obtain ⟨rfl,h⟩ := List.append_inj' heq rfl
      cases h
      exact .inr ⟨rfl, hmem⟩
    · rw [List.concat_eq_append, ← List.cons_append, ← List.append_assoc] at heq
      obtain ⟨rfl,-⟩ := List.append_inj' heq rfl
      exact .inl ⟨front, back, rfl, hmem⟩
  · rintro (⟨front,back,rfl,hmem⟩ | ⟨rfl,hmem⟩)
    · exact ⟨front, back ++ [x], by simp, hmem⟩
    · exact ⟨log, [], rfl, hmem⟩

theorem Before.append (h : Before log e e') (rest : List Entry) : Before (log ++ rest) e e' := by
  obtain ⟨front,back,rfl,hmem⟩ := h
  exact ⟨front, back ++ rest, by simp, hmem⟩

theorem eq_or_before (h : e ∈ log) (h' : e' ∈ log) : e = e' ∨ Before log e e' ∨ Before log e' e := by
  obtain ⟨front,back,rfl⟩ := List.append_of_mem h
  rcases List.mem_append.mp h' with hfront | hback
  · exact .inr (.inr ⟨front, back, rfl, hfront⟩)
  · rcases List.mem_cons.mp hback with rfl | hback
    · exact .inl rfl
    · obtain ⟨front',back',rfl⟩ := List.append_of_mem hback
      exact .inr (.inl ⟨front ++ e :: front', back', by simp, List.mem_append_right _ List.mem_cons_self⟩)

theorem sendAll_append (calls calls' : List Call) : sendAll settings hub (calls ++ calls') =
    ((sendAll settings (sendAll settings hub calls).1 calls').1,
      (sendAll settings hub calls).2 ++ (sendAll settings (sendAll settings hub calls).1 calls').2) := by
  induction calls generalizing hub with
  | nil => rfl
  | cons c calls ih =>
    simp only [List.cons_append, sendAll, ih]

theorem map_call_sendAll (calls : List Call) : (sendAll settings hub calls).2.map Entry.call = calls := by
  induction calls generalizing hub with
  | nil => rfl
  | cons c calls ih =>
    simp only [sendAll, List.map_cons, ih]

theorem notify_ne_suppressed (success : Bool) (rows : List (AlertRow × Outcome)) :
    (notify success rows).2 ≠ .suppressed := by
  induction rows generalizing success with
  | nil => simp [notify]
  | cons channel rows ih =>
    obtain ⟨row,outcome⟩ := channel
    cases outcome with
    | raised => simp [notify]
    | failed => exact ih success
    | delivered => exact ih true
    | unattempted => exact ih true

theorem send_suppressed_iff : (send settings hub c).2 = .suppressed ↔ heldBack settings hub.recentAlerts c = true := by
  rw [send]
  split
  · next h => exact iff_of_true rfl h
  · next h =>
    refine iff_of_false ?_ h
    change (deliver settings c).2 ≠ .suppressed
    rw [deliver]
    split
    · exact Reply.noConfusion
    · exact notify_ne_suppressed false _

theorem send_recentAlerts : (send settings hub c).1.recentAlerts = record settings hub.recentAlerts c := by
  rw [send]
  split <;> rfl

end Log

section Invariant

variable (settings : AlertSettings)

structure Sound (recent : Dict Str (List ℚ)) (log : List Entry) : Prop where
  nodup : (Dict.keys recent).Nodup
  known : ∀ k ∈ Dict.keys recent, ∃ e ∈ log, e.call.key = k
  times : ∀ p ∈ recent, ∀ t ∈ p.2, ∃ e ∈ log, Attempted settings e ∧ e.call.key = p.1 ∧ e.call.now = t
  replies : ∀ e ∈ log, e.reply = .suppressed ↔ ¬Attempted settings e
  suppressed : ∀ front e back, log = front ++ e :: back → ¬Attempted settings e →
    ∃ e' ∈ front, Attempted settings e' ∧ e'.call.key = e.call.key ∧ Within settings e' e

structure Complete (recent : Dict Str (List ℚ)) (log : List Entry) : Prop where
  recorded : ∀ e ∈ log, Attempted settings e → e.call.now ∈ (recent.get? e.call.key).getD [] ∨
    ∃ e' ∈ log, ¬Within settings e e'
  spaced : ∀ e e', Before log e e' → Attempted settings e → Attempted settings e' → e.call.key = e'.call.key →
    ¬Within settings e e'

variable {settings} {recent : Dict Str (List ℚ)} {log : List Entry} {c : Call} {t : ℚ}

theorem mem_kept : t ∈ kept settings recent c ↔
    t ∈ (recent.get? c.key).getD [] ∧ c.now - settings.cooldownSeconds * 2 < t := by
  rw [kept, since, List.mem_filter, decide_eq_true_eq]

theorem mem_get?_getD {recent : Dict Str (List ℚ)} {k : Str} (h : t ∈ (recent.get? k).getD []) :
    ∃ times, (k, times) ∈ recent ∧ t ∈ times := by
  cases hget : recent.get? k with
  | none =>
    rw [hget] at h
    cases h
  | some times =>
    rw [hget] at h
    exact ⟨times, Dict.mem_of_get? hget, h⟩

theorem mem_record {p : Str × List ℚ} (h : p ∈ record settings recent c) :
    p ∈ recent ∨ p.1 = c.key ∧ ∀ t ∈ p.2, t ∈ (recent.get? c.key).getD [] ∨
      heldBack settings recent c = false ∧ t = c.now := by
  rw [record] at h
  split at h
  · next hheld =>
    rcases Dict.mem_set h with hmem | rfl
    · exact .inl hmem
    · exact .inr ⟨rfl, fun t ht => .inl (mem_kept.mp ht).1⟩
  · next hheld =>
    rcases List.mem_append.mp (List.mem_of_mem_drop h) with hmem | hmem
    · exact .inl (List.mem_of_mem_filter hmem)
    · cases List.mem_singleton.mp hmem
      refine .inr ⟨rfl, fun t ht => ?_⟩
      rcases List.mem_append.mp ht with ht | ht
      · exact .inl (mem_kept.mp ht).1
      · exact .inr ⟨Bool.eq_false_iff.mpr hheld, List.mem_singleton.mp ht⟩

theorem nodup_touched (h : (Dict.keys recent).Nodup) (k : Str) (times : List ℚ) :
    (Dict.keys (recent.erase k ++ [(k, times)])).Nodup := by
  rw [Dict.keys, List.map_append, List.nodup_append]
  refine ⟨Dict.keys_erase_nodup h k, List.nodup_singleton k, ?_⟩
  rintro k' hk' _ hk rfl
  cases List.mem_singleton.mp hk
  obtain ⟨p,hp,heq⟩ := List.mem_map.mp hk'
  rw [Dict.erase, List.mem_filter] at hp
  exact absurd heq (of_decide_eq_true hp.2)

theorem nodup_record (h : (Dict.keys recent).Nodup) : (Dict.keys (record settings recent c)).Nodup := by
  rw [record]
  split
  · exact Dict.keys_set_nodup h _ _
  · exact (nodup_touched h c.key _).sublist ((List.drop_sublist _ _).map Prod.fst)

theorem Sound.send (h : Sound settings recent log) {reply : Reply}
    (hreply : reply = .suppressed ↔ heldBack settings recent c = true) :
    Sound settings (record settings recent c) (log ++ [{ before := recent, call := c, reply := reply }]) := by
  have hmono : ∀ {k : Str}, (∃ e ∈ log, e.call.key = k) →
      ∃ e ∈ log ++ [{ before := recent, call := c, reply := reply }], e.call.key = k := by
    rintro k ⟨e,hmem,hkey⟩
    exact ⟨e, List.mem_append_left _ hmem, hkey⟩
  have hnew : ({ before := recent, call := c, reply := reply } : Entry) ∈
      log ++ [{ before := recent, call := c, reply := reply }] := List.mem_append_right _ (List.mem_singleton_self _)
  have htimes : ∀ k, ∀ t ∈ (recent.get? k).getD [], ∃ e ∈ log, Attempted settings e ∧ e.call.key = k ∧ e.call.now = t := by
    intro k t ht
    obtain ⟨times,hmem,ht⟩ := mem_get?_getD ht
    exact h.times (k, times) hmem t ht
  refine ⟨nodup_record h.nodup, fun k hk => ?_, fun p hp t ht => ?_, fun e he => ?_, fun front e back heq hheld => ?_⟩
  · obtain ⟨p,hp,rfl⟩ := List.mem_map.mp hk
    rcases mem_record hp with hmem | ⟨hkey,-⟩
    · exact hmono (h.known p.1 (List.mem_map_of_mem hmem))
    · exact ⟨_, hnew, hkey.symm⟩
  · rcases mem_record hp with hmem | ⟨hkey,hall⟩
    · obtain ⟨e,hmem,he⟩ := h.times p hmem t ht
      exact ⟨e, List.mem_append_left _ hmem, he⟩
    · rcases hall t ht with hold | ⟨hattempted,rfl⟩
      · obtain ⟨e,hmem,hattempted,hkey',hnow⟩ := htimes c.key t hold
        exact ⟨e, List.mem_append_left _ hmem, hattempted, hkey'.trans hkey.symm, hnow⟩
      · exact ⟨_, hnew, hattempted, hkey.symm, rfl⟩
  · rcases List.mem_append.mp he with he | he
    · exact h.replies e he
    · cases List.mem_singleton.mp he
      rw [hreply, Attempted, Bool.not_eq_false]
  · rcases List.eq_nil_or_concat back with rfl | ⟨back,y,rfl⟩
    · obtain ⟨rfl,hlast⟩ := List.append_inj' heq rfl
      cases hlast
      obtain ⟨t,ht,hage⟩ := List.any_eq_true.mp (Bool.not_eq_false _ ▸ hheld)
      obtain ⟨e,hmem,hattempted,hkey,rfl⟩ := htimes c.key t (mem_kept.mp ht).1
      have hage : c.now - e.call.now < settings.cooldownSeconds := of_decide_eq_true hage
      exact ⟨e, hmem, hattempted, hkey, hage⟩
    · rw [List.concat_eq_append, ← List.cons_append, ← List.append_assoc] at heq
      obtain ⟨rfl,-⟩ := List.append_inj' heq rfl
      exact h.suppressed front e back rfl hheld

theorem capped_eq {recent : Dict Str (List ℚ)} (h : recent.length ≤ maxRecentKeys) : capped recent = recent := by
  rw [capped, Nat.sub_eq_zero_of_le h, List.drop_zero]

theorem mem_get?_record {k : Str} (hroom : (recent.erase c.key ++ [(c.key, kept settings recent c ++ [c.now])]).length ≤
      maxRecentKeys) (h : t ∈ (recent.get? k).getD []) (hage : c.now - settings.cooldownSeconds * 2 < t) :
    t ∈ ((record settings recent c).get? k).getD [] := by
  by_cases hkey : c.key = k
  · subst hkey
    have hkept := mem_kept.mpr ⟨h, hage⟩
    rw [record]
    split
    · rw [Dict.get?_set_self]
      exact hkept
    · rw [capped_eq hroom, Dict.get?_append, Dict.get?_erase, if_pos rfl, Option.none_or, Dict.get?, if_pos rfl]
      exact List.mem_append_left _ hkept
  · rw [record]
    split
    · rw [Dict.get?_set, if_neg hkey]
      exact h
    · rw [capped_eq hroom, Dict.get?_append, Dict.get?_erase, if_neg hkey]
      cases hget : recent.get? k with
      | none =>
        rw [hget] at h
        cases h
      | some times =>
        rw [hget] at h
        exact h

theorem now_mem_record (hroom : (recent.erase c.key ++ [(c.key, kept settings recent c ++ [c.now])]).length ≤
      maxRecentKeys) (hattempted : heldBack settings recent c = false) :
    c.now ∈ ((record settings recent c).get? c.key).getD [] := by
  rw [record, if_neg (Bool.eq_false_iff.mp hattempted), capped_eq hroom, Dict.get?_append, Dict.get?_erase, if_pos rfl,
    Option.none_or, Dict.get?, if_pos rfl]
  exact List.mem_append_right _ (List.mem_singleton_self _)

theorem old_of_dropped {now : ℚ} (hle : t ≤ now) (h : t ≤ now - settings.cooldownSeconds * 2) :
    ¬ now - t < settings.cooldownSeconds := by
  intro hage
  linarith

theorem Complete.send (h : Complete settings recent log)
    (hroom : (recent.erase c.key ++ [(c.key, kept settings recent c ++ [c.now])]).length ≤ maxRecentKeys)
    (hmono : ∀ e ∈ log, e.call.now ≤ c.now) {reply : Reply} :
    Complete settings (record settings recent c) (log ++ [{ before := recent, call := c, reply := reply }]) := by
  -- A recorded call is in the table that the new call finds, or the cooldown is over for the new call too.
  have hfound : ∀ e ∈ log, Attempted settings e → e.call.now ∈ (recent.get? e.call.key).getD [] ∨
      ¬c.now - e.call.now < settings.cooldownSeconds := by
    intro e hmem hattempted
    refine (h.recorded e hmem hattempted).imp_right ?_
    rintro ⟨e',hmem',hold⟩ hage
    have hlater := hmono e' hmem'
    exact hold (lt_of_le_of_lt (sub_le_sub_right hlater _) hage)
  constructor
  · intro e he hattempted
    rcases List.mem_append.mp he with he | he
    · rcases hfound e he hattempted with hmem | hold
      · by_cases hage : c.now - settings.cooldownSeconds * 2 < e.call.now
        · exact .inl (mem_get?_record hroom hmem hage)
        · exact .inr ⟨_, List.mem_append_right _ (List.mem_singleton_self _), old_of_dropped (hmono e he) (not_lt.mp hage)⟩
      · exact .inr ⟨_, List.mem_append_right _ (List.mem_singleton_self _), hold⟩
    · cases List.mem_singleton.mp he
      exact .inl (now_mem_record hroom hattempted)
  · intro e e' hbefore hattempted hattempted' hkey
    rcases before_concat.mp hbefore with hbefore | ⟨rfl,hmem⟩
    · exact h.spaced e e' hbefore hattempted hattempted' hkey
    · intro hage
      rcases hfound e hmem hattempted with hfound | hold
      · have hage' : c.now - e.call.now < settings.cooldownSeconds := hage
        have hle := hmono e hmem
        rw [hkey] at hfound
        have hkept := mem_kept.mpr ⟨hfound, (by linarith : c.now - settings.cooldownSeconds * 2 < e.call.now)⟩
        have hheld : heldBack settings recent c = true := List.any_eq_true.mpr ⟨_, hkept, decide_eq_true hage'⟩
        cases hheld.symm.trans hattempted'
      · exact hold hage

theorem length_touched_le {keys : List Str} (hsound : Sound settings recent log) (hlog : ∀ e ∈ log, e.call.key ∈ keys)
    (hc : c.key ∈ keys) (hfew : keys.length ≤ maxRecentKeys) (times : List ℚ) :
    (recent.erase c.key ++ [(c.key, times)]).length ≤ maxRecentKeys := by
  have hsubset : Dict.keys (recent.erase c.key ++ [(c.key, times)]) ⊆ keys := by
    intro k hk
    obtain ⟨p,hp,rfl⟩ := List.mem_map.mp hk
    rcases List.mem_append.mp hp with hp | hp
    · obtain ⟨e,hmem,hkey⟩ := hsound.known p.1 (List.mem_map_of_mem (List.mem_of_mem_filter hp))
      exact hkey ▸ hlog e hmem
    · cases List.mem_singleton.mp hp
      exact hc
  have hlength := (List.subperm_of_subset (nodup_touched hsound.nodup c.key times) hsubset).length_le
  rw [Dict.keys, List.length_map] at hlength
  exact hlength.trans hfew

end Invariant

section Runs

variable {settings : AlertSettings} {calls : List Call} {log : List Entry} {keys : List Str}

theorem sendAll_concat (calls : List Call) (c : Call) : sendAll settings {} (calls ++ [c]) =
    ((send settings (sendAll settings {} calls).1 c).1,
      (sendAll settings {} calls).2 ++
        [⟨(sendAll settings {} calls).1.recentAlerts, c, (send settings (sendAll settings {} calls).1 c).2⟩]) :=
  sendAll_append calls [c]

theorem sound_run (calls : List Call) :
    Sound settings (sendAll settings {} calls).1.recentAlerts (sendAll settings {} calls).2 := by
  induction calls using List.reverseRecOn with
  | nil =>
    refine ⟨List.nodup_nil, fun _ h => absurd h List.not_mem_nil, fun _ h => absurd h List.not_mem_nil,
      fun _ h => absurd h List.not_mem_nil, fun front e back heq => ?_⟩
    exact absurd heq.symm (List.append_ne_nil_of_right_ne_nil _ (List.cons_ne_nil _ _))
  | append_singleton calls c ih =>
    rw [sendAll_concat, send_recentAlerts]
    exact ih.send send_suppressed_iff

theorem complete_run (hmono : calls.Pairwise fun c c' => c.now ≤ c'.now) (hkeys : ∀ c ∈ calls, c.key ∈ keys)
    (hfew : keys.length ≤ maxRecentKeys) :
    Complete settings (sendAll settings {} calls).1.recentAlerts (sendAll settings {} calls).2 := by
  induction calls using List.reverseRecOn with
  | nil =>
    refine ⟨fun _ h => absurd h List.not_mem_nil, ?_⟩
    rintro e e' ⟨front,back,heq,-⟩
    exact absurd heq.symm (List.append_ne_nil_of_right_ne_nil _ (List.cons_ne_nil _ _))
  | append_singleton calls c ih =>
    obtain ⟨hmono,-,hlast⟩ := List.pairwise_append.mp hmono
    obtain ⟨hkeys,hc⟩ := List.forall_mem_append.mp hkeys
    have hcall : ∀ e ∈ (sendAll settings {} calls).2, e.call ∈ calls := fun e he => by
      rw [← @map_call_sendAll settings {} calls]
      exact List.mem_map_of_mem he
    rw [sendAll_concat, send_recentAlerts]
    refine (ih hmono hkeys).send ?_ fun e he => hlast e.call (hcall e he) c (List.mem_singleton_self c)
    exact length_touched_le (sound_run calls) (fun e he => hkeys e.call (hcall e he)) (hc c (List.mem_singleton_self c))
      hfew _

theorem noneSwallowed_of_accounted {recent : Dict Str (List ℚ)} (hsound : Sound settings recent log)
    (h : Accounted settings log) : NoneSwallowed settings log := by
  intro front e back heq hsuppressed
  have hmem : e ∈ log := heq ▸ List.mem_append_right _ List.mem_cons_self
  obtain ⟨e',hfront,hattempted,hkey,hwithin⟩ :=
    hsound.suppressed front e back heq ((hsound.replies e hmem).mp hsuppressed)
  obtain ⟨htriple,hreaches⟩ := h e' e ⟨front, back, heq, hfront⟩ hattempted hkey hwithin
  have hmem' : e' ∈ log := heq ▸ List.mem_append_left _ hfront
  exact ⟨e', hfront, ⟨fun hs => (hsound.replies e' hmem').mp hs hattempted, hreaches⟩, htriple, hwithin⟩

theorem key_eq_of_triple {c c' : Call} (h : c.triple = c'.triple) : c.key = c'.key := by
  obtain ⟨horg,h⟩ := Prod.mk.inj h
  obtain ⟨hproject,htype⟩ := Prod.mk.inj h
  rw [Call.key, Call.key, horg, hproject, htype]

theorem Delivered.attempted {recent : Dict Str (List ℚ)} (hsound : Sound settings recent log) {e : Entry} (hmem : e ∈ log)
    (h : Delivered settings e) : Attempted settings e := by
  by_contra hnot
  exact h.1 ((hsound.replies e hmem).mpr hnot)

theorem accounted_of_noneSwallowed {recent : Dict Str (List ℚ)} (hsound : Sound settings recent log)
    (hcomplete : Complete settings recent log) (hmono : ∀ e e', Before log e e' → e.call.now ≤ e'.call.now)
    (h : NoneSwallowed settings log) : Accounted settings log := by
  rintro e e' ⟨front,back,heq,hfront⟩ hattempted hkey hwithin
  have hlater : ∀ d ∈ front, d.call.now ≤ e'.call.now := fun d hd => hmono d e' ⟨front, back, heq, hd⟩
  have hmem : ∀ d ∈ front, d ∈ log := fun d hd => heq ▸ List.mem_append_left _ hd
  have hheld : ¬Attempted settings e' := fun hattempted' =>
    hcomplete.spaced e e' ⟨front, back, heq, hfront⟩ hattempted hattempted' hkey hwithin
  have hsuppressed := (hsound.replies e' (heq ▸ List.mem_append_right _ List.mem_cons_self)).mpr hheld
  obtain ⟨d,hd,hdelivered,htriple,hwithin'⟩ := h front e' back heq hsuppressed
  have hattempted' := hdelivered.attempted hsound (hmem d hd)
  have hkey' : d.call.key = e.call.key := (key_eq_of_triple htriple).trans hkey.symm
  have hspaced : ∀ x y, Before front x y → x ∈ front → y ∈ front → Attempted settings x → Attempted settings y →
      x.call.key = y.call.key → ¬Within settings x e' := by
    intro x y hbefore hx hy hax hay hxy hage
    refine hcomplete.spaced x y (heq ▸ hbefore.append _) hax hay hxy ?_
    exact lt_of_le_of_lt (sub_le_sub_right (hlater y hy) _) hage
  rcases eq_or_before hfront hd with rfl | hbefore | hbefore
  · exact ⟨htriple, hdelivered.2⟩
  · exact absurd hwithin (hspaced e d hbefore hfront hd hattempted hattempted' hkey'.symm)
  · exact absurd hwithin' (hspaced d e hbefore hd hfront hattempted' hattempted hkey')

theorem oncePerPeriod {recent : Dict Str (List ℚ)} (hsound : Sound settings recent log)
    (hcomplete : Complete settings recent log) : OncePerPeriod settings log := by
  rintro e e' ⟨front,back,rfl,hmem⟩ h h' htriple
  refine not_lt.mp (hcomplete.spaced e e' ⟨front, back, rfl, hmem⟩ (h.attempted hsound (List.mem_append_left _ hmem))
    (h'.attempted hsound (List.mem_append_right _ List.mem_cons_self)) (key_eq_of_triple htriple))

theorem now_le_of_before (hmono : calls.Pairwise fun c c' => c.now ≤ c'.now) {e e' : Entry}
    (h : Before (runLog settings calls) e e') : e.call.now ≤ e'.call.now := by
  rw [← @map_call_sendAll settings {} calls] at hmono
  obtain ⟨front,back,heq,hmem⟩ := h
  rw [← runLog, heq, List.map_append, List.map_cons] at hmono
  exact (List.pairwise_append.mp hmono).2.2 e.call (List.mem_map_of_mem hmem) e'.call List.mem_cons_self

theorem alerts_kept (settings : AlertSettings) (calls : List Call) (hmono : calls.Pairwise fun c c' => c.now ≤ c'.now) :
    (Accounted settings (runLog settings calls) → NoneSwallowed settings (runLog settings calls)) ∧
      ∀ triples : List (Option Int × Str × Str), triples.length ≤ maxRecentKeys → (∀ c ∈ calls, c.triple ∈ triples) →
        (NoneSwallowed settings (runLog settings calls) ↔ Accounted settings (runLog settings calls)) ∧
          OncePerPeriod settings (runLog settings calls) := by
  have hsound := @sound_run settings calls
  refine ⟨noneSwallowed_of_accounted hsound, fun triples hfew htriples => ?_⟩
  have hkeys : ∀ c ∈ calls, c.key ∈ triples.map fun t => orgText t.1 ++ ':' :: t.2.1 ++ ':' :: t.2.2 :=
    fun c hc => List.mem_map.mpr ⟨c.triple, htriples c hc, rfl⟩
  have hcomplete := @complete_run settings _ _ hmono hkeys (by rwa [List.length_map])
  exact ⟨⟨accounted_of_noneSwallowed hsound hcomplete fun e e' => now_le_of_before hmono,
    noneSwallowed_of_accounted hsound⟩, oncePerPeriod hsound hcomplete⟩

def callAt (now : ℚ) (project type : String) (outcome : Outcome) : Call where
  projectId := project.toList
  alertType := type.toList
  now := now
  outcomes := fun _ => outcome

theorem alerts_kept_repeat :
    NoneSwallowed {} (runLog {} [callAt 0 "web" "scan" .delivered, callAt 1 "web" "scan" .failed]) ∧
    OncePerPeriod {} (runLog {} [callAt 0 "web" "scan" .delivered, callAt 1 "web" "scan" .failed]) := by
  have h := (alerts_kept {} [callAt 0 "web" "scan" .delivered, callAt 1 "web" "scan" .failed]
    (List.pairwise_pair.mpr (by decide +kernel))).2 [(none, "web".toList, "scan".toList)] (by decide)
    (List.forall_mem_cons.mpr ⟨List.mem_singleton_self _, List.forall_mem_singleton.mpr (List.mem_singleton_self _)⟩)
  refine ⟨h.1.mpr ?_, h.2⟩
  rintro e e' ⟨front,back,heq,he⟩ _ _ _
  cases front with
  | nil => cases he
  | cons x front =>
    obtain ⟨rfl,hrest⟩ := List.cons.inj heq
    cases front with
    | nil =>
      cases List.mem_singleton.mp he
      cases hrest
      exact ⟨rfl, rfl, by decide +kernel⟩
    | cons y front => cases front <;> cases hrest

-- After a call that failed on every channel the next is held back, and so is one of another project
-- and type with the same joined key.
theorem alerts_swallowed :
    ¬NoneSwallowed {} (runLog {} [callAt 0 "web" "scan" .failed, callAt 1 "web" "scan" .delivered]) ∧
      ¬NoneSwallowed {} (runLog {} [callAt 0 "web" "scan:late" .delivered, callAt 1 "web:scan" "late" .delivered]) := by
  constructor
  · intro h
    obtain ⟨e,hmem,hdelivered,-⟩ := h [_] _ [] rfl (send_suppressed_iff.mpr (by decide +kernel))
    cases List.mem_singleton.mp hmem
    exact absurd hdelivered.2.2 (by decide +kernel)
  · intro h
    obtain ⟨e,hmem,-,htriple,-⟩ := h [_] _ [] rfl (send_suppressed_iff.mpr (by decide +kernel))
    cases List.mem_singleton.mp hmem
    exact absurd htriple (by decide +kernel)

end Runs

end PicoSentry.Serve.AlertHub
