import PicoSentry.Serve.AuditAlarm

namespace PicoSentry.Serve.Audit

open Foundation

structure Edit where
  action : Str
  userId : Option Int
  resourceId : Option Str
  details : Option Str
  ipAddress : Option Str

def Row.canonical (row : Row) : Except PyError Str :=
  Audit.canonical row.prevHash row.action row.userId row.resourceId row.details row.ipAddress

def Linked (rows : List Row) (row : Row) : Prop :=
  ∃ prev, (prev, row) ∈ withPredecessor rows ∧ row.prevHash = hashOf prev

section Edit

variable (id : Nat) (e : Edit)

variable {sha : Sha256} {log : AuditLog}

end Edit

section Escaped

def unescapeBar : Str → Str
  | '~' :: '0' :: s => '|' :: unescapeBar s
  | '~' :: '1' :: s => '~' :: unescapeBar s
  | c :: s => c :: unescapeBar s
  | [] => []

theorem unescapeBar_escapeBar (c : Char) (s : Str) :
    unescapeBar (escapeBar c ++ s) = c :: unescapeBar s := by
  rw [escapeBar]
  split
  · next h =>
    subst h
    rfl
  · split
    · next h =>
      subst h
      rfl
    · next h => simp [unescapeBar, h]

theorem unescapeBar_flatMap (s : Str) : unescapeBar (s.flatMap escapeBar) = s := by
  induction s with
  | nil => rfl
  | cons c s ih => rw [List.flatMap_cons, unescapeBar_escapeBar, ih]

theorem escaped_injective : Function.Injective escaped.hexdigest := by
  intro s t h
  have htail := congrArg unescapeBar (List.cons.inj h).2
  rwa [unescapeBar_flatMap, unescapeBar_flatMap] at htail

end Escaped

section EditedRun

def retentionOnce : List Call :=
  [.append (loginRow "a") 0, .append (loginRow "b") (days 10),
   .purge { retentionDays := some 5 } (fun _ => days 10)]

def forged : Edit where
  action := "forged".toList
  userId := some 7
  resourceId := some []
  details := some []
  ipAddress := none

def rowAt (calls : List Call) (id : Nat) : Row :=
  ((run escaped calls).rows.find? fun r => decide (r.id = id)).getD
    (newRow escaped {} (loginRow "") 0)

end EditedRun

end PicoSentry.Serve.Audit
