import Mathlib.Data.List.Nodup
import PicoSentry.Foundation.Dict
import PicoSentry.Foundation.Number
import PicoSentry.Foundation.Run
import PicoSentry.Foundation.Text

namespace PicoSentry.Serve.JobCreation

open Foundation
open Foundation.Run

-- other: a list, an object, any value that is no string, number, boolean or None.
inductive ParamValue where
  | null
  | bool (b : Bool)
  | int (n : Int)
  | float (x : Number)
  | str (s : Str)
  | other
  deriving DecidableEq

abbrev Params := Dict Str ParamValue

-- A params column as json.loads reads it; other is JSON that is no object.
inductive StoredParams where
  | unreadable
  | other
  | object (params : Params)
  deriving DecidableEq

structure JobRow where
  id : Int
  name : Str
  cron : Str
  command : Str
  params : StoredParams
  enabled : Bool
  orgId : Option Int
  deriving DecidableEq

structure JobTable where
  rows : List JobRow
  names : (rows.map JobRow.name).Nodup
  ids : (rows.map JobRow.id).Nodup

structure Request where
  name : Str
  cron : Str
  command : Str
  params : Option Params
  enabled : Bool
  orgId : Option Int
  deriving DecidableEq

inductive AddJobError where
  | invalidCommand (command : Str)
  | invalidParam (key : Str)
  | nameTaken (name : Str)
  | conflict (name : Str)
  | invalidCron (cron : Str)
  | nextRunEscaped
  | unreadableParams
  | integrity
  | database
  deriving DecidableEq

inductive Stage where
  | called
  | inserting
  | selected
  | refused
  | returned (id : Int)
  | raised (error : AddJobError)
  deriving DecidableEq

structure Call where
  request : Request
  stage : Stage

structure State where
  jobs : JobTable
  calls : List Call

inductive Backend where
  | sqlite
  | postgres
  deriving DecidableEq

inductive NextRun where
  | time (time : Int)
  | invalid
  | escapes

-- Without croniter installed, the expressions are those of the pattern.
structure CronConfig where
  tables : Unicode
  croniter : Option (Str → Int → NextRun)

inductive Step where
  | precheck (call : Nat) (now : Int) (reload : Bool)
  | transact (call : Nat) (id : Int) (reload : Bool)
  | select (call : Nat) (reload : Bool)
  | insert (call : Nat) (id : Int) (reload : Bool)
  | fallback (call : Nat) (reload : Bool)
  | fail (call : Nat)

section Cron

variable (U : Unicode)

def wordAt : Str → Str → Option Str
  | [], s => some s
  | _ :: _, [] => none
  | c :: word, d :: s => if U.sameIgnoringCase c d then wordAt word s else none

def runAt (p : Char → Bool) (s : Str) : Option (Str × Str) :=
  if s.takeWhile p = [] then none else some (s.takeWhile p, s.dropWhile p)

def unitAt (s : Str) : Option Str :=
  ["minute".toList, "hour".toList, "day".toList].findSome? fun word =>
    (wordAt U word s).map fun _ => s.take word.length

-- every\s+(\d+)\s+(minute|hour|day), ignoring case
def everyMatch (cron : Str) : Option (Str × Str) := do
  let s ← wordAt U "every".toList cron
  let (_, s) ← runAt U.space s
  let (val, s) ← runAt (fun c => (U.digit c).isSome) s
  let (_, s) ← runAt U.space s
  let unit ← unitAt U s
  return (val, unit)

-- A unit that is written with a capital matches, and then fits none of the three.
def unitLength (unit : Str) : Option Int :=
  if unit = "minute".toList then some 60000000
  else if unit = "hour".toList then some 3600000000
  else if unit = "day".toList then some 86400000000
  else none

def lastMoment : Int := 253402300799999999

def maxDigits : Nat := 4300

end Cron

def getNextRun (cfg : CronConfig) (cron : Str) (now : Int) : NextRun :=
  match cfg.croniter with
  | some itr => itr cron now
  | none =>
    match everyMatch cfg.tables cron with
    | none => .invalid
    | some (val, unit) =>
      if maxDigits < val.length then .escapes
      else
        match unitLength unit with
        | none => .invalid
        | some length =>
          let time := now + val.foldl (fun n c => 10 * n + (cfg.tables.digit c).getD 0) 0 * length
          if lastMoment < time then .escapes else .time time

def allowedCommands : List Str :=
  ["batch".toList, "run".toList, "report".toList, "backup".toList, "cleanup".toList,
   "health_check".toList]

def ParamValue.allowed : ParamValue → Bool
  | .other => false
  | _ => true

def invalidParam (params : Params) : Option Str :=
  (params.find? fun p => !p.2.allowed).map Prod.fst

-- params or {}
def Request.given (r : Request) : Params := r.params.getD []

def ParamValue.number? : ParamValue → Option Number
  | .bool b => some (.finite (if b then 1 else 0))
  | .int n => some (.finite n)
  | .float x => some x
  | _ => none

def sameValue (v w : ParamValue) : Bool :=
  match v.number?, w.number? with
  | some x, some y => x = y && x ≠ .nan
  | none, none => v = w && v ≠ .other
  | _, _ => false

def sameParams (stored given : Params) : Bool :=
  stored.length = given.length &&
    stored.all fun p => (given.get? p.1).any fun value => sameValue p.2 value

-- No answer where json.loads raises: it is only asked when the first two comparisons pass.
def differs (row : JobRow) (r : Request) : Option Bool :=
  if row.cron ≠ r.cron ∨ row.command ≠ r.command then some true
  else
    match row.params with
    | .unreadable => none
    | .other => some true
    | .object stored => some !sameParams stored r.given

def JobTable.find (t : JobTable) (name : Str) : Option JobRow := t.rows.find? fun row => row.name = name

def JobTable.readable (t : JobTable) : Bool := t.rows.all fun row => row.params ≠ .unreadable

theorem nodup_map_concat {κ : Type} {f : JobRow → κ} {rows : List JobRow} {row : JobRow}
    (h : (rows.map f).Nodup) (hnew : f row ∉ rows.map f) : ((rows ++ [row]).map f).Nodup := by
  rw [List.map_append, List.map_singleton, ← List.concat_eq_append]
  exact List.Nodup.concat hnew h

def JobTable.insert (t : JobTable) (row : JobRow) (hname : row.name ∉ t.rows.map JobRow.name)
    (hid : row.id ∉ t.rows.map JobRow.id) : JobTable where
  rows := t.rows ++ [row]
  names := nodup_map_concat t.names hname
  ids := nodup_map_concat t.ids hid

def newRow (id : Int) (r : Request) : JobRow where
  id := id
  name := r.name
  cron := r.cron
  command := r.command
  params := .object r.given
  enabled := r.enabled
  orgId := r.orgId

-- _load_jobs comes before the answer and reads every row.
def settle (t : JobTable) (reload : Bool) (id : Int) : Stage :=
  if reload then
    if t.readable then .returned id else .raised .unreadableParams
  else .raised .database

-- _raise_if_cross_org, then the row's id.
def settleFound (t : JobTable) (reload : Bool) (row : JobRow) (r : Request) : Stage :=
  if row.orgId ≠ r.orgId then .raised (.nameTaken r.name) else settle t reload row.id

def precheck (cfg : CronConfig) (t : JobTable) (now : Int) (reload : Bool)
    (r : Request) : Stage :=
  if r.command ∉ allowedCommands then .raised (.invalidCommand r.command)
  else
    match invalidParam r.given with
    | some key => .raised (.invalidParam key)
    | none =>
      match t.find r.name with
      | some row =>
        if row.orgId ≠ r.orgId then .raised (.nameTaken r.name)
        else
          match differs row r with
          | none => .raised .unreadableParams
          | some true => .raised (.conflict r.name)
          | some false => settle t reload row.id
      | none =>
        match getNextRun cfg r.cron now with
        | .invalid => .raised (.invalidCron r.cron)
        | .escapes => .raised .nextRunEscaped
        | .time _ => .inserting

def State.setStage (s : State) (call : Nat) (c : Call) (stage : Stage) : State :=
  { s with calls := s.calls.set call { c with stage := stage } }

-- The unique index decides whether the INSERT goes through; the database picks a new id.
def insertJob (s : State) (call : Nat) (c : Call) (id : Int) (reload : Bool) :
    Option (State × List Int) :=
  if hname : c.request.name ∈ s.jobs.rows.map JobRow.name then some (s.setStage call c .refused, [])
  else if hid : id ∈ s.jobs.rows.map JobRow.id then none
  else
    let jobs := s.jobs.insert (newRow id c.request) hname hid
    some (State.setStage ⟨jobs, s.calls⟩ call c (settle jobs reload id), [id])

def takeFound (s : State) (call : Nat) (c : Call) (reload : Bool)
    (otherwise : Option (State × List Int)) : Option (State × List Int) :=
  match s.jobs.find c.request.name with
  | some row => some (s.setStage call c (settleFound s.jobs reload row c.request), [])
  | none => otherwise

def Stage.finished : Stage → Bool
  | .returned _ => true
  | .raised _ => true
  | _ => false

-- Under BEGIN IMMEDIATE the SELECT and the INSERT are one step; on postgres they are two, and an
-- INSERT that waits for another's commit is taken at that commit.
def step (backend : Backend) (cfg : CronConfig) (s : State) :
    Step → Option (State × List Int)
  | .precheck call now reload => do
      let c ← s.calls[call]?
      if c.stage = .called then
        return (s.setStage call c (precheck cfg s.jobs now reload c.request), [])
      else none
  | .transact call id reload => do
      let c ← s.calls[call]?
      if c.stage = .inserting ∧ backend = .sqlite then
        takeFound s call c reload (insertJob s call c id reload)
      else none
  | .select call reload => do
      let c ← s.calls[call]?
      if c.stage = .inserting ∧ backend = .postgres then
        takeFound s call c reload (some (s.setStage call c .selected, []))
      else none
  | .insert call id reload => do
      let c ← s.calls[call]?
      if c.stage = .selected then insertJob s call c id reload else none
  | .fallback call reload => do
      let c ← s.calls[call]?
      if c.stage = .refused then
        takeFound s call c reload (some (s.setStage call c (.raised .integrity), []))
      else none
  | .fail call => do
      let c ← s.calls[call]?
      if c.stage.finished then none else return (s.setStage call c (.raised .database), [])

structure Matches (row : JobRow) (r : Request) : Prop where
  name : row.name = r.name
  orgId : row.orgId = r.orgId
  cron : row.cron = r.cron
  command : row.command = r.command
  params : ∃ stored, row.params = .object stored ∧ ∀ key, stored.get? key = r.given.get? key

def AnsweredIn (t : JobTable) (c : Call) : Prop :=
  ∀ id, c.stage = .returned id → ∃ row ∈ t.rows, row.id = id ∧ Matches row c.request

def Answered (s : State) : Prop := ∀ c ∈ s.calls, AnsweredIn s.jobs c

def Takes (s : State) (reload : Bool) (r : Request) (row : JobRow) : Prop :=
  s.jobs.find r.name = some row ∧ row.orgId = r.orgId ∧ reload = true ∧ s.jobs.readable = true

def WellFormed (r : Request) : Prop := r.command ∈ allowedCommands ∧ invalidParam r.given = none

def TakesItsOwn (s : State) : Step → Prop
  | .precheck call _ reload =>
    ∀ c ∈ s.calls[call]?, WellFormed c.request → ∀ row, Takes s reload c.request row →
      differs row c.request = some false → Matches row c.request
  | .transact call _ reload =>
    ∀ c ∈ s.calls[call]?, ∀ row, Takes s reload c.request row → Matches row c.request
  | .select call reload =>
    ∀ c ∈ s.calls[call]?, ∀ row, Takes s reload c.request row → Matches row c.request
  | .fallback call reload =>
    ∀ c ∈ s.calls[call]?, ∀ row, Takes s reload c.request row → Matches row c.request
  | _ => True

section Answers

variable {t : JobTable} {s : State} {call : Nat} {c : Call} {stage : Stage} {reload : Bool} {row : JobRow}
  {r : Request} {id : Int}

theorem settle_eq_returned_iff {id' : Int} :
    settle t reload id = .returned id' ↔ reload = true ∧ t.readable = true ∧ id = id' := by
  rw [settle]
  cases reload <;> cases t.readable <;> simp

theorem settleFound_eq_returned_iff :
    settleFound t reload row r = .returned id ↔
      row.orgId = r.orgId ∧ reload = true ∧ t.readable = true ∧ row.id = id := by
  rw [settleFound]
  split
  · next hne => simp [hne]
  · next heq => simp [settle_eq_returned_iff, not_not.mp heq]

theorem mem_of_find {name : Str} (h : t.find name = some row) : row ∈ t.rows :=
  List.mem_of_find?_eq_some h

theorem row_unique {row' : JobRow} (h : row ∈ t.rows) (h' : row' ∈ t.rows) (hid : row'.id = row.id) :
    row' = row :=
  List.inj_on_of_nodup_map t.ids h' h hid

theorem answered_set_iff {jobs : JobTable} {calls : List Call} {b : Call} (hget : calls[call]? = some c)
    (h : ∀ x ∈ calls, AnsweredIn jobs x) :
    Answered ⟨jobs, calls.set call b⟩ ↔ AnsweredIn jobs b := by
  obtain ⟨hlt,-⟩ := List.getElem?_eq_some_iff.mp hget
  constructor
  · intro hall
    exact hall b (List.mem_set hlt b)
  · rintro hb x hx
    rcases List.mem_or_eq_of_mem_set hx with hx | rfl
    · exact h x hx
    · exact hb

theorem answered_setStage_iff (hget : s.calls[call]? = some c) (h : Answered s) :
    Answered (s.setStage call c stage) ↔ AnsweredIn s.jobs { c with stage := stage } :=
  answered_set_iff hget h

theorem answeredIn_open (h : ∀ id, stage ≠ .returned id) : AnsweredIn t { c with stage := stage } :=
  fun id hid => absurd hid (h id)

theorem answeredIn_iff_matches (taken : Prop) (hrow : row ∈ t.rows)
    (hstage : ∀ id, stage = .returned id ↔ taken ∧ row.id = id) :
    AnsweredIn t { c with stage := stage } ↔ (taken → Matches row c.request) := by
  constructor
  · intro h htaken
    obtain ⟨row',hrow',hid,hmatch⟩ := h row.id ((hstage row.id).mpr ⟨htaken, rfl⟩)
    rwa [row_unique hrow hrow' hid] at hmatch
  · rintro h id hid
    obtain ⟨htaken,rfl⟩ := (hstage id).mp hid
    exact ⟨row, hrow, rfl, h htaken⟩

theorem precheck_eq_returned_iff {cfg : CronConfig} {now : Int} :
    precheck cfg t now reload r = .returned id ↔
      WellFormed r ∧ ∃ row, t.find r.name = some row ∧ row.orgId = r.orgId ∧
        differs row r = some false ∧ reload = true ∧ t.readable = true ∧ row.id = id := by
  rw [precheck]
  split
  · next hcommand => simp [WellFormed, hcommand]
  · next hcommand =>
    cases hparam : invalidParam r.given with
    | some key => simp [WellFormed, hparam]
    | none =>
      rw [and_iff_right ⟨not_not.mp hcommand, hparam⟩]
      cases hfind : t.find r.name with
      | none =>
        simp only [reduceCtorEq, false_and, exists_false, iff_false]
        split <;> simp
      | some row =>
        simp only [Option.some.injEq, exists_eq_left']
        by_cases horg : row.orgId = r.orgId
        · rw [if_neg (not_not.mpr horg), and_iff_right horg]
          rcases differs row r with _ | _ | _ <;> simp [settle_eq_returned_iff]
        · simp [horg]

theorem answeredIn_precheck_iff {cfg : CronConfig} {now : Int} :
    AnsweredIn s.jobs { c with stage := precheck cfg s.jobs now reload c.request } ↔
      (WellFormed c.request → ∀ row, Takes s reload c.request row →
        differs row c.request = some false → Matches row c.request) := by
  constructor
  · rintro h hwell row ⟨hfind,horg,hreload,hreadable⟩ hsame
    obtain ⟨row',hrow',hid,hmatch⟩ := h row.id
      (precheck_eq_returned_iff.mpr ⟨hwell, row, hfind, horg, hsame, hreload, hreadable, rfl⟩)
    rwa [row_unique (mem_of_find hfind) hrow' hid] at hmatch
  · rintro h id hid
    obtain ⟨hwell,row,hfind,horg,hsame,hreload,hreadable,rfl⟩ := precheck_eq_returned_iff.mp hid
    exact ⟨row, mem_of_find hfind, rfl, h hwell row ⟨hfind, horg, hreload, hreadable⟩ hsame⟩

theorem matches_newRow (id : Int) (r : Request) : Matches (newRow id r) r :=
  ⟨rfl, rfl, rfl, rfl, r.given, rfl, fun _ => rfl⟩

theorem answered_open (hget : s.calls[call]? = some c) (h : Answered s)
    (hopen : ∀ id, stage ≠ .returned id) : Answered (s.setStage call c stage) :=
  (answered_setStage_iff hget h).mpr (answeredIn_open hopen)

theorem answered_insertJob {r : State × List Int} (hget : s.calls[call]? = some c) (h : Answered s)
    (hinsert : insertJob s call c id reload = some r) : Answered r.1 := by
  rw [insertJob] at hinsert
  split at hinsert
  · cases hinsert
    exact answered_open hget h (by simp)
  · next hname =>
    split at hinsert
    · cases hinsert
    · next hid =>
      cases hinsert
      refine (answered_set_iff hget ?_).mpr ?_
      · rintro x hx id' hid'
        obtain ⟨row,hrow,heq,hmatch⟩ := h x hx id' hid'
        exact ⟨row, List.mem_append_left _ hrow, heq, hmatch⟩
      · rintro id' hid'
        obtain ⟨-,-,rfl⟩ := settle_eq_returned_iff.mp hid'
        exact ⟨newRow id c.request, List.mem_append_right _ (List.mem_singleton_self _), rfl,
          matches_newRow id c.request⟩

theorem answeredIn_settleFound_iff (hfind : s.jobs.find c.request.name = some row) :
    AnsweredIn s.jobs { c with stage := settleFound s.jobs reload row c.request } ↔
      ∀ row, Takes s reload c.request row → Matches row c.request := by
  rw [answeredIn_iff_matches (row.orgId = c.request.orgId ∧ reload = true ∧ s.jobs.readable = true)
    (mem_of_find hfind)]
  · constructor
    · rintro h row' ⟨hfind',htaken⟩
      cases hfind.symm.trans hfind'
      exact h htaken
    · rintro h htaken
      exact h row ⟨hfind, htaken⟩
  · intro id
    rw [settleFound_eq_returned_iff, and_assoc, and_assoc]

theorem answered_takeFound_iff {otherwise : Option (State × List Int)} {r : State × List Int}
    (hget : s.calls[call]? = some c) (h : Answered s)
    (hother : ∀ r, otherwise = some r → Answered r.1)
    (htake : takeFound s call c reload otherwise = some r) :
    Answered r.1 ↔ ∀ row, Takes s reload c.request row → Matches row c.request := by
  rw [takeFound] at htake
  cases hfind : s.jobs.find c.request.name with
  | some row =>
    rw [hfind] at htake
    cases htake
    rw [answered_setStage_iff hget h, answeredIn_settleFound_iff hfind]
  | none =>
    rw [hfind] at htake
    refine iff_of_true (hother r htake) ?_
    rintro row ⟨hfind',-⟩
    cases hfind.symm.trans hfind'

theorem forall_call_iff (hget : s.calls[call]? = some c) {P : Call → Prop} :
    (∀ c ∈ s.calls[call]?, P c) ↔ P c := by
  simp [hget]

theorem answered_step_iff {backend : Backend} {cfg : CronConfig} {l : Step}
    {r : State × List Int} (h : Answered s) (hstep : step backend cfg s l = some r) :
    Answered r.1 ↔ TakesItsOwn s l := by
  cases l with
  | precheck call now reload =>
    obtain ⟨c,hget,hstep⟩ := Option.bind_eq_some_iff.mp hstep
    split at hstep
    · cases hstep
      rw [answered_setStage_iff hget h, answeredIn_precheck_iff, TakesItsOwn, forall_call_iff hget]
    · cases hstep
  | transact call id reload =>
    obtain ⟨c,hget,hstep⟩ := Option.bind_eq_some_iff.mp hstep
    rw [TakesItsOwn, forall_call_iff hget]
    split at hstep
    · exact answered_takeFound_iff hget h (fun _ hinsert => answered_insertJob hget h hinsert) hstep
    · cases hstep
  | select call reload =>
    obtain ⟨c,hget,hstep⟩ := Option.bind_eq_some_iff.mp hstep
    rw [TakesItsOwn, forall_call_iff hget]
    split at hstep
    · refine answered_takeFound_iff hget h ?_ hstep
      rintro r hr
      cases hr
      exact answered_open hget h (by simp)
    · cases hstep
  | insert call id reload =>
    obtain ⟨c,hget,hstep⟩ := Option.bind_eq_some_iff.mp hstep
    split at hstep
    · exact iff_of_true (answered_insertJob hget h hstep) trivial
    · cases hstep
  | fallback call reload =>
    obtain ⟨c,hget,hstep⟩ := Option.bind_eq_some_iff.mp hstep
    rw [TakesItsOwn, forall_call_iff hget]
    split at hstep
    · refine answered_takeFound_iff hget h ?_ hstep
      rintro r hr
      cases hr
      exact answered_open hget h (by simp)
    · cases hstep
  | fail call =>
    obtain ⟨c,hget,hstep⟩ := Option.bind_eq_some_iff.mp hstep
    split at hstep
    · cases hstep
    · cases hstep
      exact iff_of_true (answered_open hget h (by simp)) trivial

end Answers

def initial (jobs : JobTable) (requests : List Request) : State where
  jobs := jobs
  calls := requests.map fun request => ⟨request, .called⟩

theorem answered_initial (jobs : JobTable) (requests : List Request) : Answered (initial jobs requests) := by
  rintro c hc id hid
  obtain ⟨request,-,rfl⟩ := List.mem_map.mp hc
  cases hid

theorem add_job_answers_iff (backend : Backend) (cfg : CronConfig) (jobs : JobTable)
    (requests : List Request) (ls : List Step) (s : State) (es : List Int)
    (hrun : exec (step backend cfg) (initial jobs requests) ls = some (s, es)) :
    Always (step backend cfg) Answered (initial jobs requests) ls ↔
      Meets (step backend cfg) TakesItsOwn (initial jobs requests) ls := by
  have hkept : ∀ s l r, True → step backend cfg s l = some r → True := fun _ _ _ _ _ => trivial
  have hiff : ∀ s l r, True → Answered s → step backend cfg s l = some r →
      (Answered r.1 ↔ TakesItsOwn s l) := fun _ _ _ _ h hstep => answered_step_iff h hstep
  exact always_iff_meets_of_exec hkept hiff trivial (answered_initial jobs requests) hrun

def noJobs : JobTable where
  rows := []
  names := List.nodup_nil
  ids := List.nodup_nil

def everyMinute : CronConfig where
  tables := Unicode.basic
  croniter := some fun _ now => .time (now + 60)

def hourly : Request := ⟨"checks".toList, "0 * * * *".toList, "health_check".toList, none, true, none⟩

def daily : Request := ⟨"checks".toList, "0 0 * * *".toList, "health_check".toList, none, true, none⟩

def oneAfterTheOther : List Step := [.precheck 0 0 true, .transact 0 1 true, .precheck 1 1 true]

theorem second_call_answered :
    ∃ s es, exec (step .sqlite everyMinute) (initial noJobs [hourly, hourly]) oneAfterTheOther =
        some (s, es) ∧
      Always (step .sqlite everyMinute) Answered (initial noJobs [hourly, hourly]) oneAfterTheOther := by
  refine ⟨_, _, rfl, (add_job_answers_iff .sqlite everyMinute noJobs [hourly, hourly] oneAfterTheOther
    _ _ rfl).mpr ?_⟩
  refine ⟨?_, fun _ h₀ => ⟨?_, fun _ h₁ => ⟨?_, fun _ _ => trivial⟩⟩⟩
  · rintro c hc - row htakes
    cases hc
    cases htakes.1
  · rintro c hc row htakes
    cases h₀
    cases hc
    cases htakes.1
  · rintro c hc - row htakes -
    cases h₀
    cases h₁
    cases hc
    cases htakes.1
    exact ⟨rfl, rfl, rfl, rfl, _, rfl, fun _ => rfl⟩

def bothInsert : List Step := [.precheck 0 0 true, .precheck 1 0 true, .transact 0 1 true, .transact 1 2 true]

def bothInsertPostgres : List Step :=
  [.precheck 0 0 true, .precheck 1 0 true, .select 0 true, .select 1 true, .insert 0 1 true,
   .insert 1 2 true, .fallback 1 true]

theorem loser_gets_another_job :
    (∃ s es, exec (step .sqlite everyMinute) (initial noJobs [hourly, daily]) bothInsert = some (s, es) ∧
      ¬ Answered s) ∧
    (∃ s es, exec (step .postgres everyMinute) (initial noJobs [hourly, daily]) bothInsertPostgres =
      some (s, es) ∧ ¬ Answered s) := by
  refine ⟨⟨_, _, rfl, ?_⟩, ⟨_, _, rfl, ?_⟩⟩
  · intro h
    obtain ⟨row,hrow,-,hmatch⟩ := h ⟨daily, .returned 1⟩ (.tail _ (.head _)) 1 rfl
    cases List.mem_singleton.mp hrow
    exact absurd hmatch.cron (by decide)
  · intro h
    obtain ⟨row,hrow,-,hmatch⟩ := h ⟨daily, .returned 1⟩ (.tail _ (.head _)) 1 rfl
    cases List.mem_singleton.mp hrow
    exact absurd hmatch.cron (by decide)

end PicoSentry.Serve.JobCreation
