import PicoSentry.Foundation.Backtrack
import PicoSentry.Foundation.CharTables
import PicoSentry.Foundation.Dict
import PicoSentry.Foundation.FirstOf

namespace PicoSentry.Sandbox.FileEvents

open Foundation

structure SandboxEvent where
  operation : Str
  detail : Str
  path : Str := []
  deriving DecidableEq

-- The extraction leaves the other fields of an operation at their defaults.
structure FileOperation where
  path : Str
  operation : Str
  mode : Str := []
  deriving DecidableEq

def fileOps : List Str :=
  ["file_write_indicator".toList, "file_write_bytes".toList, "file_save".toList, "file_export".toList,
    "file_read".toList, "file_create".toList, "file_delete".toList, "file_chmod".toList, "file_chown".toList]

def fileOpMap : Dict Str Str :=
  [("file_read".toList, "read".toList), ("file_save".toList, "create".toList), ("file_export".toList, "create".toList),
    ("file_create".toList, "create".toList), ("file_delete".toList, "delete".toList),
    ("file_chmod".toList, "chmod".toList), ("file_chown".toList, "chown".toList)]

section Mode

-- The characters that \w and \s match and that str.strip removes.
variable (T : CharTables)

def octal (c : Char) : Bool := '0' ≤ c ∧ c ≤ '7'

def asciiLetter (c : Char) : Bool := ('a' ≤ c ∧ c ≤ 'z') ∨ ('A' ≤ c ∧ c ≤ 'Z')

def letters : Str := "abcdefghijklmnopqrstuvwxyz".toList

-- Under IGNORECASE the class of letters takes in the letters outside ASCII that fold to one of them.
def foldedLetter (c : Char) : Bool := letters.any fun l => T.sameIgnoringCase l c

def modeToken (letter : Char → Bool) : Re :=
  .alt (.run octal 3 (some 4)) (.seq (.one '+') (.run letter 1 none))

def chmodHead : Re := .all [.boundary, .text "chmod".toList, .run T.space 1 none]

def modeHead : Re :=
  .all [.boundary, .all ("mode".toList.map fun c => .chars (T.sameIgnoringCase c)), .run T.space 0 none,
    .chars fun c => c = '=' ∨ c = ':', .run T.space 0 none]

-- What a token behind a head captures at a place; a word boundary has to follow it.
def capture (head token : Re) (place : Re.Place) : Option Str :=
  ((head.ways T.word place).flatMap fun start =>
    ((Re.seq token .boundary).ways T.word start).map fun stop =>
      start.2.take (start.2.length - stop.2.length)).head?

def searchGroup (head token : Re) : Bool → Str → Option Str
  | _, [] => none
  | before, c :: rest => (capture T head token (before, c :: rest)).or (searchGroup head token (T.word c) rest)

def extractChmodMode (detail : Str) : Str :=
  if detail = [] then []
  else
    let text := T.strip detail
    match searchGroup T (chmodHead T) (modeToken asciiLetter) false text with
    | some mode => mode
    | none =>
      match searchGroup T (modeHead T) (modeToken (foldedLetter T)) false text with
      | some mode => mode
      | none => if text.all octal && (text.length = 3 || text.length = 4) then text else []

example : extractChmodMode .basic "chmod 4755 /usr/bin/sudo".toList = "4755".toList := by decide +kernel

example : extractChmodMode .basic "chmod performed, Mode: +xs".toList = "+xs".toList := by decide +kernel

example : extractChmodMode .basic "chmod 47555".toList = [] := by decide +kernel

end Mode

section Extract

variable (T : CharTables)

def opType (ev : SandboxEvent) : Str := (fileOpMap.get? ev.operation).getD "write".toList

def modeOf (ev : SandboxEvent) : Str := if opType ev = "chmod".toList then extractChmodMode T ev.detail else []

def ignored (ev : SandboxEvent) : Bool := ev.operation ∉ fileOps ∨ ev.path = []

def extractFrom (seen : List Str) : List SandboxEvent → List FileOperation
  | [] => []
  | ev :: events =>
    if ignored ev then extractFrom seen events
    else
      let path := T.strip ev.path
      if path ∈ seen ∨ "/dev/".toList <+: path then extractFrom seen events
      else
        { path := path, operation := opType ev, mode := modeOf T ev } :: extractFrom (seen ++ [path]) events

def extractFsFromEvents (events : List SandboxEvent) : List FileOperation := extractFrom T [] events

end Extract

section Deduplication

variable (T : CharTables)

def Touches (ev : SandboxEvent) : Prop := ignored ev = false ∧ ¬"/dev/".toList <+: T.strip ev.path

instance (ev : SandboxEvent) : Decidable (Touches T ev) := inferInstanceAs (Decidable (_ ∧ _))

def entry (ev : SandboxEvent) : FileOperation := { path := T.strip ev.path, operation := opType ev, mode := modeOf T ev }

def OneOperationPerPath (events : List SandboxEvent) : Prop :=
  ∀ ev ∈ events, ∀ ev' ∈ events, Touches T ev → Touches T ev' → T.strip ev.path = T.strip ev'.path →
    opType ev = opType ev' ∧ modeOf T ev = modeOf T ev'

variable {T} {events : List SandboxEvent}

theorem extractFrom_eq_firstOf (seen : List Str) :
    extractFrom T seen events = firstOf FileOperation.path seen ((events.filter (Touches T ·)).map (entry T)) := by
  induction events generalizing seen with
  | nil => rfl
  | cons ev events ih =>
    rw [extractFrom, List.filter_cons]
    split
    · next hignored =>
      have hnot : ¬Touches T ev := fun h => Bool.eq_false_iff.mp h.1 hignored
      rw [if_neg (mt of_decide_eq_true hnot), ih]
    · next hignored =>
      dsimp only
      by_cases hdev : "/dev/".toList <+: T.strip ev.path
      · have hnot : ¬Touches T ev := fun h => h.2 hdev
        rw [if_pos (.inr hdev), if_neg (mt of_decide_eq_true hnot), ih]
      · have htouches : decide (Touches T ev) = true := decide_eq_true ⟨Bool.eq_false_iff.mpr hignored, hdev⟩
        rw [if_pos htouches, List.map_cons, firstOf]
        have hpath : (entry T ev).path = T.strip ev.path := rfl
        rw [hpath]
        by_cases hseen : T.strip ev.path ∈ seen
        · rw [if_pos (.inl hseen), if_pos hseen, ih]
        · rw [if_neg (not_or.mpr ⟨hseen, hdev⟩), if_neg hseen, ih]
          rfl

theorem first_of_agree {op : FileOperation} {ops : List FileOperation} (hmem : op ∈ ops)
    (hagree : ∀ op' ∈ ops, op'.path = op.path → op' = op) : First FileOperation.path op ops := by
  induction ops with
  | nil => cases hmem
  | cons op' ops ih =>
    rw [first_cons]
    by_cases hpath : op'.path = op.path
    · exact .inl (hagree op' List.mem_cons_self hpath).symm
    · refine .inr ⟨hpath, ih ?_ fun op'' h => hagree op'' (List.mem_cons_of_mem _ h)⟩
      exact (List.mem_cons.mp hmem).resolve_left fun h => hpath (h ▸ rfl)

theorem eq_of_first {op op' : FileOperation} {ops : List FileOperation} (h : First FileOperation.path op ops)
    (h' : First FileOperation.path op' ops) (hpath : op.path = op'.path) : op = op' := by
  induction ops with
  | nil => cases h.mem
  | cons op'' ops ih =>
    rcases first_cons.mp h with rfl | ⟨hne,hrest⟩
    · rcases first_cons.mp h' with rfl | ⟨hne',-⟩
      · rfl
      · exact absurd hpath hne'
    · rcases first_cons.mp h' with rfl | ⟨-,hrest'⟩
      · exact absurd hpath.symm hne
      · exact ih hrest hrest'

theorem mem_extract_iff {op : FileOperation} : op ∈ extractFsFromEvents T events ↔
    First FileOperation.path op ((events.filter (Touches T ·)).map (entry T)) := by
  rw [extractFsFromEvents, extractFrom_eq_firstOf, mem_firstOf_iff, and_iff_right List.not_mem_nil]

theorem mem_entries_iff {op : FileOperation} : op ∈ (events.filter (Touches T ·)).map (entry T) ↔
    ∃ ev ∈ events, Touches T ev ∧ entry T ev = op := by
  simp only [List.mem_map, List.mem_filter, decide_eq_true_eq, and_assoc]

theorem oneOperationPerPath_iff : OneOperationPerPath T events ↔
    ∀ op ∈ (events.filter (Touches T ·)).map (entry T), ∀ op' ∈ (events.filter (Touches T ·)).map (entry T),
      op'.path = op.path → op' = op := by
  simp only [mem_entries_iff]
  constructor
  · rintro h op ⟨ev,hmem,htouches,rfl⟩ op' ⟨ev',hmem',htouches',rfl⟩ hpath
    obtain ⟨hop,hmode⟩ := h ev' hmem' ev hmem htouches' htouches hpath
    exact FileOperation.mk.injEq .. ▸ ⟨hpath, hop, hmode⟩
  · intro h ev hmem ev' hmem' htouches htouches' hpath
    have heq := h _ ⟨ev', hmem', htouches', rfl⟩ _ ⟨ev, hmem, htouches, rfl⟩ hpath
    exact ⟨congrArg FileOperation.operation heq, congrArg FileOperation.mode heq⟩

theorem no_operation_lost_iff (T : CharTables) (events : List SandboxEvent) :
    (∀ op, op ∈ extractFsFromEvents T events ↔ ∃ ev ∈ events, Touches T ev ∧ entry T ev = op) ↔
      OneOperationPerPath T events := by
  simp only [mem_extract_iff, ← mem_entries_iff, oneOperationPerPath_iff]
  constructor
  · intro h op hmem op' hmem' hpath
    exact eq_of_first ((h op').mpr hmem') ((h op).mpr hmem) hpath
  · intro h op
    exact ⟨First.mem, fun hmem => first_of_agree hmem fun op' hmem' => h op hmem op' hmem'⟩

-- A read of the file before hides that it is made setuid.
theorem setuid_chmod_lost :
    extractFsFromEvents .basic
        [{ operation := "file_read".toList, detail := "open".toList, path := "/tmp/sh".toList },
          { operation := "file_chmod".toList, detail := "chmod 4755 /tmp/sh".toList, path := "/tmp/sh".toList }] =
      [{ path := "/tmp/sh".toList, operation := "read".toList }] ∧
    extractFsFromEvents .basic
        [{ operation := "file_chmod".toList, detail := "chmod 4755 /tmp/sh".toList, path := "/tmp/sh".toList }] =
      [{ path := "/tmp/sh".toList, operation := "chmod".toList, mode := "4755".toList }] := by
  decide +kernel

end Deduplication

end PicoSentry.Sandbox.FileEvents
