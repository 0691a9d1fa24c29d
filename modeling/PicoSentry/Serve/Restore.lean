import PicoSentry.Foundation.JsonDict
import PicoSentry.Foundation.Directory
import PicoSentry.Foundation.Result

namespace PicoSentry.Serve.Restore

open Foundation

abbrev Bytes := List UInt8

-- The files below a directory, by their paths in it.
abbrev Tree := Dict Str Bytes

inductive Node where
  | file (content : Bytes)
  | dir (tree : Tree)
  deriving DecidableEq

-- The entries of the temporary directory.
abbrev TempDir := Dict Str Node

structure DbFiles where
  db : Option Bytes
  wal : Option Bytes := none
  shm : Option Bytes := none
  deriving DecidableEq

structure Disk where
  files : DbFiles
  logs : Option Tree
  preRestore : Option Bytes := none
  deriving DecidableEq

structure Member where
  name : Str
  isLink : Bool := false
  content : Bytes := []

inductive FsCall where
  | existsBackup
  | statDatabase
  | readBackup
  | makeTemp
  | writeTar
  | openTar
  | extract (member : Nat)
  | existsMeta
  | openMeta
  | existsDatabase
  | unlinkWal
  | unlinkShm
  | copySafety
  | copyDatabase
  | existsLogs
  | existsLogsDir
  | removeLogs
  | copyLogs
  | existsTemp
  | removeTemp
  deriving DecidableEq

-- The calls that fail with an OSError, and what a failing one leaves: how many bytes the copy of the database
-- has written (none: it has not opened the file), the logs that are not yet removed, and those that are
-- already copied (none: not even their directory).
structure Faults where
  fails : FsCall → Bool
  written : Option Nat := none
  remaining : Str → Bool := fun _ => true
  copied : Option (Str → Bool) := none

-- openTar, extract: of tarfile, the latter with the data filter; a TarError is told as an OSError.
-- closePool: what closing the connections of the live pool makes of the files, such as a checkpoint.
structure Environment where
  encryptKey : Str
  decrypt : Bytes → Str → Option Bytes
  openTar : Bytes → Except PyError (List Member)
  extract : TempDir → Member → Except PyError TempDir
  loadJson : Bytes → Option Json
  closePool : DbFiles → DbFiles

structure Backup where
  name : Str
  content : Option Bytes

inductive Unpacked where
  | refused
  | failed (e : PyError)
  | ready

def caught (e : PyError) : Bool := e ∈ [.osError, .valueError, .typeError]

section Unpack

variable (env : Environment) (faults : Faults)

def readTar (backup : Backup) (bytes : Bytes) : Option TempDir × Except Unpacked Bytes :=
  if PosixPath.suffix backup.name = ".enc".toList then
    if env.encryptKey = [] ∨ faults.fails .readBackup then (none, .error .refused)
    else
      match env.decrypt bytes env.encryptKey with
      | none => (none, .error .refused)
      | some tar =>
        if faults.fails .makeTemp then (none, .error (.failed .osError))
        else if faults.fails .writeTar then (some [], .error (.failed .osError))
        else (some [("archive.tar.gz".toList, .file tar)], .ok tar)
  else (none, .ok bytes)

def unsafePath (name : Str) : Bool := "..".toList <+: PosixPath.normpath name ∨ PosixPath.isAbs name

-- The numbering of the members goes on over the ones that are passed over.
def extractAll (temp : Option TempDir) (i : Nat) : List Member → Option TempDir × Unpacked
  | [] => (temp, .ready)
  | member :: members =>
    if unsafePath member.name ∨ member.isLink then extractAll temp (i + 1) members
    else if faults.fails (.extract i) then (temp, .failed .osError)
    else
      match env.extract (temp.getD []) member with
      | .error e => (temp, .failed e)
      | .ok temp' => extractAll (some temp') (i + 1) members

def readMeta (temp : TempDir) : Unpacked :=
  if faults.fails .existsMeta then .failed .osError
  else
    match temp.get? "metadata.json".toList with
    | none => .ready
    | some (.dir _) => .failed .osError
    | some (.file content) =>
      if faults.fails .openMeta then .failed .osError
      else
        match env.loadJson content with
        | none => .failed .valueError
        | some (.obj fields) =>
          if (Dict.get? fields.toList "created".toList).isSome then .ready else .failed .keyError
        | some _ => .failed .typeError

def unpack (backup : Backup) (bytes : Bytes) : Option TempDir × Unpacked :=
  match readTar env faults backup bytes with
  | (temp, .error outcome) => (temp, outcome)
  | (temp, .ok tar) =>
    if faults.fails .openTar then (temp, .failed .osError)
    else
      match env.openTar tar with
      | .error e => (temp, .failed e)
      | .ok members =>
        match extractAll env faults temp 0 members with
        | (temp, .ready) =>
          match readMeta env faults (temp.getD []) with
          | .ready => (temp, if faults.fails .existsDatabase then .failed .osError else .ready)
          | outcome => (temp, outcome)
        | outcome => outcome

end Unpack

section Swap

variable (env : Environment) (faults : Faults)

def swapDatabase (node : Node) (disk : Disk) : Disk × Bool :=
  let closed := env.closePool disk.files
  if faults.fails .unlinkWal then ({ disk with files := closed }, false)
  else if faults.fails .unlinkShm then ({ disk with files := { closed with wal := none } }, false)
  else
    let files := { closed with wal := none, shm := none }
    match files.db with
    | none => ({ disk with files := files }, false)
    | some current =>
      if faults.fails .copySafety then ({ disk with files := files }, false)
      else
        let disk := { disk with files := files, preRestore := some current }
        match node with
        | .dir _ => (disk, false)
        | .file content =>
          if faults.fails .copyDatabase then
            ({ disk with files := { files with db := some ((faults.written.map content.take).getD current) } }, false)
          else ({ disk with files := { files with db := some content } }, true)

def copyLogs (node : Node) (disk : Disk) : Disk × Bool :=
  match node with
  | .file _ => (disk, false)
  | .dir tree =>
    if faults.fails .copyLogs then
      ({ disk with logs := faults.copied.map fun copied => tree.filter fun file => copied file.1 }, false)
    else ({ disk with logs := some tree }, true)

def swapLogs (temp : TempDir) (disk : Disk) : Disk × Bool :=
  if faults.fails .existsLogs then (disk, false)
  else
    match temp.get? "logs".toList with
    | none => (disk, true)
    | some node =>
      if faults.fails .existsLogsDir then (disk, false)
      else
        match disk.logs with
        | none => copyLogs faults node disk
        | some tree =>
          if faults.fails .removeLogs then
            ({ disk with logs := some (tree.filter fun file => faults.remaining file.1) }, false)
          else copyLogs faults node { disk with logs := none }

def swap (temp : TempDir) (disk : Disk) : Disk × Bool :=
  match temp.get? "database.sqlite3".toList with
  | none => swapLogs faults temp disk
  | some node =>
    match swapDatabase env faults node disk with
    | (disk, false) => (disk, false)
    | (disk, true) => swapLogs faults temp disk

-- What the finally block makes of the result.
def finish (temp : Option TempDir) (result : Except PyError Bool) : Except PyError Bool :=
  if faults.fails .existsTemp ∨ temp.isSome ∧ faults.fails .removeTemp then .error .osError else result

def restoreBackup (backup : Backup) (force : Bool) (disk : Disk) : Disk × Except PyError Bool :=
  if faults.fails .existsBackup then (disk, .error .osError)
  else
    match backup.content with
    | none => (disk, .ok false)
    | some bytes =>
      if !force then (disk, if faults.fails .statDatabase then .error .osError else .ok false)
      else
        match unpack env faults backup bytes with
        | (temp, .refused) => (disk, finish faults temp (.ok false))
        | (temp, .failed e) => (disk, finish faults temp (if caught e then .ok false else .error e))
        | (temp, .ready) =>
          let (disk', restored) := swap env faults (temp.getD []) disk
          (disk', finish faults temp (.ok restored))

end Swap

section Breaks

variable (env : Environment) (faults : Faults) (temp : TempDir) (disk : Disk)

def databaseNode : Option Node := temp.get? "database.sqlite3".toList

def logsNode : Option Node := temp.get? "logs".toList

def isDir : Node → Bool
  | .dir _ => true
  | .file _ => false

def databaseCalls : List FsCall := [.unlinkWal, .unlinkShm, .copySafety, .copyDatabase]

def logsCalls : List FsCall := [.existsLogs, .existsLogsDir, .removeLogs, .copyLogs]

def breaks : FsCall → Bool
  | .unlinkWal => (databaseNode temp).isSome && faults.fails .unlinkWal
  | .unlinkShm => (databaseNode temp).isSome && faults.fails .unlinkShm
  | .copySafety => (databaseNode temp).isSome && ((env.closePool disk.files).db.isNone || faults.fails .copySafety)
  | .copyDatabase => (databaseNode temp).any isDir || (databaseNode temp).isSome && faults.fails .copyDatabase
  | .existsLogs => faults.fails .existsLogs
  | .existsLogsDir => (logsNode temp).isSome && faults.fails .existsLogsDir
  | .removeLogs => (logsNode temp).isSome && disk.logs.isSome && faults.fails .removeLogs
  | .copyLogs => (logsNode temp).any (!isDir ·) || (logsNode temp).isSome && faults.fails .copyLogs
  | _ => false

def firstBreak : Option FsCall := (databaseCalls ++ logsCalls).find? (breaks env faults temp disk)

def writtenDatabase : Option Bytes :=
  match databaseNode temp, faults.written with
  | some (.file content), some n => some (content.take n)
  | _, _ => (env.closePool disk.files).db

def copiedLogs : Option Tree :=
  match logsNode temp with
  | some (.dir tree) => faults.copied.map fun copied => tree.filter fun file => copied file.1
  | _ => none

def restoredFiles : DbFiles :=
  match databaseNode temp with
  | some (.file content) => { db := some content }
  | _ => disk.files

def leftAt : FsCall → DbFiles × Option Tree
  | .unlinkWal => (env.closePool disk.files, disk.logs)
  | .unlinkShm => ({ env.closePool disk.files with wal := none }, disk.logs)
  | .copySafety => ({ env.closePool disk.files with wal := none, shm := none }, disk.logs)
  | .copyDatabase => ({ db := writtenDatabase env faults temp disk }, disk.logs)
  | .removeLogs => (restoredFiles temp disk, disk.logs.map fun tree => tree.filter fun file => faults.remaining file.1)
  | .copyLogs => (restoredFiles temp disk, copiedLogs faults temp)
  | _ => (restoredFiles temp disk, disk.logs)

structure Restored (disk' : Disk) : Prop where
  database : ∀ node, databaseNode temp = some node → ∃ content, node = .file content ∧ disk'.files = { db := some content }
  noDatabase : databaseNode temp = none → disk'.files = disk.files
  logs : ∀ node, logsNode temp = some node → ∃ tree, node = .dir tree ∧ disk'.logs = some tree
  noLogs : logsNode temp = none → disk'.logs = disk.logs

end Breaks

section Swapped

variable {env : Environment} {faults : Faults} {temp : TempDir} {disk : Disk} {node : Node} {call : FsCall}

theorem swapDatabase_break (hnode : databaseNode temp = some node)
    (h : databaseCalls.find? (breaks env faults temp disk) = some call) :
    (swapDatabase env faults node disk).2 = false ∧
      ((swapDatabase env faults node disk).1.files, (swapDatabase env faults node disk).1.logs) =
        leftAt env faults temp disk call := by
  simp only [databaseCalls, List.find?_cons, List.find?_nil, breaks, hnode, Option.isSome_some, Bool.true_and,
    Option.any_some] at h
  rw [swapDatabase]
  cases hwal : faults.fails .unlinkWal with
  | true =>
    rw [hwal] at h
    cases h
    exact ⟨rfl, rfl⟩
  | false =>
    rw [hwal] at h
    cases hshm : faults.fails .unlinkShm with
    | true =>
      rw [hshm] at h
      cases h
      exact ⟨rfl, rfl⟩
    | false =>
      rw [hshm] at h
      cases hdb : (env.closePool disk.files).db with
      | none =>
        rw [hdb] at h
        cases h
        simp [leftAt, hdb]
      | some current =>
        rw [hdb] at h
        cases hsafety : faults.fails .copySafety with
        | true =>
          rw [hsafety] at h
          cases h
          simp [leftAt, hdb]
        | false =>
          rw [hsafety] at h
          cases node with
          | dir tree =>
            cases h
            simp [leftAt, writtenDatabase, hnode, hdb]
          | file content =>
            cases hcopy : faults.fails .copyDatabase with
            | false =>
              rw [hcopy] at h
              cases h
            | true =>
              rw [hcopy] at h
              cases h
              cases hwritten : faults.written <;> simp [leftAt, writtenDatabase, hnode, hdb, hwritten]

theorem swapDatabase_done (hnode : databaseNode temp = some node)
    (h : databaseCalls.find? (breaks env faults temp disk) = none) :
    (swapDatabase env faults node disk).2 = true ∧ (swapDatabase env faults node disk).1.logs = disk.logs ∧
      ∃ content, node = .file content ∧ (swapDatabase env faults node disk).1.files = { db := some content } := by
  simp only [List.find?_eq_none, databaseCalls, List.forall_mem_cons, breaks, hnode, Option.isSome_some, Bool.true_and,
    Option.any_some, Bool.not_eq_true, Bool.or_eq_false_iff] at h
  obtain ⟨hwal,hshm,⟨hdb,hsafety⟩,⟨hdir,hcopy⟩,-⟩ := h
  obtain ⟨current,hcurrent⟩ := Option.ne_none_iff_exists'.mp (mt Option.isNone_iff_eq_none.mpr (Bool.eq_false_iff.mp hdb))
  cases node with
  | dir tree => cases hdir
  | file content =>
    have heq : swapDatabase env faults (.file content) disk =
        ({ disk with files := { db := some content }, preRestore := some current }, true) := by
      simp [swapDatabase, hwal, hshm, hcurrent, hsafety, hcopy]
    rw [heq]
    exact ⟨rfl, rfl, content, rfl, rfl⟩

variable {disk₁ : Disk}

theorem copyLogs_break (disk₁ : Disk) (hnode : logsNode temp = some node) (hlogs : disk₁.logs = none)
    (h : (!isDir node || faults.fails .copyLogs) = true) :
    (copyLogs faults node disk₁).2 = false ∧ (copyLogs faults node disk₁).1.files = disk₁.files ∧
      (copyLogs faults node disk₁).1.logs = copiedLogs faults temp := by
  rw [copiedLogs, hnode]
  cases node with
  | file content => exact ⟨rfl, rfl, hlogs⟩
  | dir tree =>
    have hcopy : faults.fails .copyLogs = true := h
    rw [copyLogs, hcopy, if_pos rfl]
    exact ⟨rfl, rfl, rfl⟩

theorem copyLogs_done (disk₁ : Disk) (h : (!isDir node || faults.fails .copyLogs) = false) :
    ∃ tree, node = .dir tree ∧ copyLogs faults node disk₁ = ({ disk₁ with logs := some tree }, true) := by
  cases node with
  | file content => cases h
  | dir tree =>
    have hcopy : faults.fails .copyLogs = false := h
    exact ⟨tree, rfl, by rw [copyLogs, hcopy, if_neg Bool.false_ne_true]⟩

theorem swapLogs_break (hlogs : disk₁.logs = disk.logs)
    (h : logsCalls.find? (breaks env faults temp disk) = some call) :
    (swapLogs faults temp disk₁).2 = false ∧ (swapLogs faults temp disk₁).1.files = disk₁.files ∧
      (restoredFiles temp disk, (swapLogs faults temp disk₁).1.logs) = leftAt env faults temp disk call := by
  simp only [logsCalls, List.find?_cons, List.find?_nil, breaks] at h
  rw [swapLogs]
  cases hexists : faults.fails .existsLogs with
  | true =>
    rw [hexists] at h
    cases h
    exact ⟨rfl, rfl, congrArg _ hlogs⟩
  | false =>
    rw [hexists] at h
    cases hnode : logsNode temp with
    | none =>
      rw [hnode] at h
      cases h
    | some node =>
      have hget : temp.get? "logs".toList = some node := hnode
      rw [hnode] at h
      rw [hget, hlogs]
      cases hdir : faults.fails .existsLogsDir with
      | true =>
        rw [hdir] at h
        cases h
        exact ⟨rfl, rfl, congrArg _ hlogs⟩
      | false =>
        rw [hdir] at h
        -- The copy is the last call, whether or not there have been logs to remove.
        have hlast : ∀ disk₂ : Disk, disk₂.logs = none → disk₂.files = disk₁.files →
            (match !isDir node || faults.fails .copyLogs with
              | true => some FsCall.copyLogs
              | false => none) = some call →
            (copyLogs faults node disk₂).2 = false ∧ (copyLogs faults node disk₂).1.files = disk₁.files ∧
              (restoredFiles temp disk, (copyLogs faults node disk₂).1.logs) = leftAt env faults temp disk call := by
          intro disk₂ hnone hfiles hcall
          cases hcopy : !isDir node || faults.fails .copyLogs with
          | false =>
            rw [hcopy] at hcall
            cases hcall
          | true =>
            rw [hcopy] at hcall
            cases hcall
            obtain ⟨hdone,hkept,hleft⟩ := copyLogs_break disk₂ hnode hnone hcopy
            exact ⟨hdone, hkept.trans hfiles, congrArg _ hleft⟩
        cases htree : disk.logs with
        | none =>
          rw [htree] at h
          exact hlast disk₁ (hlogs.trans htree) rfl h
        | some tree =>
          rw [htree] at h
          cases hremove : faults.fails .removeLogs with
          | true =>
            rw [hremove] at h
            cases h
            refine ⟨rfl, rfl, ?_⟩
            rw [leftAt, htree]
            rfl
          | false =>
            rw [hremove] at h
            exact hlast { disk₁ with logs := none } rfl rfl h

theorem swapLogs_done (hlogs : disk₁.logs = disk.logs) (h : logsCalls.find? (breaks env faults temp disk) = none) :
    (swapLogs faults temp disk₁).2 = true ∧ (swapLogs faults temp disk₁).1.files = disk₁.files ∧
      (∀ node, logsNode temp = some node → ∃ tree, node = .dir tree ∧ (swapLogs faults temp disk₁).1.logs = some tree) ∧
      (logsNode temp = none → (swapLogs faults temp disk₁).1.logs = disk.logs) := by
  simp only [List.find?_eq_none, logsCalls, List.forall_mem_cons, breaks, Bool.not_eq_true] at h
  obtain ⟨hexists,hdir,hremove,hcopy,-⟩ := h
  rw [swapLogs, hexists, if_neg Bool.false_ne_true]
  cases hnode : logsNode temp with
  | none =>
    have hget : temp.get? "logs".toList = none := hnode
    rw [hget]
    exact ⟨rfl, rfl, fun _ h => (by cases h), fun _ => hlogs⟩
  | some node =>
    have hget : temp.get? "logs".toList = some node := hnode
    rw [hnode] at hdir hremove hcopy
    have hdir' : faults.fails .existsLogsDir = false := hdir
    rw [hget, hlogs, hdir']
    dsimp only
    rw [if_neg Bool.false_ne_true]
    cases htree : disk.logs with
    | none =>
      obtain ⟨tree,rfl,hcopied⟩ := copyLogs_done disk₁ hcopy
      dsimp only
      rw [hcopied]
      exact ⟨rfl, rfl, fun _ h => ⟨tree, (Option.some.inj h).symm, rfl⟩, fun h => (by cases h)⟩
    | some old =>
      rw [htree] at hremove
      have hremove' : faults.fails .removeLogs = false := hremove
      obtain ⟨tree,rfl,hcopied⟩ := copyLogs_done { disk₁ with logs := none } hcopy
      dsimp only
      rw [hremove', if_neg Bool.false_ne_true, hcopied]
      exact ⟨rfl, rfl, fun _ h => ⟨tree, (Option.some.inj h).symm, rfl⟩, fun h => (by cases h)⟩

theorem swap_break (h : firstBreak env faults temp disk = some call) :
    (swap env faults temp disk).2 = false ∧
      ((swap env faults temp disk).1.files, (swap env faults temp disk).1.logs) = leftAt env faults temp disk call := by
  rw [firstBreak, List.find?_append, Option.or_eq_some_iff] at h
  rw [swap]
  cases hnode : databaseNode temp with
  | none =>
    have hget : temp.get? "database.sqlite3".toList = none := hnode
    have hcalls : databaseCalls.find? (breaks env faults temp disk) = none := by
      simp [databaseCalls, breaks, hnode]
    have hlogs := h.resolve_left fun h => by cases hcalls.symm.trans h
    obtain ⟨hdone,hfiles,hleft⟩ := swapLogs_break (rfl : disk.logs = disk.logs) hlogs.2
    rw [hget]
    refine ⟨hdone, ?_⟩
    have hrestored : restoredFiles temp disk = disk.files := by rw [restoredFiles, hnode]
    rw [← hleft, hrestored, ← hfiles]
  | some node =>
    have hget : temp.get? "database.sqlite3".toList = some node := hnode
    rw [hget]
    dsimp only
    rcases h with h | ⟨hnone,h⟩
    · obtain ⟨hdone,hleft⟩ := swapDatabase_break hnode h
      generalize swapDatabase env faults node disk = swapped at hdone hleft ⊢
      obtain ⟨disk₁,done⟩ := swapped
      cases hdone
      exact ⟨rfl, hleft⟩
    · obtain ⟨hdone,hkept,content,rfl,hfiles⟩ := swapDatabase_done hnode hnone
      generalize swapDatabase env faults (.file content) disk = swapped at hdone hkept hfiles ⊢
      obtain ⟨disk₁,done⟩ := swapped
      cases hdone
      obtain ⟨hlogs,hfiles',hleft⟩ := swapLogs_break hkept h
      have hrestored : restoredFiles temp disk = { db := some content } := by rw [restoredFiles, hnode]
      refine ⟨hlogs, ?_⟩
      rw [← hleft, hrestored, ← hfiles, ← hfiles']

theorem swap_done (h : firstBreak env faults temp disk = none) :
    (swap env faults temp disk).2 = true ∧ Restored temp disk (swap env faults temp disk).1 := by
  rw [firstBreak, List.find?_append, Option.or_eq_none_iff] at h
  rw [swap]
  cases hnode : databaseNode temp with
  | none =>
    have hget : temp.get? "database.sqlite3".toList = none := hnode
    obtain ⟨hdone,hfiles,hlogs,hkept⟩ := swapLogs_done (rfl : disk.logs = disk.logs) h.2
    rw [hget]
    refine ⟨hdone, fun node h => ?_, fun _ => hfiles, hlogs, hkept⟩
    cases hnode.symm.trans h
  | some node =>
    have hget : temp.get? "database.sqlite3".toList = some node := hnode
    rw [hget]
    dsimp only
    obtain ⟨hdone,hkept,content,rfl,hfiles⟩ := swapDatabase_done hnode h.1
    generalize swapDatabase env faults (.file content) disk = swapped at hdone hkept hfiles ⊢
    obtain ⟨disk₁,done⟩ := swapped
    cases hdone
    obtain ⟨hdone,hfiles',hlogs,hkept'⟩ := swapLogs_done hkept h.2
    refine ⟨hdone, fun node h => ?_, fun h => ?_, hlogs, hkept'⟩
    · cases hnode.symm.trans h
      exact ⟨content, rfl, hfiles'.trans hfiles⟩
    · cases hnode.symm.trans h

end Swapped

section Restore

variable (env : Environment) (faults : Faults) (backup : Backup) (force : Bool) (disk : Disk)

def Cleaned (temp : Option TempDir) : Prop :=
  faults.fails .existsTemp = false ∧ (temp.isSome = true → faults.fails .removeTemp = false)

def ReachesSwap (temp : Option TempDir) : Prop :=
  faults.fails .existsBackup = false ∧ force = true ∧
    ∃ bytes, backup.content = some bytes ∧ unpack env faults backup bytes = (temp, .ready)

variable {env faults backup force disk}

theorem finish_of_cleaned {temp : Option TempDir} {result : Except PyError Bool} (h : Cleaned faults temp) :
    finish faults temp result = result := by
  rw [finish, if_neg]
  rintro (hexists | ⟨hsome,hremove⟩)
  · cases h.1.symm.trans hexists
  · cases (h.2 hsome).symm.trans hremove

theorem finish_of_not_cleaned {temp : Option TempDir} {result : Except PyError Bool} (h : ¬Cleaned faults temp) :
    finish faults temp result = .error .osError := by
  rw [finish, if_pos]
  by_contra hnot
  obtain ⟨hexists,hremove⟩ := not_or.mp hnot
  exact h ⟨Bool.eq_false_iff.mpr hexists, fun hsome => Bool.eq_false_iff.mpr fun hfails => hremove ⟨hsome, hfails⟩⟩

theorem restore_early (h : ∀ temp, ¬ReachesSwap env faults backup force temp) :
    (restoreBackup env faults backup force disk).1 = disk ∧ (restoreBackup env faults backup force disk).2 ≠ .ok true := by
  rw [restoreBackup]
  cases hexists : faults.fails .existsBackup with
  | true => exact ⟨rfl, fun h => (by cases h)⟩
  | false =>
    cases hcontent : backup.content with
    | none => exact ⟨rfl, fun h => (by cases h)⟩
    | some bytes =>
      cases hforce : force with
      | false =>
        refine ⟨rfl, ?_⟩
        cases faults.fails .statDatabase <;> simp
      | true =>
        have hfinish : ∀ temp, ∀ result : Except PyError Bool, result ≠ .ok true →
            finish faults temp result ≠ .ok true := by
          intro temp result hresult
          by_cases hcleaned : Cleaned faults temp
          · rwa [finish_of_cleaned hcleaned]
          · rw [finish_of_not_cleaned hcleaned]
            exact fun h => by cases h
        simp only [Bool.false_eq_true, if_false, Bool.not_true]
        cases hunpack : unpack env faults backup bytes with
        | mk temp outcome =>
          cases outcome with
          | refused => exact ⟨rfl, hfinish temp _ fun h => (by cases h)⟩
          | failed e =>
            refine ⟨rfl, hfinish temp _ ?_⟩
            split <;> exact fun h => (by cases h)
          | ready => exact absurd ⟨hexists, hforce, bytes, hcontent, hunpack⟩ (h temp)

theorem restore_swap {temp : Option TempDir} (h : ReachesSwap env faults backup force temp) :
    restoreBackup env faults backup force disk = ((swap env faults (temp.getD []) disk).1,
      finish faults temp (.ok (swap env faults (temp.getD []) disk).2)) := by
  obtain ⟨hexists,rfl,bytes,hcontent,hunpack⟩ := h
  rw [restoreBackup, hexists, hcontent]
  dsimp only
  rw [hunpack]
  rfl

theorem ReachesSwap.eq {temp temp' : Option TempDir} (h : ReachesSwap env faults backup force temp)
    (h' : ReachesSwap env faults backup force temp') : temp = temp' := by
  obtain ⟨-,-,bytes,hcontent,hunpack⟩ := h
  obtain ⟨-,-,bytes',hcontent',hunpack'⟩ := h'
  cases hcontent.symm.trans hcontent'
  exact congrArg Prod.fst (hunpack.symm.trans hunpack')

variable (env faults backup force disk)

def Atomic : Prop :=
  ((restoreBackup env faults backup force disk).2 = .ok false →
    (restoreBackup env faults backup force disk).1.files = disk.files ∧
    (restoreBackup env faults backup force disk).1.logs = disk.logs) ∧
  ((restoreBackup env faults backup force disk).2 = .ok true → ∃ temp, ReachesSwap env faults backup force temp ∧
    Restored (temp.getD []) disk (restoreBackup env faults backup force disk).1)

theorem restore_atomic_iff : Atomic env faults backup force disk ↔
    ∀ temp, ReachesSwap env faults backup force temp → Cleaned faults temp →
      ∀ call, firstBreak env faults (temp.getD []) disk = some call →
        leftAt env faults (temp.getD []) disk call = (disk.files, disk.logs) := by
  by_cases hreaches : ∃ temp, ReachesSwap env faults backup force temp
  · obtain ⟨temp,htemp⟩ := hreaches
    rw [Atomic, restore_swap htemp]
    by_cases hcleaned : Cleaned faults temp
    · rw [finish_of_cleaned hcleaned]
      cases hbreak : firstBreak env faults (temp.getD []) disk with
      | none =>
        obtain ⟨hdone,hrestored⟩ := swap_done hbreak
        rw [hdone]
        refine iff_of_true ⟨fun h => (by cases h), fun _ => ⟨temp, htemp, hrestored⟩⟩ ?_
        intro temp' htemp' _ call hcall
        cases htemp.eq htemp'
        cases hbreak.symm.trans hcall
      | some call =>
        obtain ⟨hdone,hleft⟩ := swap_break hbreak
        rw [hdone]
        constructor
        · rintro ⟨hfalse,-⟩ temp' htemp' _ call' hcall'
          cases htemp.eq htemp'
          cases hbreak.symm.trans hcall'
          obtain ⟨hfiles,hlogs⟩ := hfalse rfl
          rw [← hleft, hfiles, hlogs]
        · intro h
          have heq := hleft.trans (h temp htemp hcleaned call hbreak)
          exact ⟨fun _ => ⟨congrArg Prod.fst heq, congrArg Prod.snd heq⟩, fun h => (by cases h)⟩
    · rw [finish_of_not_cleaned hcleaned]
      refine iff_of_true ⟨fun h => (by cases h), fun h => (by cases h)⟩ fun temp' htemp' hcleaned' => ?_
      cases htemp.eq htemp'
      exact absurd hcleaned' hcleaned
  · have hnone : ∀ temp, ¬ReachesSwap env faults backup force temp := fun temp h => hreaches ⟨temp, h⟩
    obtain ⟨hdisk,hnot⟩ := @restore_early env faults backup force disk hnone
    rw [Atomic, hdisk]
    exact iff_of_true ⟨fun _ => ⟨rfl, rfl⟩, fun h => absurd h hnot⟩ fun temp htemp => absurd htemp (hnone temp)

def plainEnvironment : Environment where
  encryptKey := []
  decrypt _ _ := none
  openTar bytes := .ok [{ name := "database.sqlite3".toList, content := bytes }]
  extract temp member := .ok (temp.set member.name (.file member.content))
  loadJson _ := none
  closePool := id

-- The write-ahead log is gone although the restore returns False: only the safety copy has failed.
theorem wal_lost_in_failed_restore :
    ¬Atomic plainEnvironment { fails := fun call => call = .copySafety }
      { name := "nightly.tar.gz".toList, content := some [7] } true
      { files := { db := some [1], wal := some [2] }, logs := none } := by
  have hrestore : restoreBackup plainEnvironment { fails := fun call => call = .copySafety }
      { name := "nightly.tar.gz".toList, content := some [7] } true
      { files := { db := some [1], wal := some [2] }, logs := none } =
      ({ files := { db := some [1] }, logs := none }, .ok false) := by decide +kernel
  rintro ⟨hfalse,-⟩
  rw [hrestore] at hfalse
  cases (hfalse rfl).1

end Restore

end PicoSentry.Serve.Restore
