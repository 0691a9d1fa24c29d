import PicoSentry.Foundation.Text

namespace PicoSentry.Sandbox

open Foundation

inductive SyscallAction where
  | allow
  | deny
  | kill
  | trace
  deriving DecidableEq, Repr

def SyscallAction.value : SyscallAction → Str
  | .allow => "allow".toList
  | .deny => "deny".toList
  | .kill => "kill".toList
  | .trace => "trace".toList

-- The test action in (SyscallAction.DENY, SyscallAction.KILL), which every back end makes.
def SyscallAction.denies : SyscallAction → Bool
  | .deny | .kill => true
  | .allow | .trace => false

inductive RuleTarget where
  | fileRead
  | fileWrite
  | fileExec
  | networkOut
  | networkIn
  | networkBind
  | processSpawn
  | processKill
  | dnsQuery
  | signalSend
  | syscallGeneric
  deriving DecidableEq, Repr

def RuleTarget.value : RuleTarget → Str
  | .fileRead => "file_read".toList
  | .fileWrite => "file_write".toList
  | .fileExec => "file_exec".toList
  | .networkOut => "network_out".toList
  | .networkIn => "network_in".toList
  | .networkBind => "network_bind".toList
  | .processSpawn => "process_spawn".toList
  | .processKill => "process_kill".toList
  | .dnsQuery => "dns_query".toList
  | .signalSend => "signal_send".toList
  | .syscallGeneric => "syscall_generic".toList

structure PolicyRule where
  ruleId : Str
  target : RuleTarget
  action : SyscallAction
  paths : List Str := []
  addresses : List Str := []
  syscalls : List Str := []
  description : Str := []
  deriving DecidableEq, Repr

structure Policy where
  name : Str
  version : Str := "1.0".toList
  defaultAction : SyscallAction := .deny
  rules : List PolicyRule := []
  failClosed : Bool := true
  deriving DecidableEq, Repr

def Policy.allows (p : Policy) (t : RuleTarget) : Prop :=
  ∃ r ∈ p.rules, r.target = t ∧ r.action = .allow

def Policy.denies (p : Policy) (t : RuleTarget) : Prop :=
  ∃ r ∈ p.rules, r.target = t ∧ r.action.denies = true

@[simp] theorem denies_allow : SyscallAction.allow.denies = false := rfl

end PicoSentry.Sandbox
