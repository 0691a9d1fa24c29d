import Mathlib.Data.List.Nodup
import PicoSentry.Foundation.Dict
import PicoSentry.Sandbox.Policy

namespace PicoSentry.Sandbox.Seccomp

open Foundation

def scmpActKillProcess : Nat := 0x80000000
def scmpActAllow : Nat := 0x7FFF0000

def networkSyscalls : List String :=
  ["connect", "accept", "accept4", "bind", "listen", "sendto", "sendmsg", "sendmmsg", "recvfrom",
   "recvmsg", "recvmmsg", "socket", "socketpair", "getsockname", "getpeername", "setsockopt",
   "getsockopt", "shutdown"]

def fsWriteSyscalls : List String :=
  ["write", "writev", "pwrite64", "pwritev", "pwritev2", "open", "openat", "creat", "mkdir",
   "mkdirat", "rmdir", "unlink", "unlinkat", "rename", "renameat", "renameat2", "link", "linkat",
   "symlink", "symlinkat", "chmod", "fchmod", "fchmodat", "chown", "fchown", "lchown", "fchownat",
   "truncate", "ftruncate", "fallocate", "mknod", "mknodat", "mount", "umount", "umount2"]

def fsReadSyscalls : List String :=
  ["read", "readv", "pread64", "preadv", "preadv2", "stat", "lstat", "fstat", "newfstatat",
   "getdents", "getdents64", "readlink", "readlinkat", "access", "faccessat", "faccessat2"]

def processSyscalls : List String :=
  ["execve", "execveat", "fork", "vfork", "clone", "clone3", "wait4", "waitid", "waitpid", "kill",
   "setsid", "sigprocmask", "close_range"]

def safeSyscalls : List String :=
  ["read", "readv", "pread64", "preadv", "preadv2", "write", "writev", "pwrite64", "open",
   "openat", "close", "stat", "lstat", "fstat", "newfstatat", "statfs", "fstatfs", "access",
   "faccessat", "faccessat2", "readlink", "readlinkat", "getcwd", "getdents64", "mmap",
   "mprotect", "munmap", "brk", "mremap", "madvise", "execve", "execveat", "exit", "exit_group",
   "getpid", "gettid", "getuid", "getgid", "geteuid", "getegid", "getgroups", "rt_sigaction",
   "rt_sigprocmask", "rt_sigreturn", "sigaltstack", "tgkill", "tkill", "restart_syscall", "futex",
   "set_robust_list", "get_robust_list", "set_tid_address", "rseq", "membarrier", "fcntl",
   "ioctl", "dup", "dup2", "dup3", "pipe2", "lseek", "clock_gettime", "clock_nanosleep",
   "nanosleep", "gettimeofday", "time", "setitimer", "getitimer", "poll", "ppoll", "select",
   "pselect6", "epoll_create1", "epoll_ctl", "epoll_pwait", "eventfd2", "arch_prctl", "prlimit64",
   "getrandom", "getrusage", "getrlimit", "uname", "sysinfo", "sched_yield", "sched_getaffinity",
   "capget", "capset", "wait4", "waitid", "waitpid", "close_range", "kill", "setsid",
   "sigprocmask", "statx", "getppid", "umask", "sched_getparam", "sched_getscheduler",
   "fadvise64", "fsync"]

def targetToSyscalls : RuleTarget → List String
  | .fileRead => fsReadSyscalls
  | .fileWrite => fsWriteSyscalls
  | .fileExec => ["execve", "execveat"]
  | .networkOut => networkSyscalls
  | .networkIn => networkSyscalls
  | .networkBind => ["bind", "listen", "accept", "accept4"]
  | .processSpawn => processSyscalls
  | .processKill => ["kill", "tkill", "tgkill"]
  | .dnsQuery => []
  | .signalSend => ["kill", "tkill", "tgkill", "rt_sigqueueinfo", "pidfd_send_signal"]
  | .syscallGeneric => []

def launchSyscalls : List String := ["execve", "execveat"]

-- What libseccomp keeps of a filter: its default action and one action for a syscall number.
structure FilterCtx where
  default : Nat
  rules : Dict Int Nat
  deriving DecidableEq, Repr

def FilterCtx.action (ctx : FilterCtx) (num : Int) : Nat := (ctx.rules.get? num).getD ctx.default

def eaccess : Int := -13
def einval : Int := -22
def eexist : Int := -17

def seccompRuleAdd (ctx : FilterCtx) (action : Nat) (num : Int) : Int × FilterCtx :=
  if action = ctx.default then (eaccess, ctx)
  else match ctx.rules.get? num with
    | some recorded =>
      if recorded = action then (0, { ctx with rules := ctx.rules.set num action })
      else (eexist, ctx)
    | none => (0, { ctx with rules := ctx.rules.set num action })

-- seccompInit says whether seccomp_init gives a context; a name the architecture lacks resolves
-- to a negative number, and two names never share a syscall.
structure Libseccomp where
  seccompInit : Bool
  resolveName : String → Int
  resolveName_inj : ∀ a b, 0 ≤ resolveName a → resolveName a = resolveName b → a = b

-- A set of names is walked in an order the interpreter chooses.
structure SetOrder where
  walk : List String → List String
  walk_perm : ∀ names, (walk names).Perm names

def addRuleSafely (ctx : FilterCtx) (action : Nat) (num : Int) : Bool × FilterCtx :=
  let (ret, ctx') := seccompRuleAdd ctx action num
  if ret = 0 then (true, ctx')
  else if ret = eaccess then (false, ctx')
  else if ret = einval then (true, ctx')
  else (true, ctx')

section

variable (lib : Libseccomp) (order : SetOrder)

def explicitlyBlocked (policy : Policy) : List String :=
  (policy.rules.foldl (fun names rule =>
      if rule.action.denies then names ∪ targetToSyscalls rule.target else names) []).filter
    (· ∉ launchSyscalls)

def allowName (ctx : FilterCtx) (name : String) : FilterCtx :=
  if 0 ≤ lib.resolveName name then
    (addRuleSafely ctx scmpActAllow (lib.resolveName name)).2
  else ctx

def blockName (default : Nat) (st : FilterCtx × List String) (name : String) :
    FilterCtx × List String :=
  if name ∈ launchSyscalls then st
  else if 0 ≤ lib.resolveName name then
    let (added, ctx) := addRuleSafely st.1 scmpActKillProcess (lib.resolveName name)
    (ctx, if added = true ∨ default = scmpActKillProcess then st.2.insert name else st.2)
  else st

def addRule (default : Nat) (st : FilterCtx × List String) (rule : PolicyRule) :
    FilterCtx × List String :=
  let syscalls := order.walk (targetToSyscalls rule.target)
  if rule.action = .allow then (syscalls.foldl (allowName lib) st.1, st.2)
  else if rule.action.denies then syscalls.foldl (blockName lib default) st
  else st

def defaultAction (policy : Policy) : Nat :=
  if policy.defaultAction.denies then scmpActKillProcess else scmpActAllow

def baseline (policy : Policy) : FilterCtx :=
  (order.walk (safeSyscalls.filter (· ∉ explicitlyBlocked policy))).foldl (allowName lib)
    { default := defaultAction policy, rules := [] }

def buildFilter (policy : Policy) : Option FilterCtx × List String :=
  if lib.seccompInit then
    let st := policy.rules.foldl (addRule lib order (defaultAction policy))
      (baseline lib order policy, [])
    (some st.1, st.2)
  else (none, [])

end

section

variable (lib : Libseccomp) (order : SetOrder)

theorem mem_explicitlyBlocked {policy : Policy} {name : String} :
    name ∈ explicitlyBlocked policy ↔
      name ∉ launchSyscalls ∧ ∃ t, policy.denies t ∧ name ∈ targetToSyscalls t := by
  have hfold : ∀ (rules : List PolicyRule) (names : List String),
      name ∈ rules.foldl (fun names rule =>
          if rule.action.denies then names ∪ targetToSyscalls rule.target else names) names ↔
        name ∈ names ∨ ∃ r ∈ rules, r.action.denies = true ∧ name ∈ targetToSyscalls r.target := by
    intro rules
    induction rules with
    | nil => simp
    | cons rule rules ih =>
      intro names
      rw [List.foldl_cons, ih]
      cases h : rule.action.denies with
      | false => simp [h]
      | true => simp [h, or_assoc]
  rw [explicitlyBlocked, List.mem_filter, hfold]
  simp only [List.not_mem_nil, false_or, decide_eq_true_eq, Policy.denies]
  constructor
  · rintro ⟨⟨r,hr,hd,hn⟩,hl⟩
    exact ⟨hl,r.target,⟨r,hr,rfl,hd⟩,hn⟩
  · rintro ⟨hl,t,⟨r,hr,rfl,hd⟩,hn⟩
    exact ⟨⟨r,hr,hd,hn⟩,hl⟩

structure Uniform (default act : Nat) (ctx : FilterCtx) : Prop where
  default_eq : ctx.default = default
  ne_default : act ≠ default
  recorded : ∀ num a, ctx.rules.get? num = some a → a = act

theorem addRuleSafely_default {default act : Nat} {ctx : FilterCtx} (h : Uniform default act ctx)
    (num : Int) : addRuleSafely ctx default num = (false, ctx) := by
  rw [← h.default_eq]
  simp [addRuleSafely, seccompRuleAdd, eaccess]

theorem addRuleSafely_other {default act : Nat} {ctx : FilterCtx} (h : Uniform default act ctx)
    (num : Int) :
    addRuleSafely ctx act num = (true, { ctx with rules := ctx.rules.set num act }) := by
  have hne : act ≠ ctx.default := h.default_eq ▸ h.ne_default
  have hadd : seccompRuleAdd ctx act num = (0, { ctx with rules := ctx.rules.set num act }) := by
    rw [seccompRuleAdd, if_neg hne]
    cases hget : ctx.rules.get? num with
    | none => rfl
    | some a => simp [h.recorded num a hget]
  simp [addRuleSafely, hadd]

theorem Uniform.set {default act : Nat} {ctx : FilterCtx} (h : Uniform default act ctx)
    (num : Int) : Uniform default act { ctx with rules := ctx.rules.set num act } := by
  refine ⟨h.default_eq,h.ne_default,?_⟩
  intro n a hget
  rw [Dict.get?_set] at hget
  split at hget
  · exact (Option.some.inj hget).symm
  · exact h.recorded n a hget

def Recorded (lib : Libseccomp) (ctx : FilterCtx) (name : String) : Prop :=
  (ctx.rules.get? (lib.resolveName name)).isSome = true

theorem action_of_recorded {default act : Nat} {ctx : FilterCtx} (h : Uniform default act ctx)
    {name : String} (hr : Recorded lib ctx name) : ctx.action (lib.resolveName name) = act := by
  obtain ⟨a,ha⟩ := Option.isSome_iff_exists.mp hr
  rw [FilterCtx.action, ha, Option.getD_some, h.recorded _ a ha]

theorem action_of_not_recorded {default act : Nat} {ctx : FilterCtx}
    (h : Uniform default act ctx) {name : String} (hr : ¬Recorded lib ctx name) :
    ctx.action (lib.resolveName name) = default := by
  rw [Recorded, Bool.not_eq_true, Option.isSome_eq_false_iff, Option.isNone_iff_eq_none] at hr
  rw [FilterCtx.action, hr, Option.getD_none, h.default_eq]

theorem recorded_set {ctx : FilterCtx} {act : Nat} {name n : String}
    (hn : 0 ≤ lib.resolveName n) :
    Recorded lib { ctx with rules := ctx.rules.set (lib.resolveName name) act } n ↔
      Recorded lib ctx n ∨ n = name := by
  rw [Recorded, Dict.get?_set]
  by_cases h : lib.resolveName name = lib.resolveName n
  · simp [lib.resolveName_inj n name hn h.symm]
  · have hne : n ≠ name := fun heq => h (heq ▸ rfl)
    simp [h, hne, Recorded]

theorem allowName_killing {ctx : FilterCtx} (h : Uniform scmpActKillProcess scmpActAllow ctx)
    (name : String) :
    Uniform scmpActKillProcess scmpActAllow (allowName lib ctx name) ∧
      ∀ n, 0 ≤ lib.resolveName n →
        (Recorded lib (allowName lib ctx name) n ↔ Recorded lib ctx n ∨ n = name) := by
  rw [allowName]
  split
  · rw [addRuleSafely_other h]
    exact ⟨h.set _,fun n hn => recorded_set lib hn⟩
  · next hr =>
    refine ⟨h,fun n hn => ⟨.inl,?_⟩⟩
    rintro (hrec | rfl)
    · exact hrec
    · exact absurd hn hr

theorem allowNames_killing {ctx : FilterCtx} (h : Uniform scmpActKillProcess scmpActAllow ctx)
    (names : List String) :
    Uniform scmpActKillProcess scmpActAllow (names.foldl (allowName lib) ctx) ∧
      ∀ n, 0 ≤ lib.resolveName n →
        (Recorded lib (names.foldl (allowName lib) ctx) n ↔ Recorded lib ctx n ∨ n ∈ names) := by
  induction names generalizing ctx with
  | nil => simpa using h
  | cons name names ih =>
    obtain ⟨hu,hrec⟩ := allowName_killing lib h name
    obtain ⟨hu',hrec'⟩ := ih hu
    refine ⟨hu',fun n hn => ?_⟩
    rw [List.foldl_cons, hrec' n hn, hrec n hn, List.mem_cons, or_assoc]

theorem blockName_killing {st : FilterCtx × List String}
    (h : Uniform scmpActKillProcess scmpActAllow st.1) (name : String) :
    (blockName lib scmpActKillProcess st name).1 = st.1 := by
  rw [blockName]
  split
  · rfl
  · split
    · rw [addRuleSafely_default h]
    · rfl

theorem blockNames_killing {st : FilterCtx × List String}
    (h : Uniform scmpActKillProcess scmpActAllow st.1) (names : List String) :
    (names.foldl (blockName lib scmpActKillProcess) st).1 = st.1 := by
  induction names generalizing st with
  | nil => rfl
  | cons name names ih =>
    have hst := blockName_killing lib h name
    rw [List.foldl_cons, ih (hst ▸ h), hst]

theorem allowNames_allowing {ctx : FilterCtx} (h : Uniform scmpActAllow scmpActKillProcess ctx)
    (names : List String) : names.foldl (allowName lib) ctx = ctx := by
  induction names with
  | nil => rfl
  | cons name names ih =>
    have hname : allowName lib ctx name = ctx := by
      rw [allowName, addRuleSafely_default h, ite_self]
    rw [List.foldl_cons, hname, ih]

theorem blockName_allowing {st : FilterCtx × List String}
    (h : Uniform scmpActAllow scmpActKillProcess st.1) (name : String) :
    Uniform scmpActAllow scmpActKillProcess (blockName lib scmpActAllow st name).1 ∧
      ∀ n, 0 ≤ lib.resolveName n →
        (Recorded lib (blockName lib scmpActAllow st name).1 n ↔
          Recorded lib st.1 n ∨ n = name ∧ n ∉ launchSyscalls) := by
  rw [blockName]
  split
  · next hl =>
    refine ⟨h,fun n hn => ⟨.inl,?_⟩⟩
    rintro (hrec | ⟨rfl,hl'⟩)
    · exact hrec
    · exact absurd hl hl'
  · next hl =>
    split
    · rw [addRuleSafely_other h]
      refine ⟨h.set _,fun n hn => (recorded_set lib hn).trans (or_congr_right ?_)⟩
      exact ⟨fun heq => ⟨heq,heq ▸ hl⟩,And.left⟩
    · next hr =>
      refine ⟨h,fun n hn => ⟨.inl,?_⟩⟩
      rintro (hrec | ⟨rfl,-⟩)
      · exact hrec
      · exact absurd hn hr

theorem blockNames_allowing {st : FilterCtx × List String}
    (h : Uniform scmpActAllow scmpActKillProcess st.1) (names : List String) :
    Uniform scmpActAllow scmpActKillProcess (names.foldl (blockName lib scmpActAllow) st).1 ∧
      ∀ n, 0 ≤ lib.resolveName n →
        (Recorded lib (names.foldl (blockName lib scmpActAllow) st).1 n ↔
          Recorded lib st.1 n ∨ n ∈ names ∧ n ∉ launchSyscalls) := by
  induction names generalizing st with
  | nil => simpa using h
  | cons name names ih =>
    obtain ⟨hu,hrec⟩ := blockName_allowing lib h name
    obtain ⟨hu',hrec'⟩ := ih hu
    refine ⟨hu',fun n hn => ?_⟩
    rw [List.foldl_cons, hrec' n hn, hrec n hn, List.mem_cons, or_assoc, or_and_right]

theorem mem_walk {names : List String} {name : String} :
    name ∈ order.walk names ↔ name ∈ names :=
  (order.walk_perm names).mem_iff

theorem addRules_killing {st : FilterCtx × List String}
    (h : Uniform scmpActKillProcess scmpActAllow st.1) (rules : List PolicyRule) :
    let st' := rules.foldl (addRule lib order scmpActKillProcess) st
    Uniform scmpActKillProcess scmpActAllow st'.1 ∧
      ∀ n, 0 ≤ lib.resolveName n → (Recorded lib st'.1 n ↔ Recorded lib st.1 n ∨
        ∃ r ∈ rules, r.action = .allow ∧ n ∈ targetToSyscalls r.target) := by
  induction rules generalizing st with
  | nil => simpa using h
  | cons rule rules ih =>
    have hstep : Uniform scmpActKillProcess scmpActAllow
          (addRule lib order scmpActKillProcess st rule).1 ∧
        ∀ n, 0 ≤ lib.resolveName n →
          (Recorded lib (addRule lib order scmpActKillProcess st rule).1 n ↔
            Recorded lib st.1 n ∨ rule.action = .allow ∧ n ∈ targetToSyscalls rule.target) := by
      rw [addRule]
      split
      · next ha =>
        obtain ⟨hu,hrec⟩ :=
          allowNames_killing lib h (order.walk (targetToSyscalls rule.target))
        refine ⟨hu,fun n hn => ?_⟩
        rw [hrec n hn, mem_walk]
        simp [ha]
      · next ha =>
        split
        · rw [blockNames_killing lib h]
          exact ⟨h,by simp [ha]⟩
        · exact ⟨h,by simp [ha]⟩
    obtain ⟨hu,hrec⟩ := hstep
    obtain ⟨hu',hrec'⟩ := ih hu
    refine ⟨hu',fun n hn => ?_⟩
    rw [List.foldl_cons, hrec' n hn, hrec n hn, or_assoc, List.exists_mem_cons_iff]

theorem addRules_allowing {st : FilterCtx × List String}
    (h : Uniform scmpActAllow scmpActKillProcess st.1) (rules : List PolicyRule) :
    let st' := rules.foldl (addRule lib order scmpActAllow) st
    Uniform scmpActAllow scmpActKillProcess st'.1 ∧
      ∀ n, 0 ≤ lib.resolveName n → (Recorded lib st'.1 n ↔ Recorded lib st.1 n ∨
        n ∉ launchSyscalls ∧
          ∃ r ∈ rules, r.action.denies = true ∧ n ∈ targetToSyscalls r.target) := by
  induction rules generalizing st with
  | nil => simpa using h
  | cons rule rules ih =>
    have hstep : Uniform scmpActAllow scmpActKillProcess
          (addRule lib order scmpActAllow st rule).1 ∧
        ∀ n, 0 ≤ lib.resolveName n →
          (Recorded lib (addRule lib order scmpActAllow st rule).1 n ↔
            Recorded lib st.1 n ∨ n ∉ launchSyscalls ∧
              rule.action.denies = true ∧ n ∈ targetToSyscalls rule.target) := by
      rw [addRule]
      split
      · next ha =>
        rw [allowNames_allowing lib h]
        exact ⟨h,by simp [ha]⟩
      · split
        · next hd =>
          obtain ⟨hu,hrec⟩ :=
            blockNames_allowing lib h (order.walk (targetToSyscalls rule.target))
          refine ⟨hu,fun n hn => ?_⟩
          rw [hrec n hn, mem_walk, and_comm]
          simp [hd]
        · next hd => exact ⟨h,by simp [hd]⟩
    obtain ⟨hu,hrec⟩ := hstep
    obtain ⟨hu',hrec'⟩ := ih hu
    refine ⟨hu',fun n hn => ?_⟩
    rw [List.foldl_cons, hrec' n hn, hrec n hn, or_assoc, List.exists_mem_cons_iff, ← and_or_left]

theorem mem_blocked_blockNames {default : Nat} {st : FilterCtx × List String}
    {names : List String} {n : String} (h : n ∈ (names.foldl (blockName lib default) st).2) :
    n ∈ st.2 ∨ n ∉ launchSyscalls ∧ 0 ≤ lib.resolveName n ∧ n ∈ names := by
  induction names generalizing st with
  | nil => exact .inl h
  | cons name names ih =>
    rcases ih h with hn | ⟨hl,hr,hn⟩
    · rw [blockName] at hn
      split at hn
      · exact .inl hn
      · next hl =>
        split at hn
        · next hr =>
          simp only at hn
          split at hn
          · rcases List.mem_insert_iff.mp hn with rfl | hn
            · exact .inr ⟨hl,hr,List.mem_cons_self⟩
            · exact .inl hn
          · exact .inl hn
        · exact .inl hn
    · exact .inr ⟨hl,hr,List.mem_cons_of_mem _ hn⟩

theorem mem_blocked_addRules {default : Nat} {st : FilterCtx × List String}
    {rules : List PolicyRule} {n : String}
    (h : n ∈ (rules.foldl (addRule lib order default) st).2) :
    n ∈ st.2 ∨ n ∉ launchSyscalls ∧ 0 ≤ lib.resolveName n ∧
      ∃ r ∈ rules, r.action.denies = true ∧ n ∈ targetToSyscalls r.target := by
  induction rules generalizing st with
  | nil => exact .inl h
  | cons rule rules ih =>
    rcases ih h with hn | ⟨hl,hr,r,hmem,hn⟩
    · rw [addRule] at hn
      split at hn
      · exact .inl hn
      · split at hn
        · next hd =>
          rcases mem_blocked_blockNames lib hn with hn | ⟨hl,hr,hn⟩
          · exact .inl hn
          · exact .inr ⟨hl,hr,rule,List.mem_cons_self,hd,(mem_walk order).mp hn⟩
        · exact .inl hn
    · exact .inr ⟨hl,hr,r,List.mem_cons_of_mem _ hmem,hn⟩

end

section

variable (lib : Libseccomp) (order : SetOrder) (policy : Policy)

def Denied (name : String) : Prop :=
  name ∉ launchSyscalls ∧ ∃ t, policy.denies t ∧ name ∈ targetToSyscalls t

def Allowed (name : String) : Prop := ∃ t, policy.allows t ∧ name ∈ targetToSyscalls t

def Enforced : Prop :=
  ∀ ctx blocked, buildFilter lib order policy = (some ctx, blocked) →
    (∀ name, Denied policy name → 0 ≤ lib.resolveName name →
      ctx.action (lib.resolveName name) = scmpActKillProcess) ∧
    ∀ name ∈ blocked, ctx.action (lib.resolveName name) = scmpActKillProcess

end

section

variable {lib : Libseccomp} {order : SetOrder} {policy : Policy} {ctx : FilterCtx}
  {blocked : List String}

theorem buildFilter_eq (hb : buildFilter lib order policy = (some ctx, blocked)) :
    lib.seccompInit = true ∧ (ctx, blocked) =
      policy.rules.foldl (addRule lib order (defaultAction policy))
        (baseline lib order policy, []) := by
  rw [buildFilter] at hb
  split at hb
  · next hi =>
    simp only [Prod.mk.injEq, Option.some.injEq] at hb
    exact ⟨hi,Prod.ext hb.1.symm hb.2.symm⟩
  · cases hb

theorem uniform_empty (default act : Nat) (h : act ≠ default) :
    Uniform default act { default := default, rules := [] } :=
  ⟨rfl,h,by simp [Dict.get?]⟩

theorem exists_allow_rule {name : String} :
    (∃ r ∈ policy.rules, r.action = .allow ∧ name ∈ targetToSyscalls r.target) ↔
      Allowed policy name := by
  constructor
  · rintro ⟨r,hr,ha,hn⟩
    exact ⟨r.target,⟨r,hr,rfl,ha⟩,hn⟩
  · rintro ⟨t,⟨r,hr,rfl,ha⟩,hn⟩
    exact ⟨r,hr,ha,hn⟩

theorem exists_deny_rule {name : String} :
    (name ∉ launchSyscalls ∧
        ∃ r ∈ policy.rules, r.action.denies = true ∧ name ∈ targetToSyscalls r.target) ↔
      Denied policy name := by
  constructor
  · rintro ⟨hl,r,hr,hd,hn⟩
    exact ⟨hl,r.target,⟨r,hr,rfl,hd⟩,hn⟩
  · rintro ⟨hl,t,⟨r,hr,rfl,hd⟩,hn⟩
    exact ⟨hl,r,hr,hd,hn⟩

theorem recorded_killing (hd : policy.defaultAction.denies = true)
    (hb : buildFilter lib order policy = (some ctx, blocked)) :
    Uniform scmpActKillProcess scmpActAllow ctx ∧ ∀ name, 0 ≤ lib.resolveName name →
      (Recorded lib ctx name ↔
        (name ∈ safeSyscalls ∧ ¬Denied policy name) ∨ Allowed policy name) := by
  have hdef : defaultAction policy = scmpActKillProcess := by simp [defaultAction, hd]
  have hempty := uniform_empty scmpActKillProcess scmpActAllow (by decide)
  obtain ⟨hu,hrec⟩ := allowNames_killing lib hempty
    (order.walk (safeSyscalls.filter (· ∉ explicitlyBlocked policy)))
  obtain ⟨-,hst⟩ := buildFilter_eq hb
  rw [hdef, baseline, hdef] at hst
  obtain ⟨hu',hrec'⟩ := @addRules_killing lib order (_, []) hu policy.rules
  rw [← hst] at hu' hrec'
  refine ⟨hu',fun name hn => ?_⟩
  rw [hrec' name hn, hrec name hn, mem_walk, List.mem_filter, exists_allow_rule]
  simp only [decide_eq_true_eq, mem_explicitlyBlocked]
  exact or_congr_left (or_iff_right (by simp [Recorded, Dict.get?]))

theorem recorded_allowing (hd : policy.defaultAction.denies = false)
    (hb : buildFilter lib order policy = (some ctx, blocked)) :
    Uniform scmpActAllow scmpActKillProcess ctx ∧ ∀ name, 0 ≤ lib.resolveName name →
      (Recorded lib ctx name ↔ Denied policy name) := by
  have hdef : defaultAction policy = scmpActAllow := by simp [defaultAction, hd]
  have hempty := uniform_empty scmpActAllow scmpActKillProcess (by decide)
  obtain ⟨-,hst⟩ := buildFilter_eq hb
  rw [hdef, baseline, hdef, allowNames_allowing lib hempty] at hst
  obtain ⟨hu,hrec⟩ := @addRules_allowing lib order (_, []) hempty policy.rules
  rw [← hst] at hu hrec
  refine ⟨hu,fun name hn => ?_⟩
  rw [hrec name hn, exists_deny_rule]
  exact or_iff_right (by simp [Recorded, Dict.get?])

theorem denied_of_mem_blocked (hb : buildFilter lib order policy = (some ctx, blocked))
    {name : String} (h : name ∈ blocked) : Denied policy name ∧ 0 ≤ lib.resolveName name := by
  obtain ⟨-,hst⟩ := buildFilter_eq hb
  have hmem : name ∈ (policy.rules.foldl (addRule lib order (defaultAction policy))
      (baseline lib order policy, [])).2 := by
    rw [← hst]
    exact h
  rcases mem_blocked_addRules lib order hmem with hn | ⟨hl,hr,hex⟩
  · cases hn
  · exact ⟨exists_deny_rule.mp ⟨hl,hex⟩,hr⟩

def Known (lib : Libseccomp) (ctx : FilterCtx) : Prop :=
  ∀ num a, ctx.rules.get? num = some a → ∃ name, 0 ≤ lib.resolveName name ∧ lib.resolveName name = num

theorem addRuleSafely_snd (ctx : FilterCtx) (act : Nat) (num : Int) :
    (addRuleSafely ctx act num).2 = (seccompRuleAdd ctx act num).2 := by
  rw [addRuleSafely]
  generalize seccompRuleAdd ctx act num = r
  obtain ⟨ret,ctx'⟩ := r
  simp only [apply_ite Prod.snd, ite_self]

theorem known_addRuleSafely (h : Known lib ctx) {name : String} (hr : 0 ≤ lib.resolveName name)
    (act : Nat) : Known lib (addRuleSafely ctx act (lib.resolveName name)).2 := by
  have hset : Known lib { ctx with rules := ctx.rules.set (lib.resolveName name) act } := by
    intro num a hget
    rw [Dict.get?_set] at hget
    split at hget
    · next heq => exact ⟨name, hr, heq⟩
    · exact h num a hget
  rw [addRuleSafely_snd, seccompRuleAdd]
  split
  · exact h
  · split
    · split
      · exact hset
      · exact h
    · exact hset

theorem known_allowNames (h : Known lib ctx) (names : List String) :
    Known lib (names.foldl (allowName lib) ctx) := by
  refine List.foldlRecOn names _ h fun ctx h name _ => ?_
  rw [allowName]
  split
  · next hr => exact known_addRuleSafely h hr _
  · exact h

theorem known_blockNames {st : FilterCtx × List String} (h : Known lib st.1) (default : Nat)
    (names : List String) : Known lib (names.foldl (blockName lib default) st).1 := by
  induction names generalizing st with
  | nil => exact h
  | cons name names ih =>
    refine ih ?_
    rw [blockName]
    split
    · exact h
    · split
      · next hr => exact known_addRuleSafely h hr _
      · exact h

theorem known_addRules {st : FilterCtx × List String} (h : Known lib st.1) (default : Nat)
    (rules : List PolicyRule) : Known lib (rules.foldl (addRule lib order default) st).1 := by
  induction rules generalizing st with
  | nil => exact h
  | cons rule rules ih =>
    refine ih ?_
    rw [addRule]
    split
    · exact known_allowNames h _
    · split
      · exact known_blockNames h default _
      · exact h

theorem known_buildFilter (hb : buildFilter lib order policy = (some ctx, blocked)) :
    Known lib ctx := by
  obtain ⟨-,hst⟩ := buildFilter_eq hb
  have hempty : Known lib { default := defaultAction policy, rules := [] } := by
    simp [Known, Dict.get?]
  have hbase : Known lib (baseline lib order policy) := known_allowNames hempty _
  have hctx : ctx = (policy.rules.foldl (addRule lib order (defaultAction policy))
      (baseline lib order policy, [])).1 := congrArg Prod.fst hst
  rw [hctx]
  exact known_addRules hbase _ _

theorem Known.exists_name (hk : Known lib ctx) {num : Int}
    (h : (ctx.rules.get? num).isSome = true) :
    ∃ name, 0 ≤ lib.resolveName name ∧ lib.resolveName name = num ∧ Recorded lib ctx name := by
  obtain ⟨a,ha⟩ := Option.isSome_iff_exists.mp h
  obtain ⟨name,hr,rfl⟩ := hk num a ha
  exact ⟨name, hr, rfl, h⟩

theorem action_eq_of_recorded_iff {default act : Nat} {ctx' : FilterCtx}
    (hu : Uniform default act ctx) (hu' : Uniform default act ctx') (hk : Known lib ctx)
    (hk' : Known lib ctx') (hrec : ∀ name, 0 ≤ lib.resolveName name →
      (Recorded lib ctx name ↔ Recorded lib ctx' name)) (num : Int) :
    ctx.action num = ctx'.action num := by
  cases h : (ctx.rules.get? num).isSome with
  | true =>
    obtain ⟨name,hr,rfl,hname⟩ := hk.exists_name h
    rw [action_of_recorded lib hu hname, action_of_recorded lib hu' ((hrec name hr).mp hname)]
  | false =>
    cases h' : (ctx'.rules.get? num).isSome with
    | true =>
      obtain ⟨name,hr,rfl,hname⟩ := hk'.exists_name h'
      rw [(hrec name hr).mpr hname] at h
      cases h
    | false =>
      rw [Option.isSome_eq_false_iff, Option.isNone_iff_eq_none] at h h'
      rw [FilterCtx.action, FilterCtx.action, h, h', Option.getD_none, Option.getD_none,
        hu.default_eq, hu'.default_eq]

theorem exists_filter (lib : Libseccomp) (order : SetOrder) (policy : Policy)
    (hi : lib.seccompInit = true) :
    ∃ ctx blocked, buildFilter lib order policy = (some ctx, blocked) := by
  simp [buildFilter, hi]

theorem killed_of_not_allowed (hb : buildFilter lib order policy = (some ctx, blocked))
    {name : String} (hdn : Denied policy name) (hr : 0 ≤ lib.resolveName name)
    (h : policy.defaultAction.denies = true → ¬Allowed policy name) :
    ctx.action (lib.resolveName name) = scmpActKillProcess := by
  cases hd : policy.defaultAction.denies with
  | true =>
    obtain ⟨hu,hrec⟩ := recorded_killing hd hb
    refine action_of_not_recorded lib hu ?_
    rw [hrec name hr]
    rintro (⟨-,hnd⟩ | ha)
    · exact hnd hdn
    · exact h hd ha
  | false =>
    obtain ⟨hu,hrec⟩ := recorded_allowing hd hb
    exact action_of_recorded lib hu ((hrec name hr).mpr hdn)

theorem allowed_of_allow_rule (hd : policy.defaultAction.denies = true)
    (hb : buildFilter lib order policy = (some ctx, blocked)) {name : String}
    (hr : 0 ≤ lib.resolveName name) (ha : Allowed policy name) :
    ctx.action (lib.resolveName name) = scmpActAllow := by
  obtain ⟨hu,hrec⟩ := recorded_killing hd hb
  exact action_of_recorded lib hu ((hrec name hr).mpr (.inr ha))

end

theorem enforced_iff (lib : Libseccomp) (order : SetOrder) (policy : Policy) :
    Enforced lib order policy ↔
      (lib.seccompInit = true → policy.defaultAction.denies = true →
        ∀ name, 0 ≤ lib.resolveName name → Denied policy name → ¬Allowed policy name) := by
  constructor
  · intro h hi hd name hr hdn ha
    obtain ⟨ctx,blocked,hb⟩ := exists_filter lib order policy hi
    have hkill := (h ctx blocked hb).1 name hdn hr
    have hallow := allowed_of_allow_rule hd hb hr ha
    exact absurd (hallow.symm.trans hkill) (by decide)
  · intro h ctx blocked hb
    have hi := (buildFilter_eq hb).1
    have hkill : ∀ name, Denied policy name → 0 ≤ lib.resolveName name →
        ctx.action (lib.resolveName name) = scmpActKillProcess :=
      fun name hdn hr => killed_of_not_allowed hb hdn hr (fun hd => h hi hd name hr hdn)
    refine ⟨hkill,fun name hmem => ?_⟩
    obtain ⟨hdn,hr⟩ := denied_of_mem_blocked hb hmem
    exact hkill name hdn hr

def x8664Syscalls : List (String × Int) :=
  [("read", 0), ("write", 1), ("open", 2), ("close", 3), ("stat", 4), ("fstat", 5), ("lstat", 6),
   ("poll", 7), ("lseek", 8), ("mmap", 9), ("mprotect", 10), ("munmap", 11), ("brk", 12),
   ("rt_sigaction", 13), ("rt_sigprocmask", 14), ("rt_sigreturn", 15), ("ioctl", 16),
   ("pread64", 17), ("pwrite64", 18), ("readv", 19), ("writev", 20), ("access", 21),
   ("select", 23), ("sched_yield", 24), ("mremap", 25), ("madvise", 28), ("dup", 32),
   ("dup2", 33), ("nanosleep", 35), ("getitimer", 36), ("setitimer", 38), ("getpid", 39),
   ("socket", 41), ("connect", 42), ("accept", 43), ("sendto", 44), ("recvfrom", 45),
   ("sendmsg", 46), ("recvmsg", 47), ("shutdown", 48), ("bind", 49), ("listen", 50),
   ("getsockname", 51), ("getpeername", 52), ("socketpair", 53), ("setsockopt", 54),
   ("getsockopt", 55), ("clone", 56), ("fork", 57), ("vfork", 58), ("execve", 59), ("exit", 60),
   ("wait4", 61), ("kill", 62), ("uname", 63), ("fcntl", 72), ("fsync", 74), ("truncate", 76),
   ("ftruncate", 77), ("getdents", 78), ("getcwd", 79), ("rename", 82), ("mkdir", 83),
   ("rmdir", 84), ("creat", 85), ("link", 86), ("unlink", 87), ("symlink", 88), ("readlink", 89),
   ("chmod", 90), ("fchmod", 91), ("chown", 92), ("fchown", 93), ("lchown", 94), ("umask", 95),
   ("gettimeofday", 96), ("getrlimit", 97), ("getrusage", 98), ("sysinfo", 99), ("getuid", 102),
   ("getgid", 104), ("geteuid", 107), ("getegid", 108), ("getppid", 110), ("setsid", 112),
   ("getgroups", 115), ("capget", 125), ("capset", 126), ("rt_sigqueueinfo", 129),
   ("sigaltstack", 131), ("mknod", 133), ("statfs", 137), ("fstatfs", 138),
   ("sched_getparam", 143), ("sched_getscheduler", 145), ("arch_prctl", 158), ("mount", 165),
   ("umount2", 166), ("gettid", 186), ("tkill", 200), ("time", 201), ("futex", 202),
   ("sched_getaffinity", 204), ("getdents64", 217), ("set_tid_address", 218),
   ("restart_syscall", 219), ("fadvise64", 221), ("clock_gettime", 228), ("clock_nanosleep", 230),
   ("exit_group", 231), ("epoll_ctl", 233), ("tgkill", 234), ("waitid", 247), ("openat", 257),
   ("mkdirat", 258), ("mknodat", 259), ("fchownat", 260), ("newfstatat", 262), ("unlinkat", 263),
   ("renameat", 264), ("linkat", 265), ("symlinkat", 266), ("readlinkat", 267), ("fchmodat", 268),
   ("faccessat", 269), ("pselect6", 270), ("ppoll", 271), ("set_robust_list", 273),
   ("get_robust_list", 274), ("epoll_pwait", 281), ("fallocate", 285), ("accept4", 288),
   ("eventfd2", 290), ("epoll_create1", 291), ("dup3", 292), ("pipe2", 293), ("preadv", 295),
   ("pwritev", 296), ("recvmmsg", 299), ("prlimit64", 302), ("sendmmsg", 307), ("renameat2", 316),
   ("getrandom", 318), ("execveat", 322), ("membarrier", 324), ("preadv2", 327),
   ("pwritev2", 328), ("statx", 332), ("rseq", 334), ("pidfd_send_signal", 424), ("clone3", 435),
   ("close_range", 436), ("faccessat2", 439)]

theorem x8664Syscalls_increasing : (x8664Syscalls.map Prod.snd).IsChain (· < ·) := by
  decide +kernel

def x8664Resolve (name : String) : Int := (Dict.get? x8664Syscalls name).getD (-1)

theorem x8664Resolve_inj (a b : String) (ha : 0 ≤ x8664Resolve a)
    (hab : x8664Resolve a = x8664Resolve b) : a = b := by
  have hpair := List.isChain_iff_pairwise.mp x8664Syscalls_increasing
  have hnodup : (x8664Syscalls.map Prod.snd).Nodup := hpair.imp Int.ne_of_lt
  rw [x8664Resolve] at ha
  rw [x8664Resolve, x8664Resolve] at hab
  cases hga : Dict.get? x8664Syscalls a with
  | none => simp [hga] at ha
  | some m =>
    cases hgb : Dict.get? x8664Syscalls b with
    | none =>
      simp only [hga, hgb, Option.getD_some, Option.getD_none] at ha hab
      omega
    | some n =>
      have hmn : m = n := by simpa [hga, hgb] using hab
      have heq := List.inj_on_of_nodup_map hnodup (Dict.mem_of_get? hga) (Dict.mem_of_get? hgb) hmn
      exact congrArg Prod.fst heq

def x8664 : Libseccomp where
  seccompInit := true
  resolveName := x8664Resolve
  resolveName_inj := x8664Resolve_inj

def sourceOrder : SetOrder where
  walk := id
  walk_perm := List.Perm.refl

-- network_bind and network_out share bind, so allowing the one undoes the denial of the other.
def sharedSyscalls : Policy where
  name := "shared".toList
  rules := [{ ruleId := "bind".toList, target := .networkBind, action := .deny },
    { ruleId := "out".toList, target := .networkOut, action := .allow }]

theorem not_enforced_sharedSyscalls : ¬Enforced x8664 sourceOrder sharedSyscalls := by
  intro h
  obtain ⟨ctx,blocked,hb⟩ := exists_filter x8664 sourceOrder sharedSyscalls rfl
  have hr : 0 ≤ x8664.resolveName "bind" := by decide +kernel
  have hdn : Denied sharedSyscalls "bind" :=
    ⟨by decide,.networkBind,⟨_,List.mem_cons_self,rfl,rfl⟩,by decide⟩
  have ha : Allowed sharedSyscalls "bind" :=
    ⟨.networkOut,⟨_,List.mem_cons_of_mem _ List.mem_cons_self,rfl,rfl⟩,by decide⟩
  have hkill := (h ctx blocked hb).1 "bind" hdn hr
  have hallow := allowed_of_allow_rule rfl hb hr ha
  exact absurd (hallow.symm.trans hkill) (by decide)

end PicoSentry.Sandbox.Seccomp
