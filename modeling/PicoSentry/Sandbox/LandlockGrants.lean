import PicoSentry.Sandbox.Landlock

namespace PicoSentry.Sandbox.Landlock

open Foundation

def ProperAncestor (a path : Str) : Prop := a ≠ path ∧ (a = ['/'] ∨ a ++ ['/'] <+: path)

def AtOrBelow (a path : Str) : Prop := path = a ∨ ProperAncestor a path

theorem isAncestorOrEq_iff {a path : Str} :
    isAncestorOrEq a path = true ↔ path = a ∨ ProperAncestor a path := by
  simp only [isAncestorOrEq, Bool.or_eq_true, decide_eq_true_eq, List.isPrefixOf_iff_prefix,
    ProperAncestor]
  tauto

def writeBits (bits : Nat) : Nat := andNot bits (ro ||| accessFsExecute)

theorem testBit_readOnly {i : Nat} :
    (ro ||| accessFsExecute).testBit i = true ↔ i = 0 ∨ i = 2 ∨ i = 3 := by
  simp only [ro, accessFsReadFile, accessFsReadDir, accessFsExecute, Nat.testBit_or,
    Nat.one_shiftLeft, Nat.testBit_two_pow, Bool.or_eq_true, decide_eq_true_eq]
  omega

theorem writeBits_ne_zero {bits : Nat} :
    writeBits bits ≠ 0 ↔ ∃ i, bits.testBit i = true ∧ ¬(i = 0 ∨ i = 2 ∨ i = 3) := by
  have hbit : ∀ i, (writeBits bits).testBit i = true ↔
      bits.testBit i = true ∧ ¬(i = 0 ∨ i = 2 ∨ i = 3) := by
    intro i
    rw [writeBits, testBit_andNot, Bool.and_eq_true, Bool.not_eq_true', ← Bool.not_eq_true,
      testBit_readOnly]
  constructor
  · intro h
    obtain ⟨i,hi⟩ := Nat.exists_testBit_of_ne_zero h
    exact ⟨i,(hbit i).mp hi⟩
  · rintro ⟨i,hi⟩ h
    have := (hbit i).mpr hi
    rw [h, Nat.zero_testBit] at this
    exact Bool.false_ne_true this

section Grants

variable (fs : FileSystem)

theorem testBit_grants (workspaceRoot : Str) (handledFs : Nat) (calls : List (Str × Nat))
    (grants : Dict Str Nat) (key : Str) (i : Nat) :
    (((calls.foldl (grant fs workspaceRoot handledFs) grants).get? key).getD 0).testBit i = true ↔
      ((grants.get? key).getD 0).testBit i = true ∨
        ∃ c ∈ calls, grantKey fs workspaceRoot c.1 = key ∧ c.2.testBit i = true ∧
          handledFs.testBit i = true := by
  induction calls generalizing grants with
  | nil => simp
  | cons c calls ih =>
    rw [List.foldl_cons, ih, grant, Dict.get?_set, List.exists_mem_cons_iff]
    by_cases h : grantKey fs workspaceRoot c.1 = key
    · simp [h, or_assoc]
    · simp [h]

theorem keys_grants (workspaceRoot : Str) (handledFs : Nat) (calls : List (Str × Nat))
    (grants : Dict Str Nat) (key : Str) :
    key ∈ Dict.keys (calls.foldl (grant fs workspaceRoot handledFs) grants) ↔
      key ∈ Dict.keys grants ∨ ∃ c ∈ calls, grantKey fs workspaceRoot c.1 = key := by
  induction calls generalizing grants with
  | nil => simp
  | cons c calls ih =>
    rw [List.foldl_cons, ih, grant, Dict.mem_keys_set, List.exists_mem_cons_iff, or_assoc]
    simp [eq_comm]

theorem keys_grants_nodup (workspaceRoot : Str) (handledFs : Nat) (calls : List (Str × Nat))
    (grants : Dict Str Nat) (h : (Dict.keys grants).Nodup) :
    (Dict.keys (calls.foldl (grant fs workspaceRoot handledFs) grants)).Nodup := by
  induction calls generalizing grants with
  | nil => exact h
  | cons c calls ih => exact ih _ (Dict.keys_set_nodup h _ _)

def grantCalls (reads : List (Str × Nat)) (policy : Policy) (workspaceRoot : Str)
    (handledFs : Nat) : List (Str × Nat) :=
  reads ++ execGrants fs policy ++ writeGrants fs policy workspaceRoot handledFs

variable {fs}

theorem buildGrants_ok {policy : Policy} {command : List Str} {workspaceRoot : Str}
    {handledFs : Nat} {pairs : List (Str × Nat)}
    (h : buildGrants fs policy command workspaceRoot handledFs = .ok pairs) :
    ∃ reads, readGrants fs policy command = .ok reads ∧
      (∀ path bits, (path, bits) ∈ pairs → ∀ i, bits.testBit i = true ↔
        ∃ c ∈ grantCalls fs reads policy workspaceRoot handledFs,
          grantKey fs workspaceRoot c.1 = path ∧ c.2.testBit i = true ∧
            handledFs.testBit i = true) ∧
      ∀ c ∈ grantCalls fs reads policy workspaceRoot handledFs,
        ∃ bits, (grantKey fs workspaceRoot c.1, bits) ∈ pairs := by
  obtain ⟨reads,hreads,hpairs⟩ := bind_eq_ok.mp h
  cases hpairs
  have hn := keys_grants_nodup fs workspaceRoot handledFs
    (grantCalls fs reads policy workspaceRoot handledFs) [] List.nodup_nil
  have hmem : ∀ p, p ∈ sortedItems ((grantCalls fs reads policy workspaceRoot handledFs).foldl
      (grant fs workspaceRoot handledFs) []) ↔ p ∈ (grantCalls fs reads policy workspaceRoot
        handledFs).foldl (grant fs workspaceRoot handledFs) [] :=
    fun p => (perm_ascending _ _).mem_iff
  refine ⟨reads,hreads,?_,?_⟩
  · intro path bits hp i
    have hget := Dict.get?_of_mem hn ((hmem _).mp hp)
    have hbit := testBit_grants fs workspaceRoot handledFs
      (grantCalls fs reads policy workspaceRoot handledFs) [] path i
    rw [hget] at hbit
    simpa [Dict.get?] using hbit
  · intro c hc
    have hkey := (keys_grants fs workspaceRoot handledFs
      (grantCalls fs reads policy workspaceRoot handledFs) [] _).mpr (.inr ⟨c, hc, rfl⟩)
    obtain ⟨bits,hget⟩ := Dict.exists_get?_of_mem_keys hkey
    exact ⟨bits,(hmem _).mpr (Dict.mem_of_get? hget)⟩

end Grants

section Calls

variable {fs : FileSystem} {policy : Policy}

theorem bits_readGrants {command : List Str} {reads : List (Str × Nat)}
    (h : readGrants fs policy command = .ok reads) {c : Str × Nat} (hc : c ∈ reads) {i : Nat}
    (hi : c.2.testBit i = true) : i = 0 ∨ i = 2 ∨ i = 3 := by
  have hro : ∀ bits, bits = ro ∨ bits = ro ||| accessFsExecute → bits.testBit i = true →
      i = 0 ∨ i = 2 ∨ i = 3 := by
    rintro _ (rfl | rfl) hbit
    · exact testBit_readOnly.mp (by rw [Nat.testBit_or, hbit, Bool.true_or])
    · exact testBit_readOnly.mp hbit
  have hcommand : ∀ chain, c ∈ commandGrants chain → c.2 = ro ∨ c.2 = ro ||| accessFsExecute := by
    intro chain hmem
    rcases List.mem_cons.mp hmem with rfl | hmem
    · exact .inr rfl
    · split at hmem
      · cases hmem
      · exact .inl (List.mem_singleton.mp hmem ▸ rfl)
  have hrule : ∀ rule, c ∈ readRuleGrants rule → c.2 = ro := by
    intro rule hmem
    rw [readRuleGrants] at hmem
    split at hmem
    · split at hmem
      · exact List.mem_singleton.mp hmem ▸ rfl
      · obtain ⟨p,-,hp⟩ := List.mem_filterMap.mp hmem
        obtain ⟨anchor,-,rfl⟩ := Option.map_eq_some_iff.mp hp
        rfl
    · cases hmem
  refine hro c.2 ?_ hi
  unfold readGrants at h
  split at h
  · cases h
    cases hc
  · split at h
    · cases h
    · cases h
      simp only [List.mem_append, List.mem_map, List.mem_flatMap, List.mem_singleton] at hc
      rcases hc with (((⟨_,-,rfl⟩ | rfl) | hc) | hc) | ⟨rule,-,hc⟩
      · exact .inr rfl
      · exact .inl rfl
      · exact hcommand _ hc
      · exact hcommand _ hc
      · exact .inl (hrule rule hc)

theorem bits_execGrants {c : Str × Nat} (hc : c ∈ execGrants fs policy) {i : Nat}
    (hi : c.2.testBit i = true) : i = 0 ∨ i = 2 ∨ i = 3 := by
  obtain ⟨rule,-,hc⟩ := List.mem_flatMap.mp hc
  rw [execRuleGrants] at hc
  split at hc
  · obtain ⟨p,-,hc⟩ := List.mem_flatMap.mp hc
    split at hc
    · cases hc
    · obtain ⟨m,-,rfl⟩ := List.mem_map.mp hc
      simp only [accessFsExecute, accessFsReadFile, Nat.testBit_or, Nat.one_shiftLeft,
        Nat.testBit_two_pow, Bool.or_eq_true, decide_eq_true_eq] at hi
      omega
  · cases hc

def Listed (fs : FileSystem) (policy : Policy) (workspaceRoot anchor : Str) : Prop :=
  ∃ rule ∈ policy.rules, rule.target = .fileWrite ∧ rule.action = .allow ∧
    ∃ p ∈ rule.paths, ∃ a, globAnchor p = some a ∧ anchor = fs.realpath (absolute workspaceRoot a)

theorem mem_writeGrants (ws : Workspace fs) {handledFs : Nat} {c : Str × Nat}
    (hc : c ∈ writeGrants fs policy ws.root handledFs) :
    targetDenied policy .fileWrite = false ∧ (grantKey fs ws.root c.1 = ws.root ∨
      Listed fs policy ws.root (grantKey fs ws.root c.1) ∧
        isAncestorOrEq (grantKey fs ws.root c.1) ws.root = false) := by
  have hself : ∀ p, PosixPath.isAbs p = true → fs.realpath p = p → grantKey fs ws.root p = p := by
    intro p habs hp
    rw [grantKey, absolute, if_pos habs]
    split
    · rfl
    · exact hp
  have hroot := hself ws.root ws.absolute ws.resolved
  rw [writeGrants] at hc
  split at hc
  · cases hc
  · next hd =>
    refine ⟨by simpa using hd,?_⟩
    rcases List.mem_cons.mp hc with rfl | hc
    · exact .inl hroot
    · obtain ⟨rule,hrule,hc⟩ := List.mem_flatMap.mp hc
      rw [writeRuleGrants] at hc
      split at hc
      · next hw =>
        obtain ⟨p,hp,hc⟩ := List.mem_filterMap.mp hc
        obtain ⟨a,ha,hc⟩ := Option.map_eq_some_iff.mp hc
        simp only at hc
        split at hc
        · exact .inl (hc ▸ hroot)
        · next hanc =>
          subst hc
          rw [hself _ (fs.realpath_abs _) (fs.realpath_realpath _)]
          exact .inr ⟨⟨rule, hrule, hw.1, hw.2, p, hp, a, ha, rfl⟩, by simpa using hanc⟩
      · cases hc

end Calls

def PathlessDeny (policy : Policy) : Prop :=
  ∃ rule ∈ policy.rules, rule.target = .fileWrite ∧ rule.action.denies = true ∧ rule.paths = []

def WithinPolicy (fs : FileSystem) (policy : Policy) (workspaceRoot : Str)
    (pairs : List (Str × Nat)) : Prop :=
  (∀ path bits, (path, bits) ∈ pairs → writeBits bits ≠ 0 →
    (path = workspaceRoot ∨ ∃ anchor, Listed fs policy workspaceRoot anchor ∧
      AtOrBelow anchor path) ∧ ¬ProperAncestor path workspaceRoot) ∧
  (PathlessDeny policy → ∀ path bits, (path, bits) ∈ pairs → writeBits bits = 0)

section

variable {fs : FileSystem} {policy : Policy} {command : List Str} {ws : Workspace fs}
  {handledFs : Nat} {pairs : List (Str × Nat)}

theorem write_call_of_pair (h : buildGrants fs policy command ws.root handledFs = .ok pairs)
    {path : Str} {bits : Nat} (hp : (path, bits) ∈ pairs) (hw : writeBits bits ≠ 0) :
    writeBits handledFs ≠ 0 ∧
      ∃ c ∈ writeGrants fs policy ws.root handledFs, grantKey fs ws.root c.1 = path := by
  obtain ⟨reads,hreads,hbits,-⟩ := buildGrants_ok h
  obtain ⟨i,hi,hne⟩ := writeBits_ne_zero.mp hw
  obtain ⟨c,hc,hkey,hci,hhi⟩ := (hbits path bits hp i).mp hi
  refine ⟨writeBits_ne_zero.mpr ⟨i, hhi, hne⟩,?_⟩
  rw [grantCalls, List.mem_append, List.mem_append] at hc
  rcases hc with (hc | hc) | hc
  · exact absurd (bits_readGrants hreads hc hci) hne
  · exact absurd (bits_execGrants hc hci) hne
  · exact ⟨c, hc, hkey⟩

theorem grants_where_listed (h : buildGrants fs policy command ws.root handledFs = .ok pairs)
    {path : Str} {bits : Nat} (hp : (path, bits) ∈ pairs) (hw : writeBits bits ≠ 0) :
    (path = ws.root ∨ ∃ anchor, Listed fs policy ws.root anchor ∧ AtOrBelow anchor path) ∧
      ¬ProperAncestor path ws.root := by
  obtain ⟨-,c,hc,rfl⟩ := write_call_of_pair h hp hw
  rcases (mem_writeGrants ws hc).2 with hroot | ⟨hlisted,hanc⟩
  · exact ⟨.inl hroot, fun hprop => hprop.1 hroot⟩
  · refine ⟨.inr ⟨_, hlisted, .inl rfl⟩,fun hprop => ?_⟩
    rw [isAncestorOrEq_iff.mpr (.inr hprop)] at hanc
    cases hanc

theorem workspace_writable (h : buildGrants fs policy command ws.root handledFs = .ok pairs)
    (hd : targetDenied policy .fileWrite = false) (hw : writeBits handledFs ≠ 0) :
    ∃ path bits, (path, bits) ∈ pairs ∧ writeBits bits ≠ 0 := by
  obtain ⟨reads,hreads,hbits,hkeys⟩ := buildGrants_ok h
  obtain ⟨i,hi,hne⟩ := writeBits_ne_zero.mp hw
  have hc : (ws.root, andNot handledFs accessFsExecute) ∈
      grantCalls fs reads policy ws.root handledFs := by
    rw [grantCalls, writeGrants, hd]
    exact List.mem_append_right _ List.mem_cons_self
  obtain ⟨bits,hp⟩ := hkeys _ hc
  refine ⟨_,bits,hp,writeBits_ne_zero.mpr ⟨i,(hbits _ _ hp i).mpr ⟨_, hc, rfl, ?_, hi⟩,hne⟩⟩
  have hx : accessFsExecute.testBit i = false := by
    rw [accessFsExecute, Nat.one_shiftLeft, Nat.testBit_two_pow, decide_eq_false_iff_not]
    omega
  rw [testBit_andNot, hi, hx]
  rfl

end

theorem withinPolicy_iff (fs : FileSystem) (policy : Policy) (command : List Str)
    (ws : Workspace fs) (handledFs : Nat) (pairs : List (Str × Nat))
    (h : buildGrants fs policy command ws.root handledFs = .ok pairs) :
    WithinPolicy fs policy ws.root pairs ↔
      (PathlessDeny policy → targetDenied policy .fileWrite = true ∨ writeBits handledFs = 0) := by
  constructor
  · rintro ⟨-,hnone⟩ hdeny
    by_contra hno
    rw [not_or, Bool.not_eq_true] at hno
    obtain ⟨path,bits,hp,hw⟩ := workspace_writable h hno.1 hno.2
    exact hw (hnone hdeny path bits hp)
  · intro hcond
    refine ⟨fun path bits hp hw => grants_where_listed h hp hw,fun hdeny path bits hp => ?_⟩
    by_contra hw
    obtain ⟨hmask,c,hc,-⟩ := write_call_of_pair h hp hw
    rcases hcond hdeny with hd | hzero
    · rw [(mem_writeGrants ws hc).1] at hd
      cases hd
    · exact hmask hzero

def plainPaths : List Str := ["/work".toList, "/tmp/out".toList]

def plainFileSystem : FileSystem where
  realpath p := if p ∈ plainPaths then p else ['/']
  which _ := none
  glob _ := []
  getcwd := "/work".toList
  realpath_realpath p := by
    by_cases h : p ∈ plainPaths
    · rw [if_pos h, if_pos h]
    · rw [if_neg h, ite_self]
  realpath_abs p := by
    split
    · next h =>
      simp only [plainPaths, List.mem_cons, List.not_mem_nil, or_false] at h
      rcases h with rfl | rfl <;> rfl
    · rfl

def plainWorkspace : Workspace plainFileSystem where
  root := "/work".toList
  absolute := rfl
  resolved := rfl

def writeRule (id : String) (action : SyscallAction) (paths : List String) : PolicyRule where
  ruleId := id.toList
  target := .fileWrite
  action := action
  paths := paths.map String.toList

def allowThenDeny : Policy where
  name := "allow then deny".toList
  rules := [writeRule "W-1" .allow ["/tmp/out/**"], writeRule "W-2" .deny []]

def denyThenAllow : Policy where
  name := "deny then allow".toList
  rules := [writeRule "W-2" .deny [], writeRule "W-1" .allow ["/tmp/out/**"]]

def allowOnly : Policy where
  name := "allow only".toList
  rules := [writeRule "W-1" .allow ["/tmp/out/**"]]

theorem allowThenDeny_grants_writes :
    ¬∀ (fs : FileSystem) (policy : Policy) (command : List Str) (ws : Workspace fs)
      (handledFs : Nat) (pairs : List (Str × Nat)),
      buildGrants fs policy command ws.root handledFs = .ok pairs →
        WithinPolicy fs policy ws.root pairs := by
  intro hall
  have h := hall plainFileSystem allowThenDeny ["true".toList] plainWorkspace 2
    [("/tmp/out".toList, 2), ("/work".toList, 2)] (by rfl)
  have hdeny : PathlessDeny allowThenDeny :=
    ⟨_, List.mem_cons_of_mem _ List.mem_cons_self, rfl, rfl, rfl⟩
  have hnone := h.2 hdeny "/work".toList 2 (List.mem_cons_of_mem _ List.mem_cons_self)
  exact absurd hnone (by decide +kernel)

theorem withinPolicy_allowOnly : WithinPolicy plainFileSystem allowOnly plainWorkspace.root
    [("/tmp/out".toList, 2), ("/work".toList, 2)] := by
  have hnone : ¬PathlessDeny allowOnly := by
    rintro ⟨rule,hrule,-,hdenies,-⟩
    obtain rfl := List.mem_singleton.mp hrule
    cases hdenies
  exact (withinPolicy_iff plainFileSystem allowOnly ["true".toList] plainWorkspace 2
    [("/tmp/out".toList, 2), ("/work".toList, 2)] rfl).mpr fun hdeny => absurd hdeny hnone

end PicoSentry.Sandbox.Landlock
