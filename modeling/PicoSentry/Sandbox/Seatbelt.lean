import PicoSentry.Foundation.Directory
import PicoSentry.Sandbox.Policy

namespace PicoSentry.Sandbox.Seatbelt

open Foundation

section Generate

-- str(Path(path).resolve()), which follows the links of the machine.
variable (resolve : Str → Str)

def replaceChar (old : Char) (new : Str) (s : Str) : Str := s.flatMap fun c => if c = old then new else [c]

def escapeSeatbeltPath (path : Str) : Str :=
  replaceChar '"' ['\\', '"'] (replaceChar '\\' ['\\', '\\'] path)

-- str(Path(path)): without empty components and those of a single dot.
def pathText (path : Str) : Str :=
  let parts := (path.splitOn '/').filter fun part => part ≠ [] ∧ part ≠ ['.']
  let joined := List.replicate (PosixPath.initialSlashes path) '/' ++ ['/'].intercalate parts
  if joined = [] then ['.'] else joined

def normalizePath (path : Str) (cwd : Option Str) : Str :=
  if path = "**".toList then ['/']
  else if PosixPath.isAbs path then path
  else
    match cwd with
    | some (c :: dir) => pathText (PosixPath.join (c :: dir) path)
    | _ => resolve path

def quoted (operator content : Str) : Str := '(' :: operator ++ " \"".toList ++ content ++ "\")".toList

def pathFilter (cwd : Option Str) (path : Str) : Str :=
  let literal := escapeSeatbeltPath (normalizePath resolve path cwd)
  if '*' ∈ literal then quoted "subpath".toList (literal.filter (· ≠ '*')) else quoted "literal".toList literal

def allowParts (rule : PolicyRule) (cwd : Option Str) : List Str :=
  match rule.target with
  | .fileRead =>
    if rule.paths = [] then ["file-read*".toList]
    else rule.paths.map (pathFilter resolve cwd) ++ ["file-read-data".toList, "file-read-metadata".toList]
  | .fileWrite =>
    if rule.paths = [] then ["file-read*".toList, "file-write*".toList]
    else rule.paths.map (pathFilter resolve cwd)
  | .networkOut =>
    "network-outbound".toList :: rule.addresses.map fun addr => quoted "remote ip".toList (escapeSeatbeltPath addr)
  | .networkIn => ["network-inbound".toList]
  | .networkBind => ["network-bind".toList]
  | .processSpawn => ["process-exec".toList, "process-fork".toList]
  | .dnsQuery => ["network-outbound".toList, quoted "remote port".toList "53".toList]
  | _ => []

def denyParts (rule : PolicyRule) : List Str :=
  match rule.target with
  | .networkOut | .networkIn => ["network*".toList]
  | .networkBind => ["network-bind".toList, "network-inbound".toList]
  | .processSpawn => ["process-exec".toList, "process-fork".toList]
  | .fileWrite =>
    "file-write*".toList :: rule.paths.map fun path => quoted "subpath".toList (escapeSeatbeltPath path)
  | .fileRead =>
    if rule.paths = [] then ["file-read*".toList]
    else rule.paths.map fun path => quoted "literal".toList (escapeSeatbeltPath path)
  | _ => []

def clauseOf (opening : Str) (parts : List Str) : Option Str :=
  if parts = [] then none else some ('(' :: [' '].intercalate (opening :: parts) ++ [')'])

def ruleToAllowClause (rule : PolicyRule) (cwd : Option Str) : Option Str :=
  clauseOf "(allow".toList (allowParts resolve rule cwd)

def ruleToDenyClause (rule : PolicyRule) : Option Str := clauseOf "(deny".toList (denyParts rule)

def ruleClause (cwd : Option Str) (rule : PolicyRule) : Option Str :=
  match rule.action with
  | .allow => ruleToAllowClause resolve rule cwd
  | .deny | .kill => ruleToDenyClause rule
  | .trace => none

def defaultClause (policy : Policy) : Str :=
  if policy.defaultAction = .deny then "(deny default)".toList else "(allow default)".toList

def profileLines (policy : Policy) (cwd : Option Str) : List Str :=
  "(version 1)".toList :: defaultClause policy :: policy.rules.filterMap (ruleClause resolve cwd)

def generateProfile (policy : Policy) (cwd : Option Str) : Str := ['\n'].intercalate (profileLines resolve policy cwd)

end Generate

section Read

inductive Mode where
  | code
  | string
  | escaped
  deriving DecidableEq

-- A reader of S-expressions: the open brackets, the string that is being read, the strings so far and
-- what stands outside of them.
structure Reader where
  depth : Nat := 0
  mode : Mode := .code
  pending : Str := []
  strings : List Str := []
  outside : Str := []
  deriving DecidableEq

-- A closing bracket without an opening one is an error.
def Reader.step (r : Reader) (c : Char) : Option Reader :=
  match r.mode with
  | .code =>
    let r := { r with outside := r.outside ++ [c] }
    if c = '(' then some { r with depth := r.depth + 1 }
    else if c = ')' then (if r.depth = 0 then none else some { r with depth := r.depth - 1 })
    else if c = '"' then some { r with mode := .string }
    else some r
  | .string =>
    if c = '\\' then some { r with mode := .escaped }
    else if c = '"' then some { r with mode := .code, pending := [], strings := r.strings ++ [r.pending] }
    else some { r with pending := r.pending ++ [c] }
  | .escaped => some { r with mode := .string, pending := r.pending ++ [c] }

def Reader.read (r : Reader) : Str → Option Reader
  | [] => some r
  | c :: s => (r.step c).bind fun r => r.read s

def Reads (s : Str) (n : Nat) (strings : List Str) : Prop :=
  ∀ d ss out, ∃ out', Reader.read ⟨d, .code, [], ss, out⟩ s = some ⟨d + n, .code, [], ss ++ strings, out'⟩

variable {s t opening operator : Str} {n m : Nat} {xs ys : List Str} {c : Char}

theorem read_append (r : Reader) (s t : Str) : r.read (s ++ t) = (r.read s).bind fun r => r.read t := by
  induction s generalizing r with
  | nil => rfl
  | cons c s ih =>
    rw [List.cons_append, Reader.read, Reader.read]
    cases r.step c with
    | none => rfl
    | some r => exact ih r

theorem Reads.append (hs : Reads s n xs) (ht : Reads t m ys) : Reads (s ++ t) (n + m) (xs ++ ys) := by
  intro d ss out
  obtain ⟨out₁,hs⟩ := hs d ss out
  obtain ⟨out₂,ht⟩ := ht (d + n) (ss ++ xs) out₁
  exact ⟨out₂, by rw [read_append, hs, Option.bind_some, ht, Nat.add_assoc, List.append_assoc]⟩

theorem Reads.bracketed (h : Reads s n xs) : Reads ('(' :: s ++ [')']) n xs := by
  intro d ss out
  obtain ⟨out',h⟩ := h (d + 1) ss (out ++ ['('])
  have hopen : Reader.read ⟨d, .code, [], ss, out⟩ ('(' :: s) = some ⟨d + 1 + n, .code, [], ss ++ xs, out'⟩ := h
  refine ⟨out' ++ [')'], ?_⟩
  rw [read_append, hopen, Option.bind_some, Nat.add_right_comm]
  rfl

theorem escape_eq (s : Str) : escapeSeatbeltPath s =
    s.flatMap fun c => if c = '\\' then ['\\', '\\'] else if c = '"' then ['\\', '"'] else [c] := by
  rw [escapeSeatbeltPath, replaceChar, replaceChar, List.flatMap_assoc]
  refine List.flatMap_congr fun c _ => ?_
  by_cases hslash : c = '\\'
  · subst hslash
    rfl
  · rw [if_neg hslash, if_neg hslash, List.flatMap_singleton]

theorem escape_cons (c : Char) (s : Str) : escapeSeatbeltPath (c :: s) =
    (if c = '\\' then ['\\', '\\'] else if c = '"' then ['\\', '"'] else [c]) ++ escapeSeatbeltPath s := by
  rw [escape_eq, escape_eq, List.flatMap_cons]

-- Stars are no part of an escape.
theorem filter_escape (s : Str) : (escapeSeatbeltPath s).filter (· ≠ '*') = escapeSeatbeltPath (s.filter (· ≠ '*')) := by
  induction s with
  | nil => rfl
  | cons c s ih =>
    rw [escape_cons, List.filter_append, ih]
    by_cases hstar : c = '*'
    · subst hstar
      rfl
    · have hkeep : ∀ rest, (c :: rest).filter (· ≠ '*') = c :: rest.filter (· ≠ '*') := fun rest =>
        List.filter_cons_of_pos (by simpa using hstar)
      rw [hkeep, escape_cons]
      congr 1
      split
      · rfl
      · split
        · rfl
        · exact hkeep []

theorem star_mem_escape (s : Str) : '*' ∈ escapeSeatbeltPath s ↔ '*' ∈ s := by
  rw [escape_eq, List.mem_flatMap]
  constructor
  · rintro ⟨c,hmem,h⟩
    split at h
    · simp at h
    · split at h
      · simp at h
      · exact List.mem_singleton.mp h ▸ hmem
  · exact fun h => ⟨'*', h, List.mem_singleton_self _⟩

theorem read_escape (d : Nat) (pending : Str) (ss : List Str) (out s : Str) :
    Reader.read ⟨d, .string, pending, ss, out⟩ (escapeSeatbeltPath s) = some ⟨d, .string, pending ++ s, ss, out⟩ := by
  induction s generalizing pending with
  | nil =>
    rw [List.append_nil]
    rfl
  | cons c s ih =>
    have hchar : Reader.read ⟨d, .string, pending, ss, out⟩
        (if c = '\\' then ['\\', '\\'] else if c = '"' then ['\\', '"'] else [c]) =
        some ⟨d, .string, pending ++ [c], ss, out⟩ := by
      split
      · next h =>
        subst h
        rfl
      · next hslash =>
        split
        · next h =>
          subst h
          rfl
        · next hquote => simp [Reader.read, Reader.step, hslash, hquote]
    rw [escape_cons, read_append, hchar, Option.bind_some, ih, List.append_assoc]
    rfl

theorem reads_quoted (h : Reads operator 0 []) (s : Str) : Reads (quoted operator (escapeSeatbeltPath s)) 0 [s] := by
  have hliteral : Reads (" \"".toList ++ escapeSeatbeltPath s ++ ['"']) 0 [s] := by
    intro d ss out
    refine ⟨out ++ [' '] ++ ['"'], ?_⟩
    rw [read_append, read_append]
    change Option.bind (Reader.read ⟨d, .string, [], ss, out ++ [' '] ++ ['"']⟩ _) _ = _
    rw [read_escape]
    rfl
  have heq : quoted operator (escapeSeatbeltPath s) =
      '(' :: (operator ++ (" \"".toList ++ escapeSeatbeltPath s ++ ['"'])) ++ [')'] := by
    simp [quoted]
  rw [heq]
  exact (h.append hliteral).bracketed

def Parts (parts : List Str) (strings : List Str) : Prop := Reads (parts.flatMap (' ' :: ·)) 0 strings

theorem parts_nil : Parts [] [] := fun _ ss out => ⟨out, by rw [List.append_nil]; rfl⟩

theorem Parts.cons {part : Str} {parts : List Str} (h : Reads part 0 xs) (hrest : Parts parts ys) :
    Parts (part :: parts) (xs ++ ys) := by
  have hblank : Reads [' '] 0 [] := fun _ ss out => ⟨out ++ [' '], by rw [List.append_nil]; rfl⟩
  exact (hblank.append h).append hrest

theorem Parts.append {parts parts' : List Str} (h : Parts parts xs) (h' : Parts parts' ys) :
    Parts (parts ++ parts') (xs ++ ys) := by
  rw [Parts, List.flatMap_append]
  exact Reads.append h h'

theorem parts_map {α : Type} {f : α → Str} {content : α → Str} (h : ∀ a, Reads (f a) 0 [content a]) (items : List α) :
    Parts (items.map f) (items.map content) := by
  induction items with
  | nil => exact parts_nil
  | cons a items ih => exact Parts.cons (h a) ih

theorem intercalate_cons (sep : Char) (x : Str) (xs : List Str) :
    [sep].intercalate (x :: xs) = x ++ xs.flatMap (sep :: ·) := by
  induction xs generalizing x with
  | nil => simp
  | cons y xs ih => rw [List.intercalate_cons_cons, ih, List.flatMap_cons, List.append_assoc, List.singleton_append, List.cons_append]

theorem reads_clause {parts : List Str} {clause : Str} (hopening : Reads opening 1 []) (hparts : Parts parts xs)
    (h : clauseOf opening parts = some clause) : Reads clause 1 xs := by
  rw [clauseOf] at h
  split at h
  · cases h
  · cases h
    rw [intercalate_cons]
    exact (hopening.append hparts).bracketed

end Read

section Rules

variable (resolve : Str → Str) (cwd : Option Str)

def ruleStrings (rule : PolicyRule) : List Str :=
  match rule.action, rule.target with
  | .allow, .fileRead | .allow, .fileWrite =>
    rule.paths.map fun path => (normalizePath resolve path cwd).filter (· ≠ '*')
  | .allow, .networkOut => rule.addresses
  | .allow, .dnsQuery => ["53".toList]
  | .deny, .fileRead | .deny, .fileWrite | .kill, .fileRead | .kill, .fileWrite => rule.paths
  | _, _ => []

def allowTargets : List RuleTarget :=
  [.fileRead, .fileWrite, .networkOut, .networkIn, .networkBind, .processSpawn, .dnsQuery]

def denyTargets : List RuleTarget := [.fileRead, .fileWrite, .networkOut, .networkIn, .networkBind, .processSpawn]

def hasClause (rule : PolicyRule) : Bool :=
  match rule.action with
  | .allow => rule.target ∈ allowTargets
  | .deny | .kill => rule.target ∈ denyTargets
  | .trace => false

variable {resolve cwd}

theorem reads_plain {text : String} (h : ∀ d ss out, ∃ out',
    Reader.read ⟨d, .code, [], ss, out⟩ text.toList = some ⟨d, .code, [], ss, out'⟩) : Reads text.toList 0 [] := by
  intro d ss out
  obtain ⟨out',h⟩ := h d ss out
  exact ⟨out', by rw [h, List.append_nil, Nat.add_zero]⟩

theorem reads_pathFilter (path : Str) :
    Reads (pathFilter resolve cwd path) 0 [(normalizePath resolve path cwd).filter (· ≠ '*')] := by
  rw [pathFilter]
  split
  · rw [filter_escape]
    exact reads_quoted (reads_plain fun _ _ out => ⟨_, rfl⟩) _
  · next hstar =>
    rw [star_mem_escape] at hstar
    have hkeep : (normalizePath resolve path cwd).filter (· ≠ '*') = normalizePath resolve path cwd :=
      List.filter_eq_self.mpr fun c hc => decide_eq_true fun h : c = '*' => hstar (h ▸ hc)
    rw [hkeep]
    exact reads_quoted (reads_plain fun _ _ out => ⟨_, rfl⟩) _

theorem parts_plain (text : String) {parts xs : List Str} (h : ∀ d ss out, ∃ out',
    Reader.read ⟨d, .code, [], ss, out⟩ text.toList = some ⟨d, .code, [], ss, out'⟩) (hparts : Parts parts xs) :
    Parts (text.toList :: parts) xs := Parts.cons (reads_plain h) hparts

variable {rule : PolicyRule} {clause : Str}

theorem parts_allow (haction : rule.action = .allow) :
    Parts (allowParts resolve rule cwd) (ruleStrings resolve cwd rule) := by
  rw [allowParts, ruleStrings, haction]
  cases rule.target with
  | fileRead =>
    dsimp only
    split
    · next hpaths =>
      rw [hpaths]
      exact parts_plain _ (fun _ _ out => ⟨_, rfl⟩) parts_nil
    · have hdata := parts_plain "file-read-data" (fun _ _ out => ⟨_, rfl⟩)
        (parts_plain "file-read-metadata" (fun _ _ out => ⟨_, rfl⟩) parts_nil)
      have h := (parts_map (@reads_pathFilter resolve cwd) rule.paths).append hdata
      rwa [List.append_nil] at h
  | fileWrite =>
    dsimp only
    split
    · next hpaths =>
      rw [hpaths]
      exact parts_plain _ (fun _ _ out => ⟨_, rfl⟩) (parts_plain _ (fun _ _ out => ⟨_, rfl⟩) parts_nil)
    · exact parts_map reads_pathFilter rule.paths
  | networkOut =>
    refine parts_plain _ (fun _ _ out => ⟨_, rfl⟩) ?_
    have hremote : Reads "remote ip".toList 0 [] := reads_plain fun _ _ out => ⟨_, rfl⟩
    have h := parts_map (reads_quoted hremote) rule.addresses
    rwa [List.map_id'] at h
  | networkIn => exact parts_plain _ (fun _ _ out => ⟨_, rfl⟩) parts_nil
  | networkBind => exact parts_plain _ (fun _ _ out => ⟨_, rfl⟩) parts_nil
  | processSpawn => exact parts_plain _ (fun _ _ out => ⟨_, rfl⟩) (parts_plain _ (fun _ _ out => ⟨_, rfl⟩) parts_nil)
  | dnsQuery =>
    refine parts_plain _ (fun _ _ out => ⟨_, rfl⟩) ?_
    exact Parts.cons (reads_quoted (reads_plain fun _ _ out => ⟨_, rfl⟩) "53".toList) parts_nil
  | _ => exact parts_nil

theorem parts_deny (haction : rule.action = .deny ∨ rule.action = .kill) :
    Parts (denyParts rule) (ruleStrings resolve cwd rule) := by
  have hstrings : ruleStrings resolve cwd rule =
      match rule.target with
      | .fileRead | .fileWrite => rule.paths
      | _ => [] := by
    rcases haction with haction | haction
    all_goals
      rw [ruleStrings, haction]
      cases rule.target <;> rfl
  have hpaths : ∀ text : String, Reads text.toList 0 [] →
      Parts (rule.paths.map fun path => quoted text.toList (escapeSeatbeltPath path)) rule.paths := by
    intro text htext
    have h := parts_map (reads_quoted htext) rule.paths
    rwa [List.map_id'] at h
  rw [denyParts, hstrings]
  cases rule.target with
  | fileRead =>
    dsimp only
    split
    · next hempty =>
      rw [hempty]
      exact parts_plain _ (fun _ _ out => ⟨_, rfl⟩) parts_nil
    · exact hpaths "literal" (reads_plain fun _ _ out => ⟨_, rfl⟩)
  | fileWrite =>
    exact parts_plain _ (fun _ _ out => ⟨_, rfl⟩) (hpaths "subpath" (reads_plain fun _ _ out => ⟨_, rfl⟩))
  | networkOut => exact parts_plain _ (fun _ _ out => ⟨_, rfl⟩) parts_nil
  | networkIn => exact parts_plain _ (fun _ _ out => ⟨_, rfl⟩) parts_nil
  | networkBind => exact parts_plain _ (fun _ _ out => ⟨_, rfl⟩) (parts_plain _ (fun _ _ out => ⟨_, rfl⟩) parts_nil)
  | processSpawn => exact parts_plain _ (fun _ _ out => ⟨_, rfl⟩) (parts_plain _ (fun _ _ out => ⟨_, rfl⟩) parts_nil)
  | _ => exact parts_nil

theorem reads_ruleClause (h : ruleClause resolve cwd rule = some clause) : Reads clause 1 (ruleStrings resolve cwd rule) := by
  have hopening : ∀ text : String, (∀ d ss out, ∃ out',
      Reader.read ⟨d, .code, [], ss, out⟩ text.toList = some ⟨d + 1, .code, [], ss, out'⟩) → Reads text.toList 1 [] := by
    intro text htext d ss out
    obtain ⟨out',htext⟩ := htext d ss out
    exact ⟨out', by rw [htext, List.append_nil]⟩
  have hallow := hopening "(allow" fun _ _ out => ⟨_, rfl⟩
  have hdeny := hopening "(deny" fun _ _ out => ⟨_, rfl⟩
  rw [ruleClause] at h
  split at h
  · next haction => exact reads_clause hallow (parts_allow haction) h
  · next haction => exact reads_clause hdeny (parts_deny (.inl haction)) h
  · next haction => exact reads_clause hdeny (parts_deny (.inr haction)) h
  · cases h

theorem clauseOf_eq_none {opening : Str} {parts : List Str} : clauseOf opening parts = none ↔ parts = [] := by
  rw [clauseOf]
  split
  · next h => exact iff_of_true rfl h
  · next h => exact iff_of_false (fun h => (by cases h)) h

theorem allowParts_eq_nil : allowParts resolve rule cwd = [] ↔ decide (rule.target ∈ allowTargets) = false := by
  rw [allowParts]
  cases rule.target with
  | fileRead =>
    refine iff_of_false ?_ (by decide)
    dsimp only
    split
    · exact List.cons_ne_nil _ _
    · exact List.append_ne_nil_of_right_ne_nil _ (List.cons_ne_nil _ _)
  | fileWrite =>
    refine iff_of_false ?_ (by decide)
    dsimp only
    split
    · exact List.cons_ne_nil _ _
    · next hpaths => exact fun hmap => hpaths (List.map_eq_nil_iff.mp hmap)
  | networkOut => exact iff_of_false (List.cons_ne_nil _ _) (by decide)
  | networkIn => exact iff_of_false (List.cons_ne_nil _ _) (by decide)
  | networkBind => exact iff_of_false (List.cons_ne_nil _ _) (by decide)
  | processSpawn => exact iff_of_false (List.cons_ne_nil _ _) (by decide)
  | dnsQuery => exact iff_of_false (List.cons_ne_nil _ _) (by decide)
  | _ => exact iff_of_true rfl (by decide)

theorem denyParts_eq_nil : denyParts rule = [] ↔ decide (rule.target ∈ denyTargets) = false := by
  rw [denyParts]
  cases rule.target with
  | fileRead =>
    refine iff_of_false ?_ (by decide)
    dsimp only
    split
    · exact List.cons_ne_nil _ _
    · next hpaths => exact fun hmap => hpaths (List.map_eq_nil_iff.mp hmap)
  | fileWrite => exact iff_of_false (List.cons_ne_nil _ _) (by decide)
  | networkOut => exact iff_of_false (List.cons_ne_nil _ _) (by decide)
  | networkIn => exact iff_of_false (List.cons_ne_nil _ _) (by decide)
  | networkBind => exact iff_of_false (List.cons_ne_nil _ _) (by decide)
  | processSpawn => exact iff_of_false (List.cons_ne_nil _ _) (by decide)
  | _ => exact iff_of_true rfl (by decide)

theorem ruleClause_eq_none : ruleClause resolve cwd rule = none ↔ hasClause rule = false := by
  rw [ruleClause, hasClause]
  cases rule.action with
  | allow => exact clauseOf_eq_none.trans allowParts_eq_nil
  | deny => exact clauseOf_eq_none.trans denyParts_eq_nil
  | kill => exact clauseOf_eq_none.trans denyParts_eq_nil
  | trace => exact iff_of_true rfl rfl

theorem ruleStrings_of_not_hasClause (h : hasClause rule = false) : ruleStrings resolve cwd rule = [] := by
  rw [hasClause] at h
  rw [ruleStrings]
  revert h
  cases rule.action <;> cases rule.target <;> first | exact fun _ => rfl | exact fun h => absurd h (by decide)

variable {rules : List PolicyRule}

theorem reads_rules (rules : List PolicyRule) :
    Reads ((rules.filterMap (ruleClause resolve cwd)).flatMap ('\n' :: ·))
      (rules.filterMap (ruleClause resolve cwd)).length (rules.flatMap (ruleStrings resolve cwd)) := by
  induction rules with
  | nil => exact fun _ ss out => ⟨out, by rw [List.flatMap_nil, List.append_nil]; rfl⟩
  | cons rule rules ih =>
    rw [List.flatMap_cons]
    cases hclause : ruleClause resolve cwd rule with
    | none =>
      rw [List.filterMap_cons_none hclause, ruleStrings_of_not_hasClause (ruleClause_eq_none.mp hclause)]
      exact ih
    | some clause =>
      have hbreak : Reads ['\n'] 0 [] := fun _ ss out => ⟨out ++ ['\n'], by rw [List.append_nil]; rfl⟩
      have h := (hbreak.append (reads_ruleClause hclause)).append ih
      rw [List.filterMap_cons_some hclause, List.flatMap_cons, List.length_cons, Nat.add_comm]
      rwa [Nat.zero_add] at h

end Rules

section Profile

variable (resolve : Str → Str) (policy : Policy) (cwd : Option Str)

def WellFormed : Prop :=
  ∃ outside, Reader.read {} (generateProfile resolve policy cwd) =
    some { strings := policy.rules.flatMap (ruleStrings resolve cwd), outside := outside }

def operation : RuleTarget → Str
  | .fileRead => "file-read".toList
  | _ => "file-write".toList

def NamesPaths (rule : PolicyRule) : Prop :=
  ∃ clause ∈ profileLines resolve policy cwd, ∃ outside,
    Reader.read {} clause = some { strings := ruleStrings resolve cwd rule, outside := outside } ∧
      operation rule.target <:+: outside

structure Enforces : Prop where
  wellFormed : WellFormed resolve policy cwd
  default : policy.defaultAction.denies = true → "(version 1)\n(deny default)".toList <+: generateProfile resolve policy cwd
  rules : ∀ rule ∈ policy.rules, rule.action = .allow ∨ rule.action = .deny →
    rule.target = .fileRead ∨ rule.target = .fileWrite → rule.paths ≠ [] → NamesPaths resolve policy cwd rule

variable {resolve policy cwd}

theorem generateProfile_eq : generateProfile resolve policy cwd =
    "(version 1)".toList ++ '\n' :: defaultClause policy ++
      (policy.rules.filterMap (ruleClause resolve cwd)).flatMap ('\n' :: ·) := by
  rw [generateProfile, profileLines, intercalate_cons, List.flatMap_cons, ← List.append_assoc]

theorem read_profile : ∃ outside, Reader.read {} (generateProfile resolve policy cwd) =
    some { depth := (policy.rules.filterMap (ruleClause resolve cwd)).length,
           strings := policy.rules.flatMap (ruleStrings resolve cwd), outside := outside } := by
  have hhead : Reads ("(version 1)".toList ++ '\n' :: defaultClause policy) 0 [] := by
    rw [defaultClause]
    split
    · exact fun _ ss out => ⟨_, by rw [List.append_nil]; rfl⟩
    · exact fun _ ss out => ⟨_, by rw [List.append_nil]; rfl⟩
  obtain ⟨outside,h⟩ := hhead.append (@reads_rules resolve cwd policy.rules) 0 [] []
  rw [generateProfile_eq]
  rw [Nat.zero_add, Nat.zero_add] at h
  exact ⟨outside, h⟩

theorem wellFormed_iff : WellFormed resolve policy cwd ↔ ∀ rule ∈ policy.rules, hasClause rule = false := by
  obtain ⟨outside,h⟩ := @read_profile resolve policy cwd
  have hnone : policy.rules.filterMap (ruleClause resolve cwd) = [] ↔ ∀ rule ∈ policy.rules, hasClause rule = false := by
    rw [List.filterMap_eq_nil_iff]
    exact forall₂_congr fun rule _ => ruleClause_eq_none
  rw [← hnone, WellFormed, h]
  constructor
  · rintro ⟨outside',heq⟩
    exact List.length_eq_zero_iff.mp (congrArg Reader.depth (Option.some.inj heq))
  · intro hempty
    exact ⟨outside, by rw [hempty]; rfl⟩

theorem hasClause_of_file {rule : PolicyRule} (haction : rule.action = .allow ∨ rule.action = .deny)
    (htarget : rule.target = .fileRead ∨ rule.target = .fileWrite) : hasClause rule = true := by
  rw [hasClause]
  rcases haction with haction | haction <;> rcases htarget with htarget | htarget <;> rw [haction, htarget] <;> rfl

theorem seatbelt_enforces_iff (resolve : Str → Str) (policy : Policy) (cwd : Option Str) :
    Enforces resolve policy cwd ↔
      policy.defaultAction ≠ .kill ∧ ∀ rule ∈ policy.rules, hasClause rule = false := by
  constructor
  · intro h
    refine ⟨fun hkill => ?_, wellFormed_iff.mp h.wellFormed⟩
    have hprefix := h.default (by rw [hkill]; rfl)
    rw [generateProfile_eq, defaultClause, hkill, if_neg (by decide)] at hprefix
    obtain ⟨rest,heq⟩ := hprefix
    have hchar := congrArg (fun s => s[13]?) heq
    cases hchar
  · rintro ⟨hkill,hrules⟩
    refine ⟨wellFormed_iff.mpr hrules, fun hdenies => ?_, fun rule hmem haction htarget _ => ?_⟩
    · have hdeny : policy.defaultAction = .deny := by
        revert hdenies hkill
        cases policy.defaultAction <;> decide
      rw [generateProfile_eq, defaultClause, if_pos hdeny]
      exact List.prefix_append _ _
    · cases (hrules rule hmem).symm.trans (hasClause_of_file haction htarget)

def writeTmp : PolicyRule where
  ruleId := "R1".toList
  target := .fileWrite
  action := .allow
  paths := ["/tmp".toList]

-- The clause of the rule has a bracket too many and names no operation, and the default of a policy that kills is to allow.
theorem profile_open_and_allowing :
    generateProfile id { name := "kill".toList, defaultAction := .kill, rules := [writeTmp] } none =
      "(version 1)\n(allow default)\n((allow (literal \"/tmp\"))".toList ∧
    ¬Enforces id { name := "kill".toList, defaultAction := .kill, rules := [writeTmp] } none ∧
    ¬WellFormed id { name := "strict".toList, rules := [writeTmp] } none := by
  refine ⟨by decide +kernel, fun h => ?_, ?_⟩
  · have hread := wellFormed_iff.mp h.wellFormed writeTmp (List.mem_singleton_self _)
    cases hread
  · rintro h
    have hread := wellFormed_iff.mp h writeTmp (List.mem_singleton_self _)
    cases hread

end Profile

end PicoSentry.Sandbox.Seatbelt
