import PicoSentry.Sandbox.PolicyStoreRuns

namespace PicoSentry.Sandbox.PolicyStore

open Foundation Foundation.Run

section Signed

variable {env : Env} {files : Files} {pv : PolicyVersion} {c name name' file text timestamp : Str}
  {version : VersionNumber} {n : Int}

theorem verify_signature (mac : Str → Str) (c timestamp file : Str) :
    verifyPolicyCompanion env mac (.text c) (.text (signature mac c timestamp file)) = .ok true := by
  have hheld : Json.Held env.repr (.obj (.ofList
      [("algorithm".toList, .str "hmac-sha256".toList), ("signature".toList, .str (mac c)),
       ("timestamp".toList, .str timestamp), ("key_id".toList, .str "default".toList),
       ("policy_file".toList, .str file)])) := by
    refine Json.held_ofList (show ["algorithm".toList, "signature".toList, "timestamp".toList,
      "key_id".toList, "policy_file".toList].Nodup by decide) ?_
    simp only [List.forall_mem_cons]
    exact ⟨Json.held_str _, Json.held_str _, Json.held_str _, Json.held_str _, Json.held_str _,
      fun _ he => absurd he List.not_mem_nil⟩
  rw [verifyPolicyCompanion, signature, hheld.parse_line]
  dsimp only
  rw [asDict, Json.toList_ofList]
  exact congrArg Except.ok (decide_eq_true rfl)

def Signed (env : Env) (files : Files) (name file c : Str) : Prop :=
  match env.key with
  | none => Dict.get? files (name, companion file) = none
  | some mac => ∃ timestamp, Dict.get? files (name, companion file) =
      some (.text (signature mac c timestamp file))

theorem loadFile_signed (hplain : Plain env pv) (htext : IsText pv c)
    (hsigned : Signed env files name file c) :
    loadFile env files name file (.text c) = .ok (some pv) := by
  have hverify : verifyCompanion env (.text c) (Dict.get? files (name, companion file)) =
      .ok true := by
    rw [verifyCompanion.eq_def]
    rw [Signed] at hsigned
    cases hkey : env.key with
    | none =>
      rw [hkey] at hsigned
      rw [hsigned]
    | some mac =>
      rw [hkey] at hsigned
      obtain ⟨timestamp,hsig⟩ := hsigned
      rw [hsig]
      exact verify_signature mac c timestamp file
  rw [loadFile, bind_of_eq_ok hverify, if_pos rfl]
  exact readVersionFile_text hplain htext

theorem isVersionFile_last {file : Str} (h : isVersionFile file = true) :
    file.getLast? = some 'n' ∧ file ≠ latestFile := by
  simp only [isVersionFile, Bool.and_eq_true, decide_eq_true_eq] at h
  obtain ⟨⟨-,start,rfl⟩,hlatest⟩ := h
  have hne : ".json".toList ≠ [] := by decide
  rw [List.getLast?_append_of_ne_nil _ hne]
  exact ⟨rfl, hlatest⟩

theorem get?_written_version (h : isVersionFile file = true) :
    Dict.get? (writeVersion env files name version text timestamp) (name', file) =
      if name' = name ∧ file = version.file then some (.text text)
      else Dict.get? files (name', file) := by
  obtain ⟨hlast,hlatest⟩ := isVersionFile_last h
  have hne : ∀ file', file ≠ companion file' := by
    rintro file' rfl
    have hsig : ".sig".toList ≠ [] := by decide
    rw [companion, List.getLast?_append_of_ne_nil _ hsig] at hlast
    exact absurd hlast (by decide)
  rw [writeVersion]
  cases env.key with
  | none => simp [get?_pair, hlatest]
  | some mac => simp [get?_pair, hlatest, hne]

theorem get?_written_unsigned (hkey : env.key = none) :
    Dict.get? (writeVersion env files name version text timestamp) (name', companion file) =
      Dict.get? files (name', companion file) := by
  have hversion : companion file ≠ version.file := companion_ne_of_last (last_file version)
  have hlatest : companion file ≠ latestFile := companion_ne (.inl rfl)
  rw [writeVersion, hkey]
  simp [get?_pair, hversion, hlatest]

theorem signed_written (hunsigned : env.key = none → Dict.get? files (name, companion file) = none)
    (hfresh : Fresh name version name file) :
    Signed env (writeVersion env files name version text timestamp) name file text := by
  rw [Signed]
  cases hkey : env.key with
  | none => exact (get?_written_unsigned hkey).trans (hunsigned hkey)
  | some mac => exact ⟨timestamp, get?_written_signature hkey hfresh⟩

theorem load_signed (hname : validName name = true) (hplain : Plain env pv) (htext : IsText pv c)
    {asked : Option Int}
    (hget : Dict.get? files (name, asked.elim latestFile versionFile) = some (.text c))
    (hsigned : Signed env files name (asked.elim latestFile versionFile) c) :
    load env files name asked = .ok (some pv) := by
  have hvalid : validatePolicyName name = .ok () := if_pos hname
  cases asked with
  | none =>
    dsimp only [Option.elim] at hget
    rw [load, bind_of_eq_ok hvalid, hget]
    exact loadFile_signed hplain htext hsigned
  | some n =>
    dsimp only [Option.elim] at hget
    rw [load, bind_of_eq_ok hvalid, hget]
    exact loadFile_signed hplain htext hsigned

theorem load_congr {files' : Files}
    (hget : Dict.get? files' (name, versionFile n) = Dict.get? files (name, versionFile n))
    (hsig : Dict.get? files' (name, companion (versionFile n)) =
      Dict.get? files (name, companion (versionFile n))) :
    load env files' name (some n) = load env files name (some n) := by
  simp only [load, loadFile, hget, hsig]

end Signed

section Histories

variable {env : Env} {w w' : World} {es : List PolicyVersion} {name : Str} {n m : Int}
  {pv q : PolicyVersion}

def Named (pv : PolicyVersion) (name : Str) (n : Int) : Prop :=
  pv.policy.name = .str name ∧ pv.version = .int n

def savedUnder (name : Str) (pv : PolicyVersion) : Bool :=
  match pv.policy.name with
  | .str s => s = name
  | _ => false

def Reads (env : Env) (content : FileContent) : Prop :=
  ∃ pv, readVersionFile env content = .ok (some pv)

def Damages (env : Env) (w : World) : Step → Prop
  | .write name file content =>
    (Dict.get? w.files (name, file)).isSome ∧ (Loadable file → ¬Reads env content)
  | .remove _ _ => False
  | _ => True

def Listable (env : Env) (files : Files) (name : Str) : Prop :=
  ∀ file content, ((name, file), content) ∈ files → isVersionFile file = true →
    ∃ r, readVersionFile env content = .ok r

def NewestCounted (env : Env) (w : World) (name : Str) : Prop :=
  ∀ pv n content, (w.produced.filter (savedUnder name)).getLast? = some pv → Named pv name n →
    Dict.get? w.files (name, versionFile n) = some content → readVersionFile env content ≠ .ok none

def Counted (env : Env) (w : World) : Step → Prop
  | .save policy _ _ _ => Listable env w.files policy.name → NewestCounted env w policy.name
  | .rollback name version _ _ =>
    ∀ target, load env w.files name (some version) = .ok (some target) →
      Listable env w.files name ∧ NewestCounted env w name
  | _ => True

def Increasing (produced : List PolicyVersion) : Prop :=
  produced.Pairwise fun p q => ∀ name n m, Named p name n → Named q name m → n < m

structure History (env : Env) (w : World) : Prop where
  plain : ∀ pv ∈ w.produced, Plain env pv
  numbered : ∀ pv ∈ w.produced, ∃ n, pv.version = .int n
  valid : ∀ pv ∈ w.produced, ∀ name, pv.policy.name = .str name → validName name = true
  increasing : Increasing w.produced
  nodup : (Dict.keys w.files).Nodup
  kept : ∀ pv ∈ w.produced, ∀ name n, Named pv name n → ∃ content,
    Dict.get? w.files (name, versionFile n) = some content ∧
      ((∃ c, content = .text c ∧ IsText pv c) ∨ ¬Reads env content)
  only : ∀ name file content, Dict.get? w.files (name, file) = some content →
    isVersionFile file = true → ∃ pv ∈ w.produced, ∃ n, Named pv name n ∧ file = versionFile n
  unsigned : env.key = none → ∀ name file, Loadable file →
    Dict.get? w.files (name, companion file) = none

theorem Named.unique {name' : Str} (h : Named pv name n) (h' : Named pv name' m) :
    name = name' ∧ n = m :=
  ⟨Json.str.inj (h.1.symm.trans h'.1), Json.int.inj (h.2.symm.trans h'.2)⟩

theorem savedUnder_iff (h : Plain env pv) (hnumbered : ∃ n, pv.version = .int n) (name : Str) :
    savedUnder name pv = true ↔ ∃ n, Named pv name n := by
  obtain ⟨n,hn⟩ := hnumbered
  obtain ⟨p,_,_,_,_,_,-,rfl⟩ := h
  constructor
  · intro hsaved
    exact ⟨n, congrArg Json.str (of_decide_eq_true hsaved), hn⟩
  · rintro ⟨m,hname,-⟩
    exact decide_eq_true (Json.str.inj hname)

theorem listVersions_isOk {files : Files} :
    (∃ pvs, listVersions env files name = .ok pvs) ↔ Listable env files name := by
  have hlistable : Listable env files name ↔
      ∀ e ∈ (ascending Prod.fst (directory files name)).filter fun e => isVersionFile e.1,
        ∃ r, readVersionFile env e.2 = .ok r := by
    simp only [Listable, Prod.forall, mem_versionFiles, and_imp]
  rw [hlistable, ← mapM_isOk]
  constructor
  · rintro ⟨pvs,h⟩
    obtain ⟨found,hfound,-⟩ := bind_eq_ok.mp h
    exact ⟨found, hfound⟩
  · rintro ⟨found,hfound⟩
    exact ⟨_, by rw [listVersions, bind_of_eq_ok hfound]; rfl⟩

theorem listable_of_next {files : Files} {version : VersionNumber}
    (h : nextVersion env files name = .ok version) :
    Listable env files name := by
  obtain ⟨pvs,hlist,-⟩ := bind_eq_ok.mp h
  exact listVersions_isOk.mp ⟨pvs, hlist⟩

theorem History.read {content : FileContent} {found : PolicyVersion} (h : History env w)
    (hget : Dict.get? w.files (name, versionFile n) = some content)
    (hread : readVersionFile env content = .ok (some found)) :
    found ∈ w.produced ∧ Named found name n := by
  obtain ⟨pv,hpv,m,hnamed,hfile⟩ := h.only name _ content hget (isVersionFile_versionFile n)
  obtain rfl := versionFile_inj hfile
  obtain ⟨content',hget',hkept⟩ := h.kept pv hpv name n hnamed
  cases hget.symm.trans hget'
  rcases hkept with ⟨c,rfl,htext⟩ | hnot
  · rw [readVersionFile_text (h.plain pv hpv) htext] at hread
    cases hread
    exact ⟨hpv, hnamed⟩
  · exact absurd ⟨found, hread⟩ hnot

theorem History.listed {pvs : List PolicyVersion} (h : History env w)
    (hlist : listVersions env w.files name = .ok pvs) (hpv : pv ∈ pvs) :
    pv ∈ w.produced ∧ ∃ n, Named pv name n := by
  obtain ⟨file,content,hmem,hfile,hread⟩ := (mem_listVersions hlist).mp hpv
  have hget := Dict.get?_of_mem h.nodup hmem
  obtain ⟨-,-,n,-,rfl⟩ := h.only name file content hget hfile
  obtain ⟨hproduced,hnamed⟩ := h.read hget hread
  exact ⟨hproduced, n, hnamed⟩

theorem greater_int (n m : Int) : greater env (.int n) (.int m) = .ok (decide (m < n)) := by
  simp [greater, number, Number.lt]

theorem greatest_cons_int {best pv : PolicyVersion} {b k : Int} (hb : best.version = .int b)
    (hk : pv.version = .int k) (pvs : List PolicyVersion) :
    ∃ c, greatest env best (pv :: pvs) = greatest env c pvs ∧ c.version = .int (max b k) := by
  have hgreater : greater env pv.version best.version = .ok (decide (b < k)) := by
    rw [hk, hb]
    exact greater_int k b
  rw [greatest, bind_of_eq_ok hgreater]
  rcases lt_or_ge b k with hlt | hle
  · exact ⟨pv, if_pos (decide_eq_true hlt), by rw [hk, max_eq_right hlt.le]⟩
  · exact ⟨best, if_neg (by simpa using hle), by rw [hb, max_eq_left hle]⟩

theorem greatest_int {best : PolicyVersion} {pvs : List PolicyVersion}
    (h : ∀ pv ∈ best :: pvs, ∃ n, pv.version = .int n) :
    ∃ top n, greatest env best pvs = .ok top ∧ top.version = .int n ∧
      ∀ pv ∈ best :: pvs, ∀ m, pv.version = .int m → m ≤ n := by
  induction pvs generalizing best with
  | nil =>
    obtain ⟨n,hn⟩ := h best List.mem_cons_self
    refine ⟨best, n, rfl, hn, fun pv hpv m hm => ?_⟩
    obtain rfl := List.mem_singleton.mp hpv
    exact (Json.int.inj (hm.symm.trans hn)).le
  | cons pv pvs ih =>
    obtain ⟨⟨b,hb⟩,hmore⟩ := List.forall_mem_cons.mp h
    obtain ⟨⟨k,hk⟩,htail⟩ := List.forall_mem_cons.mp hmore
    obtain ⟨c,hstep,hc⟩ := @greatest_cons_int env best pv b k hb hk pvs
    obtain ⟨top,n,hgreatest,htop,hall⟩ := @ih c (List.forall_mem_cons.mpr ⟨⟨_, hc⟩, htail⟩)
    obtain ⟨hmax,hrest⟩ := List.forall_mem_cons.mp hall
    have hle : max b k ≤ n := hmax (max b k) hc
    refine ⟨top, n, hstep.trans hgreatest, htop, List.forall_mem_cons.mpr
      ⟨fun m hm => ?_, List.forall_mem_cons.mpr ⟨fun m hm => ?_, hrest⟩⟩⟩
    · obtain rfl := Json.int.inj (hm.symm.trans hb)
      exact (le_max_left _ _).trans hle
    · obtain rfl := Json.int.inj (hm.symm.trans hk)
      exact (le_max_right _ _).trans hle

theorem History.next_above {pvs : List PolicyVersion} (h : History env w)
    (hlist : listVersions env w.files name = .ok pvs) : ∃ n,
      nextVersion env w.files name = .ok (.int n) ∧ ∀ pv ∈ pvs, ∀ m, pv.version = .int m → m < n := by
  have hnumbered : ∀ pv ∈ pvs, ∃ n, pv.version = .int n := fun pv hpv =>
    h.numbered pv (h.listed hlist hpv).1
  rw [nextVersion, bind_of_eq_ok hlist]
  cases pvs with
  | nil => exact ⟨1, rfl, fun _ hpv => absurd hpv List.not_mem_nil⟩
  | cons first pvs =>
    obtain ⟨top,n,hgreatest,htop,hall⟩ := @greatest_int env _ _ hnumbered
    refine ⟨n + 1, ?_, fun pv hpv m hm => Int.lt_add_one_of_le (hall pv hpv m hm)⟩
    dsimp only
    rw [bind_of_eq_ok hgreatest, htop]
    rfl

theorem History.next_isOk (h : History env w) (hlistable : Listable env w.files name) :
    ∃ n, nextVersion env w.files name = .ok (.int n) := by
  obtain ⟨pvs,hlist⟩ := listVersions_isOk.mpr hlistable
  obtain ⟨n,hnext,-⟩ := h.next_above hlist
  exact ⟨n, hnext⟩

theorem last_of_pairwise {α : Type} {R : α → α → Prop} {xs : List α} {x t : α}
    (h : xs.Pairwise R) (hlast : xs.getLast? = some t) (hx : x ∈ xs) : x = t ∨ R x t := by
  obtain ⟨init,rfl⟩ := List.getLast?_eq_some_iff.mp hlast
  obtain ⟨-,-,hcross⟩ := List.pairwise_append.mp h
  rcases List.mem_append.mp hx with hx | hx
  · exact .inr (hcross x hx t List.mem_cons_self)
  · exact .inl (List.mem_singleton.mp hx)

theorem History.next (h : History env w) (hcounted : NewestCounted env w name)
    (hnext : nextVersion env w.files name = .ok (.int n)) (hq : q ∈ w.produced)
    (hm : Named q name m) : m < n := by
  obtain ⟨pvs,hlist⟩ := listVersions_isOk.mpr (listable_of_next hnext)
  obtain ⟨n',hnext',habove⟩ := h.next_above hlist
  obtain rfl : n' = n := VersionNumber.int.inj (Except.ok.inj (hnext'.symm.trans hnext))
  have hmem : q ∈ w.produced.filter (savedUnder name) :=
    List.mem_filter.mpr ⟨hq, (savedUnder_iff (h.plain q hq) (h.numbered q hq) name).mpr ⟨m, hm⟩⟩
  obtain ⟨top,htop⟩ : ∃ top, (w.produced.filter (savedUnder name)).getLast? = some top :=
    ⟨_, List.getLast?_eq_some_getLast (List.ne_nil_of_mem hmem)⟩
  obtain ⟨htopmem,htopsaved⟩ := List.mem_filter.mp (List.mem_of_getLast? htop)
  obtain ⟨k,hk⟩ := (savedUnder_iff (h.plain top htopmem) (h.numbered top htopmem) name).mp htopsaved
  have hle : m ≤ k := by
    rcases last_of_pairwise (h.increasing.sublist List.filter_sublist) htop hmem with rfl | hlt
    · exact (hm.unique hk).2.le
    · exact (hlt name m k hm hk).le
  obtain ⟨content,hget,hkept⟩ := h.kept top htopmem name k hk
  have hfile := Dict.mem_of_get? hget
  have hread : readVersionFile env content = .ok (some top) := by
    rcases hkept with ⟨c,rfl,htext⟩ | hnot
    · exact readVersionFile_text (h.plain top htopmem) htext
    · obtain ⟨r,hr⟩ := listable_of_next hnext _ content hfile (isVersionFile_versionFile k)
      cases r with
      | none => exact absurd hr (hcounted top k content htop hk hget)
      | some found => exact absurd ⟨found, hr⟩ hnot
  have hlisted : top ∈ pvs :=
    (mem_listVersions hlist).mpr ⟨_, content, hfile, isVersionFile_versionFile k, hread⟩
  exact hle.trans_lt (habove top hlisted k hk.2)

structure Appended (env : Env) (w : World) (p : Policy) (timestamp : Str) (files : Files)
    (pv : PolicyVersion) (n : Int) (text : Str) : Prop where
  name : validName p.name = true
  policy : pv.policy = .ofPolicy p
  version : pv.version = .int n
  plain : Plain env pv
  isText : IsText pv text
  files : files = writeVersion env w.files p.name (.int n) text timestamp
  above : ∀ q ∈ w.produced, ∀ m, Named q p.name m → m < n

theorem History.appended (h : History env w) {p : Policy} {files : Files}
    {author changeDescription timestamp : Str}
    (hcounted : Listable env w.files p.name → NewestCounted env w p.name)
    (hsave : save env w.files (.ofPolicy p) author changeDescription timestamp = .ok (files, pv)) :
    ∃ n text, Appended env w p timestamp files pv n text := by
  obtain ⟨name,version,text,hname,hnext,hpolicy,hversion,htext,hfiles⟩ := saved_of_save hsave
  obtain ⟨heq,hvalid⟩ := policyName_ok hname
  obtain rfl := Json.str.inj heq
  obtain ⟨n,hn⟩ := h.next_isOk (listable_of_next hnext)
  obtain rfl := Except.ok.inj (hnext.symm.trans hn)
  exact ⟨n, text,
    { name := hvalid
      policy := hpolicy
      version := hversion
      plain := plain_of_save hsave
      isText := htext
      files := hfiles
      above := fun q hq m hm => h.next (hcounted (listable_of_next hnext)) hnext hq hm }⟩

section Appending

variable {p : Policy} {files : Files} {text timestamp : Str}

theorem Appended.named (a : Appended env w p timestamp files pv n text) : Named pv p.name n :=
  ⟨congrArg StoredPolicy.name a.policy, a.version⟩

theorem Appended.fresh (a : Appended env w p timestamp files pv n text) (h : History env w) :
    Dict.get? w.files (p.name, versionFile n) = none := by
  cases hget : Dict.get? w.files (p.name, versionFile n) with
  | none => rfl
  | some content =>
    obtain ⟨q,hq,m,hnamed,hfile⟩ := h.only p.name _ content hget (isVersionFile_versionFile n)
    obtain rfl := versionFile_inj hfile
    exact absurd (a.above q hq n hnamed) (lt_irrefl n)

theorem Appended.get?_version (a : Appended env w p timestamp files pv n text) (name : Str) (m : Int) :
    Dict.get? files (name, versionFile m) =
      if name = p.name ∧ m = n then some (.text text) else Dict.get? w.files (name, versionFile m) := by
  rw [a.files, get?_written_version (isVersionFile_versionFile m)]
  have hfile : versionFile m = (VersionNumber.int n).file ↔ m = n :=
    ⟨versionFile_inj, congrArg versionFile⟩
  simp only [hfile]

theorem Appended.loads (a : Appended env w p timestamp files pv n text) (h : History env w)
    {asked : Option Int} (hasked : asked = none ∨ asked = some n) :
    load env files p.name asked = .ok (some pv) := by
  have hloadable : Loadable (asked.elim latestFile versionFile) := by
    rcases hasked with rfl | rfl
    · exact .inl rfl
    · exact .inr ⟨n, rfl⟩
  have hfresh : Fresh p.name (.int n) p.name (asked.elim latestFile versionFile) := by
    rcases hasked with rfl | rfl
    · exact ⟨rfl, .inr rfl⟩
    · exact ⟨rfl, .inl rfl⟩
  rw [a.files]
  exact load_signed a.name a.plain a.isText (get?_written_fresh hloadable hfresh)
    (signed_written (fun hkey => h.unsigned hkey _ _ hloadable) hfresh)

theorem Appended.history (a : Appended env w p timestamp files pv n text) (h : History env w) :
    History env ⟨files, w.produced ++ [pv]⟩ := by
  have hall : ∀ {P : PolicyVersion → Prop}, (∀ q ∈ w.produced, P q) → P pv →
      ∀ q ∈ w.produced ++ [pv], P q := fun hold hnew => List.forall_mem_append.mpr
    ⟨hold, List.forall_mem_singleton.mpr hnew⟩
  refine ⟨hall h.plain a.plain, hall h.numbered ⟨n, a.version⟩, hall h.valid ?_, ?_, ?_,
    hall ?_ ?_, ?_, ?_⟩
  · intro name hname
    obtain rfl := Json.str.inj (hname.symm.trans a.named.1)
    exact a.name
  · refine List.pairwise_append.mpr ⟨h.increasing, List.pairwise_singleton _ _, fun q hq r hr => ?_⟩
    obtain rfl := List.mem_singleton.mp hr
    intro name m k hm hk
    obtain ⟨rfl,rfl⟩ := hk.unique a.named
    exact a.above q hq m hm
  · rw [a.files, writeVersion]
    cases env.key with
    | none => exact Dict.keys_set_nodup (Dict.keys_set_nodup h.nodup _ _) _ _
    | some mac =>
      exact Dict.keys_set_nodup (Dict.keys_set_nodup (Dict.keys_set_nodup
        (Dict.keys_set_nodup h.nodup _ _) _ _) _ _) _ _
  · intro q hq name m hm
    obtain ⟨content,hget,hkept⟩ := h.kept q hq name m hm
    refine ⟨content, ?_, hkept⟩
    rw [a.get?_version, if_neg, hget]
    rintro ⟨rfl,rfl⟩
    exact absurd (a.above q hq m hm) (lt_irrefl m)
  · intro name m hm
    obtain ⟨rfl,rfl⟩ := hm.unique a.named
    exact ⟨.text text, by rw [a.get?_version, if_pos ⟨rfl, rfl⟩], .inl ⟨text, rfl, a.isText⟩⟩
  · intro name file content hget hfile
    dsimp only at hget
    rw [a.files, get?_written_version hfile] at hget
    split at hget
    · next heq =>
      obtain ⟨rfl,rfl⟩ := heq
      exact ⟨pv, List.mem_append_right _ List.mem_cons_self, n, a.named, rfl⟩
    · obtain ⟨q,hq,m,hm,rfl⟩ := h.only name file content hget hfile
      exact ⟨q, List.mem_append_left _ hq, m, hm, rfl⟩
  · intro hkey name file hfile
    dsimp only
    rw [a.files, get?_written_unsigned hkey]
    exact h.unsigned hkey name file hfile

end Appending

def Touches (s : Step) (name : Str) (n : Int) : Prop :=
  ∃ file content, s = .write name file content ∧
    (file = versionFile n ∨ file = companion (versionFile n))

structure Appends (env : Env) (w : World) (s : Step) (w' : World) (made : List PolicyVersion) :
    Prop where
  fresh : ∀ pv ∈ made, ∃ name n, Named pv name n ∧ Dict.get? w.files (name, versionFile n) = none ∧
    (∀ q ∈ w.produced, ∀ m, Named q name m → m < n) ∧
      load env w'.files name (some n) = .ok (some pv)
  kept : ∀ name n, (Dict.get? w.files (name, versionFile n)).isSome → ¬Touches s name n →
    Dict.get? w'.files (name, versionFile n) = Dict.get? w.files (name, versionFile n) ∧
      load env w'.files name (some n) = load env w.files name (some n)
  saved : ∀ p author changeDescription timestamp, s = .save p author changeDescription timestamp →
    (∀ pv ∈ made, pv.policy = .ofPolicy p) ∧
      (validName p.name = true → Listable env w.files p.name → made ≠ [])
  rolledBack : ∀ name version author timestamp, s = .rollback name version author timestamp →
    ∀ target, load env w.files name (some version) = .ok (some target) →
      target ∈ w.produced ∧ Named target name version ∧ ∃ pv, made = [pv] ∧
        pv.policy = target.policy ∧ load env w'.files name none = .ok (some pv)

theorem Appended.freshVersion {p : Policy} {files : Files} {text timestamp : Str}
    (a : Appended env w p timestamp files pv n text) (h : History env w) :
    ∀ v ∈ [pv], ∃ name n, Named v name n ∧ Dict.get? w.files (name, versionFile n) = none ∧
      (∀ q ∈ w.produced, ∀ m, Named q name m → m < n) ∧
        load env files name (some n) = .ok (some v) :=
  List.forall_mem_singleton.mpr
    ⟨p.name, n, a.named, a.fresh h, a.above, a.loads h (.inr rfl)⟩

theorem Appended.kept {p : Policy} {files : Files} {text timestamp : Str}
    (a : Appended env w p timestamp files pv n text) (h : History env w)
    (hsome : (Dict.get? w.files (name, versionFile m)).isSome) :
    Dict.get? files (name, versionFile m) = Dict.get? w.files (name, versionFile m) ∧
      load env files name (some m) = load env w.files name (some m) := by
  have hfresh : ¬Fresh p.name (.int n) name (versionFile m) := by
    rintro ⟨rfl,hfile | hfile⟩
    · obtain rfl := versionFile_inj hfile
      rw [a.fresh h] at hsome
      cases hsome
    · exact file_ne_latest (.int m) hfile
  obtain ⟨hget,hsig⟩ := @get?_written_other env w.files p.name name (versionFile m) text timestamp (.int n)
    (.inr ⟨m, rfl⟩) hfresh
  rw [← a.files] at hget hsig
  exact ⟨hget, load_congr hget hsig⟩

theorem History.target {target : PolicyVersion} (h : History env w)
    (hload : load env w.files name (some n) = .ok (some target)) :
    target ∈ w.produced ∧ Named target name n ∧ ∃ p : Policy, target.policy = .ofPolicy p ∧
      p.name = name ∧ validName p.name = true := by
  obtain ⟨content,hget,hfile⟩ := load_version hload
  obtain ⟨hmem,hnamed⟩ := h.read hget (loadFile_ok hfile).2
  have hvalid := h.valid target hmem name hnamed.1
  obtain ⟨p,_,_,_,_,_,-,rfl⟩ := h.plain target hmem
  obtain rfl := Json.str.inj hnamed.1
  exact ⟨hmem, hnamed, p, rfl, rfl, hvalid⟩

theorem History.saves (h : History env w) {p : Policy} (hname : validName p.name = true)
    (hlistable : Listable env w.files p.name) (author changeDescription timestamp : Str) :
    ∃ r, save env w.files (.ofPolicy p) author changeDescription timestamp = .ok r := by
  obtain ⟨n,hnext⟩ := h.next_isOk hlistable
  exact ⟨_, save_ofPolicy hname hnext⟩

theorem History.damaged {file : Str} {content : FileContent} (h : History env w)
    (hsome : (Dict.get? w.files (name, file)).isSome) (hnot : Loadable file → ¬Reads env content) :
    History env ⟨w.files.set (name, file) content, w.produced⟩ where
  plain := h.plain
  numbered := h.numbered
  valid := h.valid
  increasing := h.increasing
  nodup := Dict.keys_set_nodup h.nodup _ _
  kept := by
    intro pv hpv name' n hnamed
    obtain ⟨old,hget,hkept⟩ := h.kept pv hpv name' n hnamed
    dsimp only
    rw [get?_pair]
    split
    · next heq => exact ⟨content, rfl, .inr (hnot (heq.2 ▸ .inr ⟨n, rfl⟩))⟩
    · exact ⟨old, hget, hkept⟩
  only := by
    intro name' file' new hget hfile
    dsimp only at hget
    rw [get?_pair] at hget
    split at hget
    · next heq =>
      obtain ⟨old,hold⟩ := Option.isSome_iff_exists.mp hsome
      rw [← heq.1, ← heq.2] at hold
      exact h.only name' file' old hold hfile
    · exact h.only name' file' new hget hfile
  unsigned := by
    intro hkey name' file' hfile
    dsimp only
    rw [get?_pair, if_neg]
    · exact h.unsigned hkey name' file' hfile
    · rintro ⟨rfl,rfl⟩
      rw [h.unsigned hkey name' file' hfile] at hsome
      cases hsome

theorem damaged_kept {file : Str} (content : FileContent) {name' : Str}
    (hnot : ¬Touches (.write name' file content) name n) :
    Dict.get? (w.files.set (name', file) content) (name, versionFile n) =
        Dict.get? w.files (name, versionFile n) ∧
      load env (w.files.set (name', file) content) name (some n) = load env w.files name (some n) := by
  have hversion : ¬(name = name' ∧ versionFile n = file) := by
    rintro ⟨rfl,rfl⟩
    exact hnot ⟨_, content, rfl, .inl rfl⟩
  have hcompanion : ¬(name = name' ∧ companion (versionFile n) = file) := by
    rintro ⟨rfl,rfl⟩
    exact hnot ⟨_, content, rfl, .inr rfl⟩
  have hget : Dict.get? (w.files.set (name', file) content) (name, versionFile n) =
      Dict.get? w.files (name, versionFile n) := by
    rw [get?_pair, if_neg hversion]
  refine ⟨hget, load_congr hget ?_⟩
  rw [get?_pair, if_neg hcompanion]

theorem History.step {s : Step} {made : List PolicyVersion} (h : History env w)
    (hdamage : Damages env w s) (hcounted : Counted env w s)
    (hstep : step env w s = some (w', made)) : History env w' ∧ Appends env w s w' made := by
  cases s with
  | save p author changeDescription timestamp =>
    rw [PolicyStore.step] at hstep
    split at hstep
    · next files pv hsave =>
      cases hstep
      obtain ⟨n,text,a⟩ := h.appended hcounted hsave
      refine ⟨a.history h, a.freshVersion h, fun _ _ hsome _ => a.kept h hsome, ?_, ?_⟩
      · rintro _ _ _ _ ⟨⟩
        exact ⟨List.forall_mem_singleton.mpr a.policy, fun _ _ => List.cons_ne_nil _ _⟩
      · rintro _ _ _ _ ⟨⟩
    · next hnot =>
      cases hstep
      refine ⟨h, fun _ hpv => absurd hpv List.not_mem_nil, fun _ _ _ _ => ⟨rfl, rfl⟩, ?_, ?_⟩
      · rintro _ _ _ _ ⟨⟩
        refine ⟨fun _ hpv => absurd hpv List.not_mem_nil, fun hname hlistable => ?_⟩
        obtain ⟨⟨files,pv⟩,hsave⟩ := h.saves hname hlistable author changeDescription timestamp
        rw [hsave] at hnot
        cases hnot
      · rintro _ _ _ _ ⟨⟩
  | rollback name version author timestamp =>
    rw [PolicyStore.step] at hstep
    split at hstep
    · next files pv hrollback =>
      cases hstep
      obtain ⟨target,hload,hsave⟩ := target_of_rollback hrollback
      obtain ⟨hmem,hnamed,p,hpolicy,rfl,hvalid⟩ := h.target hload
      rw [hpolicy] at hsave
      obtain ⟨n,text,a⟩ := h.appended (fun _ => (hcounted target hload).2) hsave
      refine ⟨a.history h, a.freshVersion h, fun _ _ hsome _ => a.kept h hsome, ?_, ?_⟩
      · rintro _ _ _ _ ⟨⟩
      · rintro _ _ _ _ ⟨⟩ target' hload'
        cases hload.symm.trans hload'
        exact ⟨hmem, hnamed, pv, rfl, a.policy.trans hpolicy.symm, a.loads h (.inl rfl)⟩
    · next hnot =>
      cases hstep
      refine ⟨h, fun _ hpv => absurd hpv List.not_mem_nil, fun _ _ _ _ => ⟨rfl, rfl⟩, ?_, ?_⟩
      · rintro _ _ _ _ ⟨⟩
      · rintro _ _ _ _ ⟨⟩ target hload
        obtain ⟨hmem,hnamed,p,hpolicy,rfl,hvalid⟩ := h.target hload
        obtain ⟨⟨files,pv⟩,hsave⟩ := h.saves hvalid (hcounted target hload).1 author
          ("Rollback to v".toList ++ intText version) timestamp
        rw [← hpolicy] at hsave
        exact absurd (rollback_of_load hload hsave) (hnot files pv)
  | write name file content =>
    cases hstep
    refine ⟨h.damaged hdamage.1 hdamage.2, fun _ hpv => absurd hpv List.not_mem_nil,
      fun _ _ _ hnot => damaged_kept content hnot, ?_, ?_⟩
    · rintro _ _ _ _ ⟨⟩
    · rintro _ _ _ _ ⟨⟩
  | remove name file => exact absurd hdamage id

theorem history_start : History env {} where
  plain := fun _ hpv => absurd hpv List.not_mem_nil
  numbered := fun _ hpv => absurd hpv List.not_mem_nil
  valid := fun _ hpv => absurd hpv List.not_mem_nil
  increasing := List.Pairwise.nil
  nodup := List.nodup_nil
  kept := fun _ hpv => absurd hpv List.not_mem_nil
  only := fun _ _ _ hget => absurd hget.symm (Option.some_ne_none _)
  unsigned := fun _ _ _ _ => rfl

def Lawful (env : Env) (w : World) (s : Step) : Prop := Damages env w s ∧ Counted env w s

theorem step_produced {s : Step} {made : List PolicyVersion}
    (h : PolicyStore.step env w s = some (w', made)) : w'.produced = w.produced ++ made := by
  cases s with
  | save p author changeDescription timestamp =>
    rw [PolicyStore.step] at h
    split at h
    · cases h
      rfl
    · cases h
      exact (List.append_nil _).symm
  | rollback name version author timestamp =>
    rw [PolicyStore.step] at h
    split at h
    · cases h
      rfl
    · cases h
      exact (List.append_nil _).symm
  | write name file content =>
    cases h
    exact (List.append_nil _).symm
  | remove name file =>
    cases h
    exact (List.append_nil _).symm

theorem step_isSome (env : Env) (w : World) (s : Step) :
    ∃ r, PolicyStore.step env w s = some r := by
  cases s with
  | save p author changeDescription timestamp =>
    rw [PolicyStore.step]
    split <;> exact ⟨_, rfl⟩
  | rollback name version author timestamp =>
    rw [PolicyStore.step]
    split <;> exact ⟨_, rfl⟩
  | write name file content => exact ⟨_, rfl⟩
  | remove name file => exact ⟨_, rfl⟩

def Loads (env : Env) (name : Str) (n : Int) (w : World) : Prop :=
  ∀ pv ∈ w.produced, Named pv name n → load env w.files name (some n) = .ok (some pv)

theorem Loads.step {s : Step} {made : List PolicyVersion} (hloads : Loads env name n w)
    (h : History env w) (hlawful : Lawful env w s) (huntouched : ¬Touches s name n)
    (hstep : step env w s = some (w', made)) : Loads env name n w' := by
  have happends := (h.step hlawful.1 hlawful.2 hstep).2
  intro pv hpv hnamed
  rw [step_produced hstep, List.mem_append] at hpv
  rcases hpv with hpv | hpv
  · obtain ⟨content,hget,-⟩ := h.kept pv hpv name n hnamed
    have hsome : (Dict.get? w.files (name, versionFile n)).isSome := by rw [hget]; rfl
    rw [(happends.kept name n hsome huntouched).2]
    exact hloads pv hpv hnamed
  · obtain ⟨name',n',hnamed',-,-,hload⟩ := happends.fresh pv hpv
    obtain ⟨rfl,rfl⟩ := hnamed.unique hnamed'
    exact hload

theorem history_append_only {steps : List Step}
    (hlawful : Meets (step env) (Lawful env) {} steps)
    (hrun : exec (step env) {} steps = some (w, es)) :
    Increasing w.produced ∧
      Meets (step env) (fun w s => ∀ r ∈ step env w s, Appends env w s r.1 r.2) {} steps ∧
      ∀ name n, (∀ s ∈ steps, ¬Touches s name n) → Loads env name n w := by
  have hkeep : ∀ w s w' made, History env w → Lawful env w s → step env w s = some (w', made) →
      History env w' := fun _ _ _ _ h hs hstep => (h.step hs.1 hs.2 hstep).1
  have hhistory : History env w := exec_invariant (fun _ => hkeep) [] history_start hlawful hrun
  refine ⟨hhistory.increasing, hlawful.of_invariant hkeep ?_ history_start, ?_⟩
  · intro w s h hs r hr
    exact (h.step hs.1 hs.2 hr).2
  · intro name n huntouched
    have hboth := hlawful.and (meets_of_forall huntouched)
    have hkeepLoads : ∀ w s w' made, History env w ∧ Loads env name n w →
        Lawful env w s ∧ ¬Touches s name n → step env w s = some (w', made) →
        History env w' ∧ Loads env name n w' := fun w s w' made h hs hstep =>
      ⟨hkeep w s w' made h.1 hs.1 hstep, h.2.step h.1 hs.1 hs.2 hstep⟩
    have hstart : History env {} ∧ Loads env name n {} :=
      ⟨history_start, fun _ hpv => absurd hpv List.not_mem_nil⟩
    have hend : History env w ∧ Loads env name n w :=
      exec_invariant (fun _ => hkeepLoads) [] hstart hboth hrun
    exact hend.2

theorem History.counted (h : History env w)
    (hreads : ∀ name file content, Dict.get? w.files (name, file) = some content →
      isVersionFile file = true → Reads env content) (s : Step) : Counted env w s := by
  have hlistable : ∀ name, Listable env w.files name := by
    intro name file content hmem hfile
    obtain ⟨found,hread⟩ := hreads name file content (Dict.get?_of_mem h.nodup hmem) hfile
    exact ⟨some found, hread⟩
  have hnewest : ∀ name, NewestCounted env w name := by
    intro name pv n content hlast hnamed hget hnone
    obtain ⟨found,hread⟩ := hreads name _ content hget (isVersionFile_versionFile n)
    rw [hread] at hnone
    cases hnone
  cases s with
  | save p => exact fun _ => hnewest p.name
  | rollback name => exact fun _ _ => ⟨hlistable name, hnewest name⟩
  | write => trivial
  | remove => trivial

end Histories

section Damaged

def toolPolicy : Policy := { name := "tool".toList }

def bareEnv : Env := .half none

def saveTool : Step := .save toolPolicy "alice".toList [] "t".toList

def toolVersion : PolicyVersion := plainVersion toolPolicy (.int 1) "alice".toList "t".toList [] []

def toolText : Str := versionText toolPolicy (.int 1) "alice".toList "t".toList [] []

def toolFiles (text : Str) : Files := writeVersion bareEnv [] "tool".toList (.int 1) text "t".toList

def damagedFiles (text : Str) : Files :=
  Dict.set (toolFiles text) ("tool".toList, versionFile 1) .unreadable

-- The only version becomes unreadable and the next save takes its number.
def saveOverDamaged : List Step :=
  [saveTool, .write "tool".toList (versionFile 1) .unreadable, saveTool]

theorem save_tool {files : Files} (produced : List PolicyVersion)
    (hnext : nextVersion bareEnv files "tool".toList = .ok (.int 1)) :
    step bareEnv ⟨files, produced⟩ saveTool =
      some (⟨writeVersion bareEnv files "tool".toList (.int 1) toolText "t".toList,
        produced ++ [toolVersion]⟩, [toolVersion]) := by
  have hname : validName toolPolicy.name = true := by decide
  rw [saveTool, step, save_ofPolicy hname hnext]
  rfl

theorem save_first : step bareEnv {} saveTool =
    some (⟨toolFiles toolText, [toolVersion]⟩, [toolVersion]) :=
  save_tool [] rfl

theorem damaged_version_overwritten :
    Meets (step bareEnv) (Damages bareEnv) {} saveOverDamaged ∧
      ¬Meets (step bareEnv) (fun w s => ∀ r ∈ step bareEnv w s, Appends bareEnv w s r.1 r.2) {}
        saveOverDamaged := by
  have hfirst := save_first
  have hdamaged : ∀ text, nextVersion bareEnv (damagedFiles text) "tool".toList = .ok (.int 1) :=
    fun _ => rfl
  have hsecond := save_tool [toolVersion] (hdamaged toolText)
  constructor
  · refine ⟨trivial, fun r hr => ?_⟩
    cases hfirst.symm.trans hr
    refine ⟨⟨rfl, fun _ => ?_⟩, fun r hr => ⟨trivial, fun _ _ => trivial⟩⟩
    rintro ⟨pv,hread⟩
    cases hread
  · intro h
    have happends := ((h.2 _ hfirst).2 _ rfl).1 _ hsecond
    obtain ⟨name,n,hnamed,hnone,-⟩ := happends.fresh toolVersion List.mem_cons_self
    obtain rfl := Json.str.inj hnamed.1
    obtain rfl := Json.int.inj hnamed.2
    cases hnone

def rollbackTool : Step := .rollback "tool".toList 1 "bob".toList "u".toList

theorem lawful_rollback : Meets (step bareEnv) (Lawful bareEnv) {} [saveTool, rollbackTool] := by
  have hcounted : ∀ s, Counted bareEnv {} s := history_start.counted fun _ _ _ hget =>
    absurd hget.symm (Option.some_ne_none _)
  refine ⟨⟨trivial, hcounted _⟩, fun r hr => ?_⟩
  cases save_first.symm.trans hr
  have hhistory := (history_start.step (s := saveTool) trivial (hcounted _) save_first).1
  refine ⟨⟨trivial, hhistory.counted ?_ _⟩, fun _ _ => trivial⟩
  intro name file content hget hfile
  obtain ⟨pv,hpv,n,hnamed,rfl⟩ := hhistory.only name file content hget hfile
  obtain rfl := List.mem_singleton.mp hpv
  obtain rfl := Json.str.inj hnamed.1
  obtain rfl := Json.int.inj hnamed.2
  cases hget
  exact ⟨toolVersion, readVersionFile_text ⟨_, _, _, _, _, _, Json.held_int _, rfl⟩ (isText_plain _ _ _ _ _ _)⟩

theorem rollback_appends : ∃ w es,
    exec (step bareEnv) {} [saveTool, rollbackTool] = some (w, es) ∧ Increasing w.produced ∧
      Loads bareEnv "tool".toList 1 w := by
  obtain ⟨r,hr⟩ := step_isSome bareEnv ⟨toolFiles toolText, [toolVersion]⟩ rollbackTool
  have hrun : exec (step bareEnv) {} [saveTool, rollbackTool] =
      some (r.1, [toolVersion] ++ (r.2 ++ [])) :=
    exec_cons.mpr ⟨_, _, _, save_first, exec_cons.mpr ⟨_, _, _, hr, rfl, rfl⟩, rfl⟩
  obtain ⟨hincreasing,-,hloads⟩ := history_append_only lawful_rollback hrun
  refine ⟨_, _, hrun, hincreasing, hloads "tool".toList 1 ?_⟩
  simp [Touches, saveTool, rollbackTool]

end Damaged

end PicoSentry.Sandbox.PolicyStore
