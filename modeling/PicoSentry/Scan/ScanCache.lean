import PicoSentry.Foundation.Directory
import PicoSentry.Foundation.JsonLimits
import PicoSentry.Foundation.ParsedJson
import PicoSentry.Foundation.Run

namespace PicoSentry.Scan.ScanCache

open Foundation Foundation.Run

abbrev Record := Dict Str Json

structure Env where
  -- hashlib.sha256(raw).hexdigest()[:32]
  digest : Str → Str
  -- _hmac, under the key of this machine
  hmac : Str → Str
  -- float.__repr__ of the value that a literal stands for
  repr : Str → Str
  -- how deep json.loads descends before it raises a RecursionError
  depth : Nat
  -- time.time() - cached_at > ttl
  expired : Str → Json → Bool

structure CacheKey where
  lockfileHash : Str
  corpusHash : Str
  ruleVersion : Str
  configDigest : Str := []
deriving DecidableEq

def CacheKey.raw (k : CacheKey) : Str :=
  k.lockfileHash ++ ':' :: k.corpusHash ++ ':' :: k.ruleVersion ++ ':' :: k.configDigest

abbrev Directory := Dict Str FileContent

section Cache

variable (env : Env)

def cacheKey (k : CacheKey) : Str := env.digest k.raw

def cachePath (k : CacheKey) : Str := cacheKey env k ++ ".json".toList

structure Put where
  key : CacheKey
  result : Record
  cachedAt : Str

namespace Put

def entry (p : Put) : Record :=
  [("key".toList, .str (cacheKey env p.key)), ("cached_at".toList, .float p.cachedAt),
   ("lockfile_hash".toList, .str p.key.lockfileHash), ("corpus_hash".toList, .str p.key.corpusHash),
   ("rule_version".toList, .str p.key.ruleVersion),
   ("config_digest".toList, .str p.key.configDigest), ("result".toList, .obj (.ofList p.result))]

def payload (p : Put) : Str := Json.dumps (.obj (.ofList (p.entry env)))

def signedEntry (p : Put) : Record :=
  p.entry env ++ [("_hmac".toList, .str (env.hmac (p.payload env)))]

def text (p : Put) : Str := Json.dumps (.obj (.ofList (p.signedEntry env)))

end Put

-- The files that a cap removes afterwards are those in evicted.
def put (dir : Directory) (p : Put) (evicted : List Str) : Directory :=
  evicted.foldl Dict.erase (dir.set (cachePath env p.key) (.text (p.text env)))

inductive Raised where
  | unicodeDecodeError
  | notLoaded
  | noPop
  | noEncode
  | unicodeEncodeError
deriving DecidableEq

inductive Reading where
  | notJson
  | raised (error : Raised)
  | refused
  | verified (entry : Record)

def readEntry (s : Str) : Reading :=
  if Json.loadsRaises env.depth s then .raised .notLoaded
  else
    match Json.parse env.repr s with
    | none => .notJson
    | some (.obj fields) =>
      let entry := Dict.erase fields.toList "_hmac".toList
      match Dict.get? fields.toList "_hmac".toList with
      | none => .refused
      | some (.str stored) =>
        if Json.surrogateAt "_hmac".toList s then .raised .unicodeEncodeError
        else if stored = [] ∨ stored ≠ env.hmac (Json.dumps (.obj (.ofList entry))) then .refused
        else .verified entry
      | some stored => if stored.truthy then .raised .noEncode else .refused
    | some _ => .raised .noPop

def get (dir : Directory) (k : CacheKey) (now : Str) : Directory × Except Raised (Option Json) :=
  let path := cachePath env k
  let unlinked := Dict.erase dir path
  match Dict.get? dir path with
  | none => (dir, .ok none)
  | some .undecodable => (dir, .error .unicodeDecodeError)
  | some .unreadable => (unlinked, .ok none)
  | some (.text s) =>
    match readEntry env s with
    | .notJson => (unlinked, .ok none)
    | .raised error => (dir, .error error)
    | .refused => (unlinked, .ok none)
    | .verified entry =>
      if env.expired now ((Dict.get? entry "cached_at".toList).getD (.int 0)) then
        (unlinked, .ok none)
      else (dir, .ok (Dict.get? entry "result".toList))

end Cache

section Runs

variable (env : Env)

structure World where
  dir : Directory := []
  made : List Put := []

inductive Step where
  | put (p : Put) (evicted : List Str)
  | get (k : CacheKey) (now : Str)
  -- anyone who can write to the directory
  | write (name : Str) (content : FileContent)
  | remove (name : Str)

structure Answer where
  key : CacheKey
  outcome : Except Raised (Option Json)

def step (w : World) : Step → Option (World × List Answer)
  | .put p evicted => some (⟨put env w.dir p evicted, w.made ++ [p]⟩, [])
  | .get k now =>
    let (dir, outcome) := get env w.dir k now
    some (⟨dir, w.made⟩, [⟨k, outcome⟩])
  | .write name content => some (⟨w.dir.set name content, w.made⟩, [])
  | .remove name => some (⟨Dict.erase w.dir name, w.made⟩, [])

structure Put.Lawful (p : Put) : Prop where
  result : Json.Held env.repr (.obj (.ofList p.result))
  cachedAt : Json.Held env.repr (.float p.cachedAt)

def Backed (made : List Put) (content : FileContent) : Prop :=
  ∀ s entry, content = .text s → readEntry env s = .verified entry →
    ∃ p ∈ made, p.payload env = Json.dumps (.obj (.ofList entry))

def Unforged (w : World) : Step → Prop
  | .put p _ => p.Lawful env
  | .write _ content => Backed env w.made content
  | _ => True

end Runs

section Entries

variable {env : Env} {p : Put}

def Put.sortedEntry (env : Env) (p : Put) : Record :=
  [("cached_at".toList, .float p.cachedAt), ("config_digest".toList, .str p.key.configDigest),
   ("corpus_hash".toList, .str p.key.corpusHash),
   ("key".toList, .str (cacheKey env p.key)), ("lockfile_hash".toList, .str p.key.lockfileHash),
   ("result".toList, Json.sortKeys (.obj (.ofList p.result))),
   ("rule_version".toList, .str p.key.ruleVersion)]

theorem sortKeys_entry (env : Env) (p : Put) :
    Json.sortKeys (.obj (.ofList (p.entry env))) = .obj (.ofList (p.sortedEntry env)) := rfl

theorem sortKeys_signedEntry (env : Env) (p : Put) :
    Json.sortKeys (.obj (.ofList (p.signedEntry env))) =
      .obj (.ofList (("_hmac".toList, .str (env.hmac (p.payload env))) :: p.sortedEntry env)) := rfl

theorem dumps_sortedEntry (env : Env) (p : Put) :
    Json.dumps (.obj (.ofList (p.sortedEntry env))) = p.payload env := by
  rw [← sortKeys_entry, Json.dumps, Json.sortKeys_sortKeys, Put.payload, Json.dumps]

theorem held_entry (h : p.Lawful env) : ∀ e ∈ p.entry env, Json.Held env.repr e.2 := by
  simp only [Put.entry, List.forall_mem_cons]
  exact ⟨Json.held_str _, h.cachedAt, Json.held_str _, Json.held_str _, Json.held_str _,
    Json.held_str _, h.result, fun _ he => absurd he List.not_mem_nil⟩

theorem Put.Lawful.held (h : p.Lawful env) :
    Json.Held env.repr (.obj (.ofList (p.entry env))) :=
  Json.held_ofList (show ["key".toList, "cached_at".toList, "lockfile_hash".toList,
    "corpus_hash".toList, "rule_version".toList, "config_digest".toList, "result".toList].Nodup
    by decide) (held_entry h)

theorem Put.Lawful.held_signed (h : p.Lawful env) :
    Json.Held env.repr (.obj (.ofList (p.signedEntry env))) := by
  refine Json.held_ofList (show ["key".toList, "cached_at".toList, "lockfile_hash".toList,
    "corpus_hash".toList, "rule_version".toList, "config_digest".toList, "result".toList,
    "_hmac".toList].Nodup by decide) fun e he => ?_
  rcases List.mem_append.mp he with he | he
  · exact held_entry h e he
  · obtain rfl := List.mem_singleton.mp he
    exact Json.held_str _

theorem parse_text (h : p.Lawful env) : Json.parse env.repr (p.text env) = some (.obj (.ofList
    (("_hmac".toList, .str (env.hmac (p.payload env))) :: p.sortedEntry env))) := by
  rw [← sortKeys_signedEntry]
  exact h.held_signed.parse_dumps

theorem erase_signed (env : Env) (p : Put) :
    Dict.erase (("_hmac".toList, .str (env.hmac (p.payload env))) :: p.sortedEntry env)
      "_hmac".toList = p.sortedEntry env := rfl

def Loads (env : Env) (p : Put) : Prop :=
  Json.loadsRaises env.depth (p.text env) = false ∧
    Json.surrogateAt "_hmac".toList (p.text env) = false

theorem readEntry_text (h : p.Lawful env) (hloads : Loads env p)
    (htag : env.hmac (p.payload env) ≠ []) :
    readEntry env (p.text env) = .verified (p.sortedEntry env) := by
  have hget : Dict.get? (("_hmac".toList, Json.str (env.hmac (p.payload env))) ::
      p.sortedEntry env) "_hmac".toList = some (.str (env.hmac (p.payload env))) := rfl
  rw [readEntry, hloads.1, if_neg Bool.false_ne_true, parse_text h]
  dsimp only
  rw [Json.toList_ofList, erase_signed, hget]
  dsimp only
  rw [hloads.2, if_neg Bool.false_ne_true, dumps_sortedEntry, if_neg]
  simpa using htag

theorem readEntry_verified {s : Str} {entry : Record} (h : readEntry env s = .verified entry) :
    ∃ fields, Json.parse env.repr s = some (.obj fields) ∧
      entry = Dict.erase fields.toList "_hmac".toList := by
  rw [readEntry] at h
  split at h
  · cases h
  · split at h
    · cases h
    · next fields hparse =>
      dsimp only at h
      split at h
      · cases h
      · split at h
        · cases h
        · split at h
          · cases h
          · cases h
            exact ⟨fields, hparse, rfl⟩
      · split at h <;> cases h
    · cases h

theorem verified_text (h : p.Lawful env) {entry : Record}
    (hread : readEntry env (p.text env) = .verified entry) : entry = p.sortedEntry env := by
  obtain ⟨fields,hparse,rfl⟩ := readEntry_verified hread
  rw [parse_text h] at hparse
  cases hparse
  rw [Json.toList_ofList, erase_signed]

theorem wellFormed_verified (hrepr : ∀ text, Json.FloatText (env.repr text)) {s : Str}
    {entry : Record} (h : readEntry env s = .verified entry) :
    Json.WellFormed (.obj (.ofList entry)) := by
  obtain ⟨fields,hparse,rfl⟩ := readEntry_verified h
  have hfields := Json.wellFormed_parse hrepr hparse
  rw [← Json.ofList_toList fields, Json.WellFormed, Json.wellFormedFields_ofList] at hfields
  exact Json.wellFormedFields_ofList.mpr fun e he => hfields e (List.mem_of_mem_filter he)

theorem result_verified (hrepr : ∀ text, Json.FloatText (env.repr text)) (hp : p.Lawful env)
    {s : Str} {entry : Record} (h : readEntry env s = .verified entry)
    (hpayload : p.payload env = Json.dumps (.obj (.ofList entry))) :
    (Dict.get? entry "result".toList).map Json.sortKeys =
      some (Json.sortKeys (.obj (.ofList p.result))) := by
  have hsort := Json.dumps_inj hp.held.wellFormed (wellFormed_verified hrepr h) hpayload
  exact (Json.get?_of_sortKeys_eq hsort "result".toList).symm

end Entries

section Served

variable {env : Env}

-- get does not look at the values that the entry names: it serves the entry from any file.
theorem entry_served {p : Put} (hp : p.Lawful env) (hloads : Loads env p)
    (htag : env.hmac (p.payload env) ≠ [])
    {dir : Directory} {k : CacheKey} {now : Str}
    (hget : Dict.get? dir (cachePath env k) = some (.text (p.text env)))
    (hlive : env.expired now (.float p.cachedAt) = false) :
    (get env dir k now).2 = .ok (some (Json.sortKeys (.obj (.ofList p.result)))) := by
  have hcached : (Dict.get? (p.sortedEntry env) "cached_at".toList).getD (.int 0) =
      .float p.cachedAt := rfl
  rw [get, hget]
  dsimp only
  rw [readEntry_text hp hloads htag]
  dsimp only
  rw [hcached, hlive, if_neg Bool.false_ne_true]
  rfl

end Served

section Authentic

variable {env : Env} {w w' : World} {answers : List Answer}

structure Sound (env : Env) (w : World) : Prop where
  backed : Dict.Holds (fun _ => Backed env w.made) w.dir
  lawful : ∀ p ∈ w.made, p.Lawful env

theorem Backed.mono {made made' : List Put} {content : FileContent} (h : Backed env made content)
    (hsub : made ⊆ made') : Backed env made' content := by
  intro s entry hs hread
  obtain ⟨p,hp,hpayload⟩ := h s entry hs hread
  exact ⟨p, hsub hp, hpayload⟩

theorem backed_text {p : Put} (h : p.Lawful env) {made : List Put} (hp : p ∈ made) :
    Backed env made (.text (p.text env)) := by
  rintro s entry ⟨⟩ hread
  rw [verified_text h hread]
  exact ⟨p, hp, (dumps_sortedEntry env p).symm⟩

theorem Sound.put {p : Put} (h : Sound env w) (hp : p.Lawful env) (evicted : List Str) :
    Sound env ⟨put env w.dir p evicted, w.made ++ [p]⟩ := by
  have hdir : Dict.Holds (fun _ => Backed env (w.made ++ [p])) w.dir :=
    h.backed.mono fun _ _ hcontent => hcontent.mono (List.subset_append_left _ _)
  have htext : Backed env (w.made ++ [p]) (.text (p.text env)) :=
    backed_text hp (List.mem_append_right w.made List.mem_cons_self)
  refine ⟨(hdir.set htext).eraseAll evicted, fun q hq => ?_⟩
  rcases List.mem_append.mp hq with hq | hq
  · exact h.lawful q hq
  · exact List.mem_singleton.mp hq ▸ hp

theorem get_dir (env : Env) (dir : Directory) (k : CacheKey) (now : Str) :
    (get env dir k now).1 = dir ∨ (get env dir k now).1 = Dict.erase dir (cachePath env k) := by
  rw [get]
  split
  · exact .inl rfl
  · exact .inl rfl
  · exact .inr rfl
  · split
    · exact .inr rfl
    · exact .inl rfl
    · exact .inr rfl
    · split
      · exact .inr rfl
      · exact .inl rfl

theorem Sound.step {s : Step} (h : Sound env w) (hs : Unforged env w s)
    (hstep : step env w s = some (w', answers)) : Sound env w' := by
  cases s with
  | put p evicted =>
    cases hstep
    exact h.put hs evicted
  | get k now =>
    have hw : ⟨(get env w.dir k now).1, w.made⟩ = w' := congrArg Prod.fst (Option.some.inj hstep)
    rw [← hw]
    rcases get_dir env w.dir k now with hdir | hdir
    · rw [hdir]
      exact h
    · rw [hdir]
      exact ⟨h.backed.erase _, h.lawful⟩
  | write name content =>
    cases hstep
    exact ⟨h.backed.set hs, h.lawful⟩
  | remove name =>
    cases hstep
    exact ⟨h.backed.erase name, h.lawful⟩

theorem sound_of_run {steps : List Step} (h : Sound env w)
    (hunforged : Meets (step env) (Unforged env) w steps)
    (hrun : exec (step env) w steps = some (w', answers)) : Sound env w' := by
  have hkeep : ∀ (past : List Answer) v s v' es, Sound env v → Unforged env v s →
      ScanCache.step env v s = some (v', es) → Sound env v' := fun _ _ _ _ _ hv => hv.step
  exact exec_invariant hkeep [] h hunforged hrun

def Malformed (env : Env) : FileContent → Prop
  | .text s => ∃ error, readEntry env s = .raised error
  | .undecodable => True
  | .unreadable => False

theorem not_malformed {s : Str} {entry : Record} (h : readEntry env s = .verified entry) :
    ¬Malformed env (.text s) := by
  rintro ⟨error,herror⟩
  rw [h] at herror
  cases herror

-- What may stand in the file that get opens: no entry that put made for another file, and nothing
-- that get cannot read. No other call's values may run together to the same text.
structure Placed (env : Env) (w : World) (k : CacheKey) : Prop where
  readable : ∀ content, Dict.get? w.dir (cachePath env k) = some content → ¬Malformed env content
  own : ∀ s entry, Dict.get? w.dir (cachePath env k) = some (.text s) →
    readEntry env s = .verified entry → ∀ p ∈ w.made,
      p.payload env = Json.dumps (.obj (.ofList entry)) → cachePath env p.key = cachePath env k
  apart : ∀ p ∈ w.made, p.key.raw = k.raw → p.key = k

theorem exec_first (env : Env) (p : Put) :
    exec (step env) {} [.put p []] = some (⟨put env [] p [], [p]⟩, []) := rfl

theorem unforged_first {p : Put} (hp : p.Lawful env) :
    Meets (step env) (Unforged env) {} [.put p []] := ⟨hp, fun _ _ => trivial⟩

theorem placed_first {p : Put} (hp : p.Lawful env) (hloads : Loads env p)
    (htag : env.hmac (p.payload env) ≠ []) : Placed env ⟨put env [] p [], [p]⟩ p.key := by
  have hread := readEntry_text hp hloads htag
  have hfile : Dict.get? (put env [] p []) (cachePath env p.key) = some (.text (p.text env)) :=
    Dict.get?_set_self _ _ _
  refine ⟨fun content hget => ?_, fun _ _ _ _ q hq _ => ?_, fun q hq _ => ?_⟩
  · rw [← Option.some.inj (hfile.symm.trans hget)]
    exact not_malformed hread
  · rw [List.mem_singleton.mp hq]
  · exact congrArg Put.key (List.mem_singleton.mp hq)

def Authentic (made : List Put) (k : CacheKey) (outcome : Except Raised (Option Json)) : Prop :=
  outcome = .ok none ∨ ∃ p ∈ made, ∃ result, outcome = .ok (some result) ∧ p.key = k ∧
    Json.sortKeys result = Json.sortKeys (.obj (.ofList p.result))

theorem authentic_get (hrepr : ∀ text, Json.FloatText (env.repr text))
    (hdigest : Function.Injective env.digest) (h : Sound env w) {k : CacheKey} {now : Str}
    (hplaced : Placed env w k) : Authentic w.made k (get env w.dir k now).2 := by
  rw [get]
  split
  · exact .inl rfl
  · next hget => exact absurd trivial (hplaced.readable _ hget)
  · exact .inl rfl
  · next s hget =>
    split
    · exact .inl rfl
    · next error hread => exact absurd ⟨error, hread⟩ (hplaced.readable _ hget)
    · exact .inl rfl
    · next entry hread =>
      split
      · exact .inl rfl
      · obtain ⟨p,hp,hpayload⟩ := h.backed _ _ hget s entry rfl hread
        have hpath := hplaced.own s entry hget hread p hp hpayload
        have hkey : p.key = k :=
          hplaced.apart p hp (hdigest (List.append_cancel_right hpath))
        have hresult := result_verified hrepr (h.lawful p hp) hread hpayload
        obtain ⟨result,hgot,hsame⟩ := Option.map_eq_some_iff.mp hresult
        exact .inr ⟨p, hp, result, congrArg Except.ok hgot, hkey, hsame⟩

theorem sound_start : Sound env {} := ⟨Dict.holds_nil, fun _ hp => absurd hp List.not_mem_nil⟩

theorem cached_results_authentic (hrepr : ∀ text, Json.FloatText (env.repr text))
    (hdigest : Function.Injective env.digest) {steps : List Step}
    (hunforged : Meets (step env) (Unforged env) {} steps)
    (hrun : exec (step env) {} steps = some (w, answers)) {k : CacheKey} (now : Str)
    (hplaced : Placed env w k) : Authentic w.made k (get env w.dir k now).2 :=
  authentic_get hrepr hdigest (sound_of_run sound_start hunforged hrun) hplaced

def sampleEnv : Env :=
  { digest := id, hmac := fun _ => "5d4140".toList, repr := fun _ => "0.5".toList, depth := 900
    expired := fun _ _ => false }

def cleanScan : Put :=
  { key := ⟨"a1".toList, "c1".toList, "2.0".toList, "d1".toList⟩
    result := [("findings".toList, .arr .nil)], cachedAt := "0.5".toList }

theorem cleanScan_lawful : cleanScan.Lawful sampleEnv where
  result := Json.held_ofList (by decide)
    (List.forall_mem_singleton.mpr ⟨⟨trivial, trivial⟩, rfl⟩)
  cachedAt := ⟨⟨Json.floatText_half, trivial⟩, rfl⟩

theorem cleanScan_loads : Loads sampleEnv cleanScan := by
  rw [Loads]
  decide +kernel

theorem clean_result_authentic : ∃ w answers,
    exec (step sampleEnv) {} [.put cleanScan []] = some (w, answers) ∧
      Authentic w.made cleanScan.key (get sampleEnv w.dir cleanScan.key "0.5".toList).2 := by
  have hrun := exec_first sampleEnv cleanScan
  have hplaced : Placed sampleEnv ⟨put sampleEnv [] cleanScan [], [cleanScan]⟩ cleanScan.key :=
    placed_first cleanScan_lawful cleanScan_loads (by decide)
  have hrepr : ∀ text, Json.FloatText (sampleEnv.repr text) := fun _ => Json.floatText_half
  have hdigest : Function.Injective sampleEnv.digest := Function.injective_id
  have hauthentic := cached_results_authentic hrepr hdigest (unforged_first cleanScan_lawful) hrun
    "0.5".toList hplaced
  exact ⟨_, _, hrun, hauthentic⟩

def dirtyTree : CacheKey := ⟨"b2".toList, "c1".toList, "2.0".toList, "d1".toList⟩

-- The entry of the clean tree, copied to the file of another tree.
def copyEntry : List Step :=
  [.put cleanScan [], .write (cachePath sampleEnv dirtyTree) (.text (cleanScan.text sampleEnv))]

theorem copied_entry_served : ∃ w answers,
    Meets (step sampleEnv) (Unforged sampleEnv) {} copyEntry ∧
      exec (step sampleEnv) {} copyEntry = some (w, answers) ∧
      (∀ p ∈ w.made, p.key ≠ dirtyTree) ∧
      ¬Authentic w.made dirtyTree (get sampleEnv w.dir dirtyTree "0.5".toList).2 := by
  refine ⟨_, _, ⟨cleanScan_lawful, ?_⟩, rfl, ?_, ?_⟩
  · rintro r ⟨⟩
    exact ⟨backed_text cleanScan_lawful List.mem_cons_self, fun _ _ => trivial⟩
  · intro p hp hkey
    rw [List.mem_singleton.mp hp] at hkey
    exact absurd hkey (by decide)
  · rw [entry_served cleanScan_lawful cleanScan_loads (by decide) rfl rfl]
    rintro (hnone | ⟨p,hp,_,_,hkey,_⟩)
    · cases hnone
    · rw [List.mem_singleton.mp hp] at hkey
      exact absurd hkey (by decide)

end Authentic

end PicoSentry.Scan.ScanCache
