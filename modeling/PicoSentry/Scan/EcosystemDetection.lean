import Mathlib.Algebra.Order.BigOperators.Group.List
import Mathlib.Algebra.Order.Ring.Nat
import Mathlib.Data.List.Perm.Basic
import Mathlib.Logic.Relation
import PicoSentry.Foundation.Text

namespace PicoSentry.Scan.EcosystemDetection

open Foundation

structure DirEntry where
  name : Str
  isSymlink : Bool := false
  -- is_dir(follow_symlinks=False)
  isDir : Bool := false
  deriving DecidableEq

-- What scandir lists for a path below the target, and none where it raises.
abbrev Tree := List Str → Option (List DirEntry)

def ecoManifestMarkers : List (Str × List Str) :=
  [("npm".toList, ["package.json".toList]),
   ("pypi".toList,
     ["pyproject.toml".toList, "setup.py".toList, "requirements.txt".toList, "Pipfile".toList]),
   ("go".toList, ["go.mod".toList]),
   ("cargo".toList, ["Cargo.toml".toList]),
   ("maven".toList, ["pom.xml".toList, "build.gradle".toList]),
   ("rubygems".toList, ["Gemfile".toList, "Gemfile.lock".toList]),
   ("nuget".toList, ["packages.config".toList])]

def ecoDirMarkers : List (Str × List Str) :=
  [("npm".toList, ["node_modules".toList]),
   ("pypi".toList, [".venv".toList, "venv".toList, ".tox".toList])]

def detectMaxDepth : Nat := 5

def skipDirs : List Str :=
  ["node_modules".toList, ".git".toList, ".svn".toList, ".hg".toList, "__pycache__".toList,
   ".venv".toList, "venv".toList, ".tox".toList, "dist".toList, "build".toList, "out".toList,
   ".next".toList, ".nuxt".toList, "coverage".toList, ".nyc_output".toList]

def dirMarkers (eco : Str) : List Str := (ecoDirMarkers.lookup eco).getD []

def isMarker (eco : Str) (markers : List Str) (name : Str) : Bool :=
  markers.contains name || (dirMarkers eco).contains name ||
    (eco = "nuget".toList && decide (".csproj".toList <:+ name))

def hit (names : List Str) (eco : Str × List Str) : Bool := names.any (isMarker eco.1 eco.2)

def hits (names : List Str) (remaining : List (Str × List Str)) : List Str :=
  (remaining.filter (hit names)).map Prod.fst

def withoutHits (names : List Str) (remaining : List (Str × List Str)) : List (Str × List Str) :=
  remaining.filter fun eco => !hit names eco

def descends (entry : DirEntry) : Bool :=
  !entry.isSymlink && entry.isDir &&
    !(skipDirs.contains entry.name || (dirMarkers "npm".toList).contains entry.name ||
      (dirMarkers "pypi".toList).contains entry.name)

def names (entries : List DirEntry) : List Str := entries.map DirEntry.name

abbrev Place := List Str × Nat

def subdirectories (place : Place) (entries : List DirEntry) : List Place :=
  (entries.filter descends).map fun entry => (place.1 ++ [entry.name], place.2 + 1)

section Detect

variable (tree : Tree)

def work : Nat → Place → Nat
  | 0, _ => 1
  | levels + 1, place =>
    1 + ((subdirectories place ((tree place.1).getD [])).map (work levels)).sum

def levels (place : Place) : Nat := detectMaxDepth + 1 - place.2

def remainingWork (stack : List Place) : Nat := (stack.map fun place => work tree (levels place) place).sum

theorem work_pos (levels : Nat) (place : Place) : 0 < work tree levels place := by
  cases levels with
  | zero => exact Nat.one_pos
  | succ levels =>
    rw [work]
    omega

theorem remainingWork_pop (place : Place) (stack : List Place) :
    remainingWork tree stack < remainingWork tree (place :: stack) := by
  have hpos := work_pos tree (levels place) place
  rw [remainingWork, remainingWork, List.map_cons, List.sum_cons]
  omega

theorem levels_subdirectory {place sub : Place} {entries : List DirEntry} {n : Nat}
    (hn : levels place = n + 1) (h : sub ∈ subdirectories place entries) : levels sub = n := by
  obtain ⟨entry,_,rfl⟩ := List.mem_map.mp h
  simp only [levels] at hn ⊢
  omega

theorem remainingWork_push {place : Place} {stack : List Place} {entries : List DirEntry}
    (hdepth : ¬detectMaxDepth < place.2) (h : tree place.1 = some entries) :
    remainingWork tree ((subdirectories place entries).reverse ++ stack) <
      remainingWork tree (place :: stack) := by
  obtain ⟨n,hn⟩ : ∃ n, levels place = n + 1 :=
    Nat.exists_eq_add_one.mpr (Nat.sub_pos_of_lt (Nat.lt_succ_of_le (not_lt.mp hdepth)))
  have hsubs : (subdirectories place entries).map (fun sub => work tree (levels sub) sub) =
      (subdirectories place entries).map (work tree n) :=
    List.map_congr_left fun sub hsub => by rw [levels_subdirectory hn hsub]
  rw [remainingWork, remainingWork, List.map_append, List.sum_append, List.map_reverse,
    List.sum_reverse, hsubs, List.map_cons, List.sum_cons, hn, work, h, Option.getD_some]
  omega

-- The stack has its top in front. An ecosystem that was found is looked for no longer.
def detect (stack : List Place) (remaining : List (Str × List Str)) (found : List Str) : List Str :=
  match stack with
  | [] => found
  | place :: stack =>
    if remaining = [] then found
    else if _hdepth : detectMaxDepth < place.2 then detect stack remaining found
    else
      match _htree : tree place.1 with
      | none => detect stack remaining found
      | some entries =>
        let found := found ++ hits (names entries) remaining
        let remaining := withoutHits (names entries) remaining
        if remaining = [] then found
        else detect ((subdirectories place entries).reverse ++ stack) remaining found
termination_by remainingWork tree stack
decreasing_by
  · exact remainingWork_pop tree place stack
  · exact remainingWork_pop tree place stack
  · exact remainingWork_push tree _hdepth _htree

def detectEcosystems : List Str := detect tree [([], 0)] ecoManifestMarkers []

end Detect

section Reachable

variable (tree : Tree)

def Child (place sub : Place) : Prop := ∃ entries ∈ tree place.1, sub ∈ subdirectories place entries

def Marks (eco : Str × List Str) (place : Place) : Prop :=
  ∃ entries ∈ tree place.1, hit (names entries) eco = true

def MarkedBelow (eco : Str × List Str) (place : Place) : Prop :=
  ∃ marked, Relation.ReflTransGen (Child tree) place marked ∧ marked.2 ≤ detectMaxDepth ∧
    Marks tree eco marked

variable {tree} {eco : Str × List Str} {place sub : Place}

theorem child_depth (h : Child tree place sub) : sub.2 = place.2 + 1 := by
  obtain ⟨entries,_,hsub⟩ := h
  obtain ⟨entry,_,rfl⟩ := List.mem_map.mp hsub
  rfl

theorem reachable_depth (h : Relation.ReflTransGen (Child tree) place sub) : place.2 ≤ sub.2 := by
  induction h with
  | refl => exact le_refl _
  | tail _ hstep ih => exact ih.trans (child_depth hstep ▸ Nat.le_succ _)

theorem markedBelow_iff : MarkedBelow tree eco place ↔
    place.2 ≤ detectMaxDepth ∧ (Marks tree eco place ∨ ∃ sub, Child tree place sub ∧ MarkedBelow tree eco sub) := by
  constructor
  · rintro ⟨marked,hreach,hdepth,hmarks⟩
    refine ⟨(reachable_depth hreach).trans hdepth, ?_⟩
    rcases Relation.ReflTransGen.cases_head hreach with rfl | ⟨sub,hstep,hrest⟩
    · exact .inl hmarks
    · exact .inr ⟨sub, hstep, marked, hrest, hdepth, hmarks⟩
  · rintro ⟨hdepth,hmarks | ⟨sub,hstep,marked,hreach,hmarked⟩⟩
    · exact ⟨place, .refl, hdepth, hmarks⟩
    · exact ⟨marked, .head hstep hreach, hmarked⟩

theorem not_markedBelow_of_deep (h : detectMaxDepth < place.2) : ¬MarkedBelow tree eco place :=
  fun hmarked => absurd (markedBelow_iff.mp hmarked).1 (not_le.mpr h)

theorem not_markedBelow_of_none (h : tree place.1 = none) : ¬MarkedBelow tree eco place := by
  intro hmarked
  rcases (markedBelow_iff.mp hmarked).2 with ⟨entries,hentries,_⟩ | ⟨_,⟨entries,hentries,_⟩,_⟩
  · rw [h] at hentries
    cases hentries
  · rw [h] at hentries
    cases hentries

theorem markedBelow_of_some {entries : List DirEntry} (hdepth : place.2 ≤ detectMaxDepth)
    (h : tree place.1 = some entries) : MarkedBelow tree eco place ↔
      hit (names entries) eco = true ∨ ∃ sub ∈ subdirectories place entries, MarkedBelow tree eco sub := by
  rw [markedBelow_iff, Marks]
  simp only [Child, h, Option.mem_some_iff, exists_eq_left', hdepth, true_and]

end Reachable

section Detected

variable {tree : Tree}

variable {place : Place} {stack : List Place} {remaining : List (Str × List Str)} {found : List Str}
  {entries : List DirEntry}

def LeadsTo (tree : Tree) (remaining : List (Str × List Str)) (stack : List Place) (x : Str) : Prop :=
  ∃ eco ∈ remaining, eco.1 = x ∧ ∃ place ∈ stack, MarkedBelow tree eco place

theorem leadsTo_cons_of_not (h : ∀ eco, ¬MarkedBelow tree eco place) (x : Str) :
    LeadsTo tree remaining (place :: stack) x ↔ LeadsTo tree remaining stack x := by
  simp [LeadsTo, h]

theorem leadsTo_cons_of_some (hdepth : ¬detectMaxDepth < place.2) (h : tree place.1 = some entries)
    (x : Str) : LeadsTo tree remaining (place :: stack) x ↔
      x ∈ hits (names entries) remaining ∨
        LeadsTo tree (withoutHits (names entries) remaining)
          ((subdirectories place entries).reverse ++ stack) x := by
  have hbelow : ∀ eco, MarkedBelow tree eco place ↔ hit (names entries) eco = true ∨
      ∃ sub ∈ subdirectories place entries, MarkedBelow tree eco sub :=
    fun _ => markedBelow_of_some (not_lt.mp hdepth) h
  constructor
  · rintro ⟨eco,heco,rfl,p,hp,hmarked⟩
    by_cases hhit : hit (names entries) eco = true
    · exact .inl (List.mem_map_of_mem (List.mem_filter.mpr ⟨heco, hhit⟩))
    · refine .inr ⟨eco, List.mem_filter.mpr ⟨heco, by simpa using hhit⟩, rfl, ?_⟩
      rcases List.mem_cons.mp hp with rfl | hp
      · obtain ⟨sub,hsub,hsubmarked⟩ := ((hbelow eco).mp hmarked).resolve_left hhit
        exact ⟨sub, List.mem_append_left _ (List.mem_reverse.mpr hsub), hsubmarked⟩
      · exact ⟨p, List.mem_append_right _ hp, hmarked⟩
  · rintro (hmem | ⟨eco,heco,rfl,p,hp,hmarked⟩)
    · obtain ⟨eco,heco,rfl⟩ := List.mem_map.mp hmem
      obtain ⟨hremaining,hhit⟩ := List.mem_filter.mp heco
      exact ⟨eco, hremaining, rfl, place, List.mem_cons_self, (hbelow eco).mpr (.inl hhit)⟩
    · have hremaining := (List.mem_filter.mp heco).1
      rcases List.mem_append.mp hp with hp | hp
      · exact ⟨eco, hremaining, rfl, place, List.mem_cons_self,
          (hbelow eco).mpr (.inr ⟨p, List.mem_reverse.mp hp, hmarked⟩)⟩
      · exact ⟨eco, hremaining, rfl, p, List.mem_cons_of_mem _ hp, hmarked⟩

theorem not_leadsTo_nil (x : Str) : ¬LeadsTo tree [] stack x := fun ⟨_,heco,_⟩ => absurd heco List.not_mem_nil

theorem mem_detect_iff (stack : List Place) (remaining : List (Str × List Str)) (found : List Str)
    (x : Str) : x ∈ detect tree stack remaining found ↔ x ∈ found ∨ LeadsTo tree remaining stack x := by
  induction stack, remaining, found using detect.induct tree with
  | case1 remaining found =>
    rw [detect]
    simp [LeadsTo]
  | case2 found place stack =>
    rw [detect, if_pos rfl, or_iff_left (not_leadsTo_nil x)]
  | case3 remaining found place stack hremaining hdepth ih =>
    rw [detect, if_neg hremaining, dif_pos hdepth, ih,
      leadsTo_cons_of_not fun _ => not_markedBelow_of_deep hdepth]
  | case4 remaining found place stack hremaining hdepth htree ih =>
    rw [detect, if_neg hremaining, dif_neg hdepth]
    split
    · rw [ih, leadsTo_cons_of_not fun _ => not_markedBelow_of_none htree]
    · next h => cases htree.symm.trans h
  | case5 remaining found place stack hremaining hdepth entries htree remaining' hnone =>
    rw [detect, if_neg hremaining, dif_neg hdepth]
    split
    · next h => cases htree.symm.trans h
    · next entries' h =>
      obtain rfl := Option.some.inj (htree.symm.trans h)
      have hempty : withoutHits (names entries) remaining = [] := hnone
      dsimp only
      rw [if_pos hempty, leadsTo_cons_of_some hdepth htree, hempty, List.mem_append,
        or_iff_left (not_leadsTo_nil x)]
  | case6 remaining found place stack hremaining hdepth entries htree found' remaining' hsome ih =>
    rw [detect, if_neg hremaining, dif_neg hdepth]
    split
    · next h => cases htree.symm.trans h
    · next entries' h =>
      obtain rfl := Option.some.inj (htree.symm.trans h)
      dsimp only
      rw [if_neg hsome, leadsTo_cons_of_some hdepth htree, ih, List.mem_append, or_assoc]

def SameListings (tree tree' : Tree) : Prop := ∀ path, Option.Rel List.Perm (tree path) (tree' path)

theorem SameListings.symm {tree' : Tree} (h : SameListings tree tree') : SameListings tree' tree := by
  intro path
  have hpath := h path
  generalize tree path = listed at hpath ⊢
  generalize tree' path = listed' at hpath ⊢
  cases hpath with
  | some hperm => exact .some hperm.symm
  | none => exact .none

theorem SameListings.of_mem {tree' : Tree} (h : SameListings tree tree') {path : List Str}
    (hentries : entries ∈ tree path) : ∃ entries' ∈ tree' path, entries.Perm entries' := by
  have hpath := h path
  rw [Option.mem_def.mp hentries] at hpath
  cases htree : tree' path with
  | none =>
    rw [htree] at hpath
    cases hpath
  | some entries' =>
    rw [htree] at hpath
    cases hpath with
    | some hperm => exact ⟨entries', rfl, hperm⟩

theorem hit_perm {names names' : List Str} (h : names.Perm names') (eco : Str × List Str) :
    hit names eco = hit names' eco := by
  rw [hit, hit, Bool.eq_iff_iff, List.any_eq_true, List.any_eq_true]
  exact exists_congr fun name => and_congr_left fun _ => h.mem_iff

theorem markedBelow_of_sameListings {tree' : Tree} (h : SameListings tree tree') {eco : Str × List Str}
    (hmarked : MarkedBelow tree eco place) : MarkedBelow tree' eco place := by
  have hchild : ∀ p q, Child tree p q → Child tree' p q := by
    rintro p q ⟨entries,hentries,hq⟩
    obtain ⟨entries',hentries',hperm⟩ := h.of_mem hentries
    exact ⟨entries', hentries', ((hperm.filter _).map _).mem_iff.mp hq⟩
  obtain ⟨marked,hreach,hdepth,entries,hentries,hhit⟩ := hmarked
  obtain ⟨entries',hentries',hperm⟩ := h.of_mem hentries
  exact ⟨marked, Relation.ReflTransGen.mono hchild _ _ hreach, hdepth, entries', hentries', hit_perm (hperm.map _) eco ▸ hhit⟩

theorem mem_detectEcosystems_iff (x : Str) : x ∈ detectEcosystems tree ↔
    ∃ eco ∈ ecoManifestMarkers, eco.1 = x ∧ MarkedBelow tree eco ([], 0) := by
  rw [detectEcosystems, mem_detect_iff, LeadsTo, or_iff_right List.not_mem_nil]
  simp only [List.mem_singleton, exists_eq_left]

theorem ecosystems_detected_iff (tree : Tree) (x : Str) :
    (x ∈ detectEcosystems tree ↔
      ∃ eco ∈ ecoManifestMarkers, eco.1 = x ∧ MarkedBelow tree eco ([], 0)) ∧
      ∀ tree', SameListings tree tree' → (x ∈ detectEcosystems tree' ↔ x ∈ detectEcosystems tree) := by
  refine ⟨mem_detectEcosystems_iff x, fun tree' h => ?_⟩
  rw [mem_detectEcosystems_iff, mem_detectEcosystems_iff]
  exact exists_congr fun eco => and_congr_right fun _ => and_congr_right fun _ =>
    ⟨markedBelow_of_sameListings h.symm, markedBelow_of_sameListings h⟩

def MarkerFile (tree : Tree) (eco : Str × List Str) (place : Place) : Prop :=
  ∃ entries ∈ tree place.1, ∃ entry ∈ entries, entry.isDir = false ∧ isMarker eco.1 eco.2 entry.name = true

def virtualenvOnly : Tree
  | [] => some [{ name := ".venv".toList, isDir := true }]
  | _ => none

theorem marker_directory_detected :
    "pypi".toList ∈ detectEcosystems virtualenvOnly ∧
      ¬∃ eco place, Relation.ReflTransGen (Child virtualenvOnly) ([], 0) place ∧
        MarkerFile virtualenvOnly eco place := by
  constructor
  · rw [mem_detectEcosystems_iff]
    exact ⟨("pypi".toList, ["pyproject.toml".toList, "setup.py".toList, "requirements.txt".toList,
      "Pipfile".toList]), by decide, rfl, ([], 0), .refl, by decide, _, rfl, by decide⟩
  · rintro ⟨eco,place,_,entries,hentries,entry,hentry,hfile,_⟩
    rw [virtualenvOnly.eq_def, Option.mem_def] at hentries
    split at hentries
    · cases hentries
      rw [List.mem_singleton.mp hentry] at hfile
      cases hfile
    · cases hentries

end Detected

end PicoSentry.Scan.EcosystemDetection
