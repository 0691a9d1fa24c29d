import Mathlib.Algebra.BigOperators.Group.List.Basic
import Mathlib.Algebra.Order.Ring.Rat
import Mathlib.Algebra.Order.Field.Basic
import PicoSentry.Foundation.Recent
import PicoSentry.Foundation.SortedBy
import PicoSentry.Foundation.Text

namespace PicoSentry.Scan.CacheEviction

open Foundation

structure Caps where
  maxEntries : Int
  maxSizeMb : ℚ

-- A *.json file of the cache directory; cachedAt is none where the text is no JSON.
structure CacheFile where
  path : Str
  size : Nat
  cachedAt : Option ℚ
  deriving DecidableEq

structure CacheDir where
  files : List CacheFile
  nodup : (files.map CacheFile.path).Nodup

section Enforce

variable (c : Caps)

def underEntryCap (currentCount : Int) : Prop := c.maxEntries ≤ 0 ∨ currentCount ≤ c.maxEntries

def underSizeCap (totalSize : Int) : Prop :=
  c.maxSizeMb ≤ 0 ∨ (totalSize : ℚ) / (1024 * 1024) ≤ c.maxSizeMb

instance (currentCount : Int) : Decidable (underEntryCap c currentCount) :=
  inferInstanceAs (Decidable (_ ∨ _))

instance (totalSize : Int) : Decidable (underSizeCap c totalSize) :=
  inferInstanceAs (Decidable (_ ∨ _))

def addSize (total : Int × List CacheFile) (file : CacheFile) : Int × List CacheFile :=
  (total.1 + file.size, total.2 ++ [file])

def unlinked (entries : Int) : Int → Int → List CacheFile → List CacheFile
  | _, _, [] => []
  | evicted, totalSize, file :: rest =>
    if underEntryCap c (entries - evicted) ∧ underSizeCap c totalSize then []
    else file :: unlinked entries (evicted + 1) (totalSize - file.size) rest

def readable (files : List CacheFile) : List CacheFile := files.filter fun file => file.cachedAt.isSome

def oldestFirst (files : List CacheFile) : List CacheFile :=
  ascending (fun file => file.cachedAt.getD 0) (readable files)

def evictedFiles (files : List CacheFile) : List CacheFile :=
  let total := (oldestFirst files).foldl addSize (0, [])
  unlinked c total.2.length 0 total.1 total.2

def enforceCaps (dir : CacheDir) : List CacheFile × Nat :=
  if c.maxEntries ≤ 0 ∧ c.maxSizeMb ≤ 0 then (dir.files, 0)
  else
    let evicted := evictedFiles c dir.files
    ((readable dir.files).filter fun file => file.path ∉ evicted.map CacheFile.path, evicted.length)

end Enforce

section Longest

variable {c : Caps} {files : List CacheFile}

def totalSize (files : List CacheFile) : Int := (files.map fun file => (file.size : Int)).sum

def UnderCaps (c : Caps) (files : List CacheFile) : Prop :=
  underEntryCap c files.length ∧ underSizeCap c (totalSize files)

theorem totalSize_cons (file : CacheFile) (files : List CacheFile) :
    totalSize (file :: files) = file.size + totalSize files := List.sum_cons

theorem foldl_addSize (files : List CacheFile) (start : Int × List CacheFile) :
    files.foldl addSize start = (start.1 + totalSize files, start.2 ++ files) := by
  induction files generalizing start with
  | nil => simp [totalSize]
  | cons file files ih =>
    rw [List.foldl_cons, ih, addSize, totalSize_cons, add_assoc, List.append_assoc]
    rfl

theorem underCaps_nil (c : Caps) : UnderCaps c [] := by
  refine ⟨(le_or_gt c.maxEntries 0).imp_right fun h => h.le, (le_or_gt c.maxSizeMb 0).imp_right fun h => ?_⟩
  simpa [totalSize] using h.le

theorem unlinked_spec (rest : List CacheFile) {entries evicted total : Int}
    (hcount : entries - evicted = rest.length) (htotal : total = totalSize rest) :
    ∃ kept, unlinked c entries evicted total rest ++ kept = rest ∧
      LongestSuffix (UnderCaps c) rest kept := by
  induction rest generalizing evicted total with
  | nil => exact ⟨[], rfl, .of_holds (underCaps_nil c)⟩
  | cons file rest ih =>
    rw [unlinked, hcount, htotal]
    split
    · next hunder => exact ⟨file :: rest, rfl, .of_holds hunder⟩
    · next hover =>
      have hcount' : entries - (evicted + 1) = rest.length := by
        rw [List.length_cons] at hcount
        push_cast at hcount
        omega
      have htotal' : totalSize (file :: rest) - file.size = totalSize rest := by
        rw [totalSize_cons, add_sub_cancel_left]
      obtain ⟨kept,hsplit,hlongest⟩ := ih hcount' htotal'
      exact ⟨kept, congrArg (file :: ·) hsplit, hlongest.cons hover⟩

theorem evictedFiles_spec (c : Caps) (files : List CacheFile) :
    ∃ kept, evictedFiles c files ++ kept = oldestFirst files ∧
      LongestSuffix (UnderCaps c) (oldestFirst files) kept := by
  rw [evictedFiles, foldl_addSize]
  dsimp only
  rw [List.nil_append]
  exact unlinked_spec _ (by simp) (by simp)

theorem perm_oldestFirst (files : List CacheFile) : (oldestFirst files).Perm (readable files) :=
  perm_ascending _ _

theorem filter_evicted {evicted kept readables : List CacheFile}
    (hperm : (evicted ++ kept).Perm readables) (hnodup : (readables.map CacheFile.path).Nodup) :
    (readables.filter fun file => file.path ∉ evicted.map CacheFile.path).Perm kept := by
  have hpaths : ((evicted ++ kept).map CacheFile.path).Nodup := (hperm.map _).nodup_iff.mpr hnodup
  rw [List.map_append, List.nodup_append] at hpaths
  refine (hperm.symm.filter _).trans (List.Perm.of_eq ?_)
  have hgone : evicted.filter (fun file => file.path ∉ evicted.map CacheFile.path) = [] :=
    List.filter_eq_nil_iff.mpr fun file hfile => by simpa using ⟨file, hfile, rfl⟩
  have hstay : kept.filter (fun file => file.path ∉ evicted.map CacheFile.path) = kept :=
    List.filter_eq_self.mpr fun file hfile => decide_eq_true fun hmem =>
      hpaths.2.2 _ hmem _ (List.mem_map_of_mem hfile) rfl
  rw [List.filter_append, hgone, hstay, List.nil_append]

theorem underCaps_perm {files files' : List CacheFile} (h : files.Perm files') :
    UnderCaps c files ↔ UnderCaps c files' := by
  have hsize : totalSize files = totalSize files' := (h.map _).sum_eq
  rw [UnderCaps, UnderCaps, h.length_eq, hsize]

theorem readable_filter (p : CacheFile → Bool) (files : List CacheFile) :
    readable ((readable files).filter p) = (readable files).filter p := by
  rw [readable, readable, List.filter_filter, List.filter_filter, List.filter_filter]
  refine List.filter_congr fun file _ => ?_
  cases file.cachedAt.isSome <;> simp

theorem eviction_keeps_longest_suffix (c : Caps) (dir : CacheDir) :
    (∃ kept, LongestSuffix (UnderCaps c) (oldestFirst dir.files) kept ∧
      (readable (enforceCaps c dir).1).Perm kept ∧
        (enforceCaps c dir).2 + kept.length = (readable dir.files).length) ∧
      (UnderCaps c (readable dir.files) →
        readable (enforceCaps c dir).1 = readable dir.files ∧ (enforceCaps c dir).2 = 0) := by
  rw [enforceCaps]
  split
  · next hoff =>
    have hunder : UnderCaps c (oldestFirst dir.files) := ⟨.inl hoff.1, .inl hoff.2⟩
    have hperm := perm_oldestFirst dir.files
    exact ⟨⟨_, .of_holds hunder, hperm.symm, by simp [hperm.length_eq]⟩, fun _ => ⟨rfl, rfl⟩⟩
  · obtain ⟨kept,hsplit,hlongest⟩ := evictedFiles_spec c dir.files
    have hperm : (evictedFiles c dir.files ++ kept).Perm (readable dir.files) :=
      hsplit ▸ perm_oldestFirst dir.files
    have hnodup : ((readable dir.files).map CacheFile.path).Nodup :=
      dir.nodup.sublist (List.filter_sublist.map _)
    dsimp only
    rw [readable_filter]
    refine ⟨⟨kept, hlongest, filter_evicted hperm hnodup, ?_⟩, fun hunder => ?_⟩
    · rw [← hperm.length_eq, List.length_append]
    · have hwhole := (underCaps_perm (perm_oldestFirst dir.files)).mpr hunder
      have hkept : kept = oldestFirst dir.files := hlongest.unique (.of_holds hwhole)
      have hnone : evictedFiles c dir.files = [] := by
        rw [hkept] at hsplit
        exact List.append_left_eq_self.mp hsplit
      rw [hnone]
      exact ⟨List.filter_eq_self.mpr fun _ _ => rfl, rfl⟩

end Longest

end PicoSentry.Scan.CacheEviction
