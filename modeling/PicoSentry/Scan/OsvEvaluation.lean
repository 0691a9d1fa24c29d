import PicoSentry.Scan.Advisory

namespace PicoSentry.Scan.Advisories

open Foundation Version Osv

section Events

variable {U : Unicode}

def parsed (U : Unicode) (events : List Event) : Events VersionTuple :=
  events.filterMap fun event => (parseVersion U event.version).map fun v => (event.kind, v)

def Readable (U : Unicode) (events : List Event) : Prop :=
  ∀ event ∈ events, (parseVersion U event.version).isSome

instance decidableReadable (U : Unicode) (events : List Event) : Decidable (Readable U events) :=
  inferInstanceAs (Decidable (∀ event ∈ events, (parseVersion U event.version).isSome))

theorem parseVersion_nil : parseVersion U [] = none := rfl

theorem parsed_concat (events : List Event) {event : Event} {v : VersionTuple}
    (h : parseVersion U event.version = some v) :
    parsed U (events ++ [event]) = parsed U events ++ [(event.kind, v)] := by
  simp [parsed, h]

theorem lastOf_concat (kind : EventKind) (events : List Event) (event : Event) :
    lastOf kind (events ++ [event]) =
      if event.kind = kind then event.version else lastOf kind events := by
  rw [lastOf, List.foldl_concat, lastOf]

theorem lastOf_spec {events : List Event} (hread : Readable U events)
    (ho : Ordered (parsed U events)) (kind : EventKind) :
    (lastOf kind events = [] ∧ bounds kind (parsed U events) = []) ∨
      ∃ x, parseVersion U (lastOf kind events) = some x ∧ x ∈ bounds kind (parsed U events) ∧
        ∀ y ∈ bounds kind (parsed U events), y ≤ x := by
  induction events using List.reverseRecOn with
  | nil => exact .inl ⟨rfl, rfl⟩
  | append_singleton events event ih =>
    obtain ⟨v,hv⟩ := Option.isSome_iff_exists.mp (hread event (by simp))
    rw [parsed_concat events hv] at ho ⊢
    obtain ⟨ho',_,hlast⟩ := List.pairwise_append.mp ho
    rw [lastOf_concat, bounds_concat]
    simp only
    split
    · next hk =>
      refine .inr ⟨v, hv, by simp, ?_⟩
      intro y hy
      rcases List.mem_append.mp hy with hy | hy
      · exact hlast _ (mem_bounds.mp hy) _ (List.mem_singleton.mpr rfl)
      · exact (List.mem_singleton.mp hy).le
    · next hk =>
      rw [List.append_nil]
      exact ih (fun e he => hread e (List.mem_append_left _ he)) ho'

theorem lastOf_ne_nil {events : List Event} {kind : EventKind} {x : VersionTuple}
    (h : parseVersion U (lastOf kind events) = some x) : lastOf kind events ≠ [] := by
  intro he
  rw [he, parseVersion_nil] at h
  cases h

theorem rangeAffects_iff {introduced : Str} {x : VersionTuple}
    (h : parseVersion U introduced = some x) (t : VersionTuple) (upper : Str) (inclusive : Bool) :
    rangeAffects U t ⟨introduced, upper, inclusive⟩ = true ↔
      x ≤ t ∧ ∀ y, parseVersion U upper = some y →
        if inclusive = true then t ≤ y else t < y := by
  simp only [rangeAffects, h]
  by_cases hlt : t < x
  · simp [hlt]
  · rw [if_neg hlt]
    cases parseVersion U upper with
    | none => simp [not_lt.mp hlt]
    | some y =>
      cases inclusive with
      | true => simp [not_lt.mp hlt]
      | false => simp [not_lt.mp hlt]

theorem recordedRange_affects_iff {events : List Event} (hread : Readable U events)
    (ho : Ordered (parsed U events)) (t : VersionTuple) :
    (∃ range, recordedRange events = some range ∧ rangeAffects U t range = true) ↔
      Spans (parsed U events) t := by
  rw [recordedRange]
  rcases lastOf_spec hread ho .introduced with ⟨hi,hbi⟩ | ⟨x,hx,hxmem,hxmax⟩
  · refine ⟨?_, fun hs => absurd hbi hs.opened⟩
    rintro ⟨range,hr,_⟩
    rw [if_pos hi] at hr
    cases hr
  have habove : (∀ lo ∈ bounds .introduced (parsed U events), lo ≤ t) ↔ x ≤ t :=
    ⟨fun h => h x hxmem, fun h lo hlo => le_trans (hxmax lo hlo) h⟩
  have hopened := List.ne_nil_of_mem hxmem
  simp only [if_neg (lastOf_ne_nil hx)]
  rcases lastOf_spec hread ho .fixed with ⟨hf,hbf⟩ | ⟨y,hy,hymem,hymax⟩
  · rw [if_neg (not_not.mpr hf)]
    rcases lastOf_spec hread ho .lastAffected with ⟨hl,hbl⟩ | ⟨z,hz,hzmem,hzmax⟩
    · rw [if_neg (not_not.mpr hl)]
      simp only [Option.some.injEq, exists_eq_left', rangeAffects_iff hx, parseVersion_nil]
      constructor
      · rintro ⟨hle,_⟩
        exact ⟨hopened, habove.mpr hle, fun h => absurd hbf h, fun _ h => absurd hbl h⟩
      · intro hs
        exact ⟨habove.mp hs.above, by simp⟩
    · rw [if_pos (lastOf_ne_nil hz)]
      simp only [Option.some.injEq, exists_eq_left', rangeAffects_iff hx, hz, forall_eq', if_true]
      constructor
      · rintro ⟨hle,hlast⟩
        exact ⟨hopened, habove.mpr hle, fun h => absurd hbf h, fun _ _ => ⟨z, hzmem, hlast⟩⟩
      · intro hs
        obtain ⟨w,hw,htw⟩ := hs.upTo hbf (List.ne_nil_of_mem hzmem)
        exact ⟨habove.mp hs.above, le_trans htw (hzmax w hw)⟩
  · rw [if_pos (lastOf_ne_nil hy)]
    simp only [Option.some.injEq, exists_eq_left', rangeAffects_iff hx, hy, forall_eq',
      Bool.false_eq_true, if_false]
    have hfixed := List.ne_nil_of_mem hymem
    constructor
    · rintro ⟨hle,hlt⟩
      exact ⟨hopened, habove.mpr hle, fun _ => ⟨y, hymem, hlt⟩, fun h => absurd h hfixed⟩
    · intro hs
      obtain ⟨w,hw,htw⟩ := hs.below hfixed
      exact ⟨habove.mp hs.above, lt_of_lt_of_le htw (hymax w hw)⟩

theorem recordedRange_eq_none_iff {events : List Event} (hread : Readable U events)
    (ho : Ordered (parsed U events)) :
    recordedRange events = none ↔ bounds .introduced (parsed U events) = [] := by
  rw [recordedRange]
  rcases lastOf_spec hread ho .introduced with ⟨hi,hbi⟩ | ⟨x,hx,hxmem,_⟩
  · simp only [if_pos hi, hbi]
  · simp only [if_neg (lastOf_ne_nil hx), List.ne_nil_of_mem hxmem, iff_false]
    split
    · exact Option.some_ne_none _
    · split
      · exact Option.some_ne_none _
      · exact Option.some_ne_none _

end Events

section Entry

variable {U : Unicode}

def Evaluable (U : Unicode) (ranges : List (List Event)) : Prop :=
  ∀ events ∈ ranges, Readable U events ∧ Ordered (parsed U events)

instance decidableEvaluable (U : Unicode) (ranges : List (List Event)) :
    Decidable (Evaluable U ranges) :=
  inferInstanceAs
    (Decidable (∀ events ∈ ranges, Readable U events ∧ Ordered (parsed U events)))

def BelowFirstFix (U : Unicode) (ranges : List (List Event)) (t : VersionTuple) : Prop :=
  ∃ events, ranges.find? (fun events => decide (bounds .fixed (parsed U events) ≠ [])) =
    some events ∧ ∃ hi ∈ bounds .fixed (parsed U events), t < hi

theorem firstFixed_iff {ranges : List (List Event)} (h : Evaluable U ranges) (t : VersionTuple) :
    ((parseVersion U (firstFixed ranges)).any fun fixed => decide (t < fixed)) = true ↔
      BelowFirstFix U ranges t := by
  induction ranges with
  | nil => simp [firstFixed, BelowFirstFix, parseVersion_nil]
  | cons events ranges ih =>
    obtain ⟨hread,ho⟩ := h events List.mem_cons_self
    have ih := ih fun events' he => h events' (List.mem_cons_of_mem _ he)
    rcases lastOf_spec hread ho .fixed with ⟨hf,hbf⟩ | ⟨y,hy,hymem,hymax⟩
    · simpa [firstFixed, BelowFirstFix, hf, hbf] using ih
    · have hne := lastOf_ne_nil hy
      have hbne := List.ne_nil_of_mem hymem
      have hfirst : firstFixed (events :: ranges) = lastOf .fixed events := by
        simp [firstFixed, hne]
      have hfind : (events :: ranges).find?
          (fun events => decide (bounds .fixed (parsed U events) ≠ [])) = some events := by
        simp [hbne]
      rw [hfirst, hy, BelowFirstFix]
      simp only [hfind, Option.some.injEq, exists_eq_left', Option.any_some, decide_eq_true_eq]
      exact ⟨fun hlt => ⟨y, hymem, hlt⟩, fun ⟨w,hw,hlt⟩ => lt_of_lt_of_le hlt (hymax w hw)⟩

theorem mem_withoutRepeats (versions : List Str) (v : Str) :
    v ∈ withoutRepeats versions ↔ v ∈ versions := by
  have hfold : ∀ seen : List Str,
      v ∈ versions.foldl (fun seen v => if v ∈ seen then seen else seen ++ [v]) seen ↔
        v ∈ seen ∨ v ∈ versions := by
    induction versions with
    | nil => simp
    | cons w versions ih =>
      intro seen
      rw [List.foldl_cons, ih]
      split
      · next hw =>
        rw [List.mem_cons]
        constructor
        · rintro (h | h)
          · exact .inl h
          · exact .inr (.inr h)
        · rintro (h | rfl | h)
          · exact .inl h
          · exact .inl hw
          · exact .inr h
      · simp [or_assoc]
  rw [withoutRepeats, hfold]
  simp

end Entry

section Database

variable {U : Unicode}

theorem get?_index (db : AdvisoryDB) (advs : List Advisory) (key : Str) :
    (Dict.get? (advs.foldl (AdvisoryDB.index U) db) key).getD [] =
      (Dict.get? db key).getD [] ++
        advs.filter fun adv => decide (normalizeName U adv.packageName = key) := by
  induction advs generalizing db with
  | nil => simp
  | cons adv advs ih =>
    rw [List.foldl_cons, ih, AdvisoryDB.index, Dict.get?_set, List.filter_cons]
    by_cases hk : normalizeName U adv.packageName = key
    · simp [hk]
    · simp [hk]

theorem mem_check_iff (files : List (List OsvRecord)) (pkgName v : Str) (adv : Advisory) :
    adv ∈ AdvisoryDB.check U (AdvisoryDB.load U [] files) pkgName v ↔
      (∃ record ∈ files.flatten, adv ∈ fromOsv U record) ∧
        normalizeName U adv.packageName = normalizeName U pkgName ∧
          versionAffected U v adv = true := by
  simp only [AdvisoryDB.check, AdvisoryDB.load, get?_index, Dict.get?, Option.getD_none,
    List.nil_append, List.mem_filter, List.mem_flatMap, decide_eq_true_eq, List.mem_flatten,
    and_assoc]
  refine and_congr_left fun _ => ?_
  constructor
  · rintro ⟨entries,hfile,record,hrecord,hadv⟩
    exact ⟨record, ⟨entries, hfile, hrecord⟩, hadv⟩
  · rintro ⟨record,⟨entries,hfile,hrecord⟩,hadv⟩
    exact ⟨entries, hfile, record, hrecord, hadv⟩

def OsvAffects (U : Unicode) (affected : Affected) (t : VersionTuple) : Prop :=
  (∃ events ∈ affected.ranges, InRange (parsed U events) t) ∨
    ∃ listed ∈ affected.versions, parseVersion U listed = some t

instance decidableOsvAffects (U : Unicode) (affected : Affected) (t : VersionTuple) :
    Decidable (OsvAffects U affected t) :=
  inferInstanceAs (Decidable ((∃ events ∈ affected.ranges, InRange (parsed U events) t) ∨
    ∃ listed ∈ affected.versions, parseVersion U listed = some t))

def Reported (U : Unicode) (files : List (List OsvRecord)) (record : OsvRecord)
    (affected : Affected) (pkgName v : Str) : Prop :=
  ∃ adv, entryAdvisory U record affected = some adv ∧
    adv ∈ AdvisoryDB.check U (AdvisoryDB.load U [] files) pkgName v

def Admits (U : Unicode) (affected : Affected) (t : VersionTuple) : Prop :=
  supported U affected = true ∧
    ((∃ events ∈ affected.ranges, Spans (parsed U events) t) ∨
      (∃ listed ∈ affected.versions, versionInRange U t listed = true) ∨
      ((∀ events ∈ affected.ranges, bounds .introduced (parsed U events) = []) ∧
        BelowFirstFix U affected.ranges t))

theorem versionAffected_iff {record : OsvRecord} {affected : Affected} {adv : Advisory}
    (hadv : entryAdvisory U record affected = some adv) (h : Evaluable U affected.ranges)
    {v : Str} {t : VersionTuple} (hv : parseVersion U v = some t) :
    versionAffected U v adv = true ↔ Admits U affected t := by
  rw [entryAdvisory] at hadv
  split at hadv
  · next hs =>
    cases hadv
    have hspans : (affected.ranges.filterMap recordedRange).any (rangeAffects U t) = true ↔
        ∃ events ∈ affected.ranges, Spans (parsed U events) t := by
      simp only [List.any_eq_true, List.mem_filterMap]
      constructor
      · rintro ⟨range,⟨events,he,hr⟩,ha⟩
        exact ⟨events, he, (recordedRange_affects_iff (h events he).1 (h events he).2 t).mp
          ⟨range, hr, ha⟩⟩
      · rintro ⟨events,he,hspan⟩
        obtain ⟨range,hr,ha⟩ :=
          (recordedRange_affects_iff (h events he).1 (h events he).2 t).mpr hspan
        exact ⟨range, ⟨events, he, hr⟩, ha⟩
    have hempty : (affected.ranges.filterMap recordedRange).isEmpty = true ↔
        ∀ events ∈ affected.ranges, bounds .introduced (parsed U events) = [] := by
      rw [List.isEmpty_iff, List.filterMap_eq_nil_iff]
      exact forall₂_congr fun events he => recordedRange_eq_none_iff (h events he).1 (h events he).2
    have hlisted : (withoutRepeats affected.versions).any (versionInRange U t) = true ↔
        ∃ listed ∈ affected.versions, versionInRange U t listed = true := by
      simp only [List.any_eq_true, mem_withoutRepeats]
    simp only [versionAffected, hv, Admits, hs, true_and, Bool.or_eq_true, Bool.and_eq_true,
      hspans, hempty, hlisted, firstFixed_iff h, or_assoc]
    exact or_congr_right or_comm
  · cases hadv

theorem reported_iff {files : List (List OsvRecord)} {record : OsvRecord}
    (hrecord : record ∈ files.flatten) {affected : Affected}
    (haffected : affected ∈ record.affected) (h : Evaluable U affected.ranges) {pkgName : Str}
    (hname : normalizeName U pkgName = normalizeName U affected.name) {v : Str} {t : VersionTuple}
    (hv : parseVersion U v = some t) :
    Reported U files record affected pkgName v ↔ Admits U affected t := by
  constructor
  · rintro ⟨adv,hadv,hmem⟩
    exact (versionAffected_iff hadv h hv).mp ((mem_check_iff files pkgName v adv).mp hmem).2.2
  · intro hadm
    obtain ⟨adv,hadv⟩ : ∃ adv, entryAdvisory U record affected = some adv := by
      rw [entryAdvisory, if_pos hadm.1]
      exact ⟨_, rfl⟩
    have hpackage : adv.packageName = affected.name := by
      rw [entryAdvisory, if_pos hadm.1] at hadv
      cases hadv
      rfl
    refine ⟨adv, hadv, (mem_check_iff files pkgName v adv).mpr ⟨⟨record, hrecord, ?_⟩, ?_, ?_⟩⟩
    · exact List.mem_filterMap.mpr ⟨affected, haffected, hadv⟩
    · rw [hpackage, hname]
    · exact (versionAffected_iff hadv h hv).mpr hadm

theorem forall_spans_iff {events : List Event} (ho : Ordered (parsed U events)) :
    (∀ v t, parseVersion U v = some t → InRange (parsed U events) t → Spans (parsed U events) t) ↔
      KeepsIntervals (parsed U events) := by
  constructor
  · intro hall
    refine ho.keepsIntervals fun e he => ?_
    obtain ⟨event,_,hmap⟩ := List.mem_filterMap.mp he
    obtain ⟨t,ht,rfl⟩ := Option.map_eq_some_iff.mp hmap
    exact hall event.version t ht
  · intro hkeeps v t _ ht
    exact hkeeps.spans ht

theorem osv_affected_reported_iff (U : Unicode) (files : List (List OsvRecord))
    (record : OsvRecord) (hrecord : record ∈ files.flatten) (affected : Affected)
    (haffected : affected ∈ record.affected) (hranges : Evaluable U affected.ranges)
    (pkgName : Str) (hname : normalizeName U pkgName = normalizeName U affected.name) :
    (∀ v t, parseVersion U v = some t →
      ((OsvAffects U affected t → Reported U files record affected pkgName v) ↔
        (OsvAffects U affected t → Admits U affected t))) ∧
      ∀ events ∈ affected.ranges,
        ((∀ v t, parseVersion U v = some t → InRange (parsed U events) t →
            Spans (parsed U events) t) ↔
          KeepsIntervals (parsed U events)) := by
  refine ⟨fun v t hv => ?_, fun events he => ?_⟩
  · exact imp_congr_right fun _ => reported_iff hrecord haffected hranges hname hv
  · exact forall_spans_iff (hranges events he).2

end Database

section Lost

def npmEntry (events : List Event) : Affected where
  ecosystem := "npm".toList
  name := "foo".toList
  ranges := [events]

def recordOf (affected : Affected) : OsvRecord where
  id := "GHSA-1".toList
  affected := [affected]

def oneInterval : List Event :=
  [⟨.introduced, "1.0.0".toList⟩, ⟨.fixed, "2.0.0".toList⟩]

def twoIntervals : List Event :=
  [⟨.introduced, "1.0.0".toList⟩, ⟨.fixed, "1.1.0".toList⟩, ⟨.introduced, "2.0.0".toList⟩,
   ⟨.fixed, "2.1.0".toList⟩]

theorem osv_affected_reported_one_interval :
    OsvAffects Unicode.basic (npmEntry oneInterval) (versionTuple 1 5 0 ⊤) ∧
      Reported Unicode.basic [[recordOf (npmEntry oneInterval)]] (recordOf (npmEntry oneInterval))
        (npmEntry oneInterval) "Foo".toList "1.5".toList := by
  have haffects : OsvAffects Unicode.basic (npmEntry oneInterval) (versionTuple 1 5 0 ⊤) := by
    decide +kernel
  have hspans : Spans (parsed Unicode.basic oneInterval) (versionTuple 1 5 0 ⊤) :=
    ⟨by decide +kernel, by decide +kernel, by decide +kernel, by decide +kernel⟩
  obtain ⟨hreported,_⟩ := osv_affected_reported_iff Unicode.basic
    [[recordOf (npmEntry oneInterval)]] (recordOf (npmEntry oneInterval)) (by simp)
    (npmEntry oneInterval) (by simp [recordOf]) (by decide +kernel) "Foo".toList
    (by decide +kernel)
  refine ⟨haffects, (hreported _ _ (by decide +kernel)).mpr (fun _ => ?_) haffects⟩
  exact ⟨by decide +kernel, .inl ⟨oneInterval, List.mem_singleton.mpr rfl, hspans⟩⟩

theorem earlier_interval_not_reported :
    Evaluable Unicode.basic (npmEntry twoIntervals).ranges ∧
      parseVersion Unicode.basic "1.0.5".toList = some (versionTuple 1 0 5 ⊤) ∧
      OsvAffects Unicode.basic (npmEntry twoIntervals) (versionTuple 1 0 5 ⊤) ∧
      AdvisoryDB.check Unicode.basic
        (AdvisoryDB.load Unicode.basic [] [[recordOf (npmEntry twoIntervals)]]) "foo".toList
        "1.0.5".toList = [] := by
  decide +kernel

end Lost

end PicoSentry.Scan.Advisories
