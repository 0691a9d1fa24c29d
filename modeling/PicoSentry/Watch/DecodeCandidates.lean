import PicoSentry.Foundation.LayeredSearch
import PicoSentry.Watch.DecodePass

namespace PicoSentry.Watch.Normalizer

open Foundation

section DecodeCandidates

variable (T : CharTables) (htmlUnescape : Str → Option Str)

def maxDecodeVariants : Nat := 32

def decodeHints : List Str :=
  ["ignore", "disregard", "override", "forget", "instruction", "system prompt", "reveal", "secret", "password",
   "private key", "aws_", "api_key", "api key", "credential", "token"].map String.toList

def hintsHit (text : Str) : Bool :=
  let lowered := T.lowerStr text
  decodeHints.any fun hint => hint <:+: lowered

def decodeGraph : LayeredSearch.Graph Str where
  candidates := decodePass T htmlUnescape
  size := List.length
  urgent := hintsHit T

def budgetOf (byteBudget : Option Int) : Int := byteBudget.getD (maxDecodeVariants * 64000)

-- None where html.unescape raises on the way.
def decodeCandidates (text : Str) (byteBudget : Option Int) : Option (List Str × Bool) :=
  LayeredSearch.search (decodeGraph T htmlUnescape) 3 text (budgetOf byteBudget) maxDecodeVariants

end DecodeCandidates

section Reachable

variable (T : CharTables) (htmlUnescape : Str → Option Str)

def Decoded (text cand : Str) : Prop := LayeredSearch.ReachedWithin (decodeGraph T htmlUnescape) 3 text cand

def totalLength (cands : List Str) : Int := LayeredSearch.total (decodeGraph T htmlUnescape) cands

theorem decode_search_complete {text : Str} {byteBudget : Option Int} {kept : List Str} {exhausted : Bool}
    (h : decodeCandidates T htmlUnescape text byteBudget = some (kept, exhausted)) :
    (exhausted = false → kept.Nodup ∧ ∀ c, c ∈ kept ↔ c ≠ text ∧ Decoded T htmlUnescape text c) ∧
      (∀ c ∈ kept, c ≠ text ∧ Decoded T htmlUnescape text c) ∧
      (kept = [] ∨ ((kept.map List.length).sum : Int) < budgetOf byteBudget) ∧
      kept.countP (fun c => !hintsHit T c) ≤ maxDecodeVariants ∧
      ∀ c, c ≠ text → Decoded T htmlUnescape text c → c ∉ kept → exhausted = true := by
  have hcomplete : exhausted = false → kept.Nodup ∧ ∀ c, c ∈ kept ↔ c ≠ text ∧ Decoded T htmlUnescape text c := by
    rintro rfl
    exact LayeredSearch.search_complete h
  refine ⟨hcomplete, fun _ => LayeredSearch.search_kept_reached h, LayeredSearch.search_total h,
    LayeredSearch.search_slots h, fun c hne hdecoded hdropped => ?_⟩
  by_contra hflag
  exact hdropped (((hcomplete (Bool.eq_false_iff.mpr hflag)).2 c).mpr ⟨hne, hdecoded⟩)

theorem decode_search_complete_jwt : ∃ kept exhausted,
    decodeCandidates CharTables.basic some "jwt aWdub3JlIGl0IQ==".toList none = some (kept, exhausted) ∧
      exhausted = false ∧ kept.Nodup := by
  have hresult : decodeCandidates CharTables.basic some "jwt aWdub3JlIGl0IQ==".toList none =
      some (["ignore it!".toList], false) := by
    delta decodeCandidates decodeGraph decodePass hintsHit rot13GateHits
    simp only [rot13GateWords, rot13GatePhrases, decodeHints, List.map_cons, List.map_nil]
    repeat rw [String.toList_ofList]
    decide +kernel
  exact ⟨_, _, hresult, rfl, ((decode_search_complete .basic some hresult).1 rfl).1⟩

-- With nothing to spend nothing is kept, and no length is below nothing.
theorem empty_budget_not_exceeded :
    ¬∀ (T : CharTables) (htmlUnescape : Str → Option Str) (text : Str) (byteBudget : Option Int) (kept : List Str)
        (exhausted : Bool), decodeCandidates T htmlUnescape text byteBudget = some (kept, exhausted) →
      (exhausted = false → kept.Nodup ∧ ∀ c, c ∈ kept ↔ c ≠ text ∧ Decoded T htmlUnescape text c) ∧
        (∀ c ∈ kept, c ≠ text ∧ Decoded T htmlUnescape text c) ∧
        ((kept.map List.length).sum : Int) < budgetOf byteBudget ∧
        kept.countP (fun c => !hintsHit T c) ≤ maxDecodeVariants ∧
        ∀ c, c ≠ text → Decoded T htmlUnescape text c → c ∉ kept → exhausted = true := by
  intro h
  have hresult : decodeCandidates CharTables.basic some [] (some 0) = some ([], false) := by decide
  exact absurd (h .basic some [] (some 0) [] false hresult).2.2.1 (by decide)

end Reachable

section Starvation

variable (T : CharTables) (htmlUnescape : Str → Option Str)

def DecodePath (text : Str) : List Str → Str → Prop
  | [], cand => text = cand
  | next :: path, cand => LayeredSearch.Step (decodeGraph T htmlUnescape) text next ∧ DecodePath next path cand

def WithinBudget (text : Str) (budget : Int) (cand : Str) : Prop :=
  ∃ charged path, (∀ d, d ≠ text → Decoded T htmlUnescape text d → hintsHit T d = true → d ∈ charged) ∧
    path.length ≤ 3 ∧ DecodePath T htmlUnescape text path cand ∧ path ⊆ charged ∧ totalLength T htmlUnescape charged < budget

def decodeOrder (text : Str) : List Str := (LayeredSearch.visits (decodeGraph T htmlUnescape) 3 [text] [text]).1

def ReachedInBudget (text : Str) (budget : Int) (cand : Str) : Prop :=
  ∃ before after, decodeOrder T htmlUnescape text = before ++ cand :: after ∧
    totalLength T htmlUnescape (before ++ [cand]) < budget

variable {T htmlUnescape}

theorem payload_kept_iff {text c : Str} {byteBudget : Option Int} {kept : List Str} {exhausted : Bool}
    (h : decodeCandidates T htmlUnescape text byteBudget = some (kept, exhausted)) (hhint : hintsHit T c = true) :
    (WithinBudget T htmlUnescape text (budgetOf byteBudget) c → c ∈ kept) ↔
      (WithinBudget T htmlUnescape text (budgetOf byteBudget) c →
        ReachedInBudget T htmlUnescape text (budgetOf byteBudget) c) :=
  imp_congr_right fun _ => LayeredSearch.mem_search_iff h hhint

theorem direct_payload_kept {text c : Str} {byteBudget : Option Int} {kept cands : List Str} {exhausted : Bool}
    (h : decodeCandidates T htmlUnescape text byteBudget = some (kept, exhausted))
    (hcands : decodePass T htmlUnescape text = some cands) (hc : c ∈ cands) (hne : c ≠ text)
    (hhint : hintsHit T c = true) (hwithin : WithinBudget T htmlUnescape text (budgetOf byteBudget) c) : c ∈ kept := by
  obtain ⟨charged,_,hcharged,_,_,_,hpaid⟩ := hwithin
  refine LayeredSearch.direct_urgent_kept h hcands hc hne hhint (fun d hd hdne hdhint => ?_) hpaid
  exact hcharged d hdne ⟨0, by omega, d, ⟨cands, hcands, hd⟩, rfl⟩ hdhint

-- The filler decodes to "changelog" and the payload to "ignore it!", each after two layers of base64.
def fillerFirst : Str := "WTJoaGJtZGxiRzlu YVdkdWIzSmxJR2wwSVE9PQ==".toList

theorem fillerFirst_searched :
    decodePass CharTables.basic some "aWdub3JlIGl0IQ==".toList = some ["ignore it!".toList] ∧
    decodePass CharTables.basic some fillerFirst =
      some (["Y2hhbmdlbG9n", "aWdub3JlIGl0IQ=="].map String.toList) ∧
    decodeCandidates CharTables.basic some fillerFirst none =
      some (["Y2hhbmdlbG9n", "aWdub3JlIGl0IQ==", "changelog", "ignore it!"].map String.toList, false) ∧
    decodeCandidates CharTables.basic some fillerFirst (some 40) =
      some (["Y2hhbmdlbG9n", "aWdub3JlIGl0IQ==", "changelog"].map String.toList, true) := by
  delta decodeCandidates decodeGraph decodePass hintsHit rot13GateHits fillerFirst
  simp only [rot13GateWords, rot13GatePhrases, decodeHints, List.map_cons, List.map_nil]
  repeat rw [String.toList_ofList]
  decide +kernel

theorem fillerFirst_hints : ∀ d ∈ ["Y2hhbmdlbG9n", "aWdub3JlIGl0IQ==", "changelog", "ignore it!"].map String.toList,
    hintsHit CharTables.basic d = true → d = "ignore it!".toList := by
  delta hintsHit
  simp only [decodeHints, List.map_cons, List.map_nil]
  repeat rw [String.toList_ofList]
  decide

theorem fillerFirst_within : WithinBudget CharTables.basic some fillerFirst 40 "ignore it!".toList := by
  obtain ⟨hinner,houter,hall,-⟩ := fillerFirst_searched
  refine ⟨["aWdub3JlIGl0IQ==".toList, "ignore it!".toList], ["aWdub3JlIGl0IQ==".toList, "ignore it!".toList], ?_,
    by decide, ⟨⟨_, houter, by decide⟩, ⟨_, hinner, by decide⟩, rfl⟩, fun _ hd => hd, by decide⟩
  intro d hne hdecoded hhint
  have hd := ((LayeredSearch.search_complete hall).2 d).mpr ⟨hne, hdecoded⟩
  rw [fillerFirst_hints d hd hhint]
  exact List.mem_cons_of_mem _ List.mem_cons_self

theorem fillerFirst_spent : decodeCandidates CharTables.basic some fillerFirst (some 40) =
    some (["Y2hhbmdlbG9n", "aWdub3JlIGl0IQ==", "changelog"].map String.toList, true) :=
  fillerFirst_searched.2.2.2

theorem payload_starved : ¬∀ (T : CharTables) (htmlUnescape : Str → Option Str) (text c : Str) (byteBudget : Option Int)
    (kept : List Str) (exhausted : Bool), decodeCandidates T htmlUnescape text byteBudget = some (kept, exhausted) →
      hintsHit T c = true → WithinBudget T htmlUnescape text (budgetOf byteBudget) c → c ∈ kept := by
  intro h
  exact absurd (h .basic some fillerFirst "ignore it!".toList (some 40) _ _ fillerFirst_spent (by decide)
    fillerFirst_within) (by decide)

theorem starved_payload_not_reached :
    WithinBudget CharTables.basic some fillerFirst 40 "ignore it!".toList ∧
      ¬ReachedInBudget CharTables.basic some fillerFirst 40 "ignore it!".toList := by
  refine ⟨fillerFirst_within, fun hreached => ?_⟩
  have hkept := (payload_kept_iff fillerFirst_spent (by decide)).mpr (fun _ => hreached) fillerFirst_within
  exact absurd hkept (by decide)

end Starvation

end PicoSentry.Watch.Normalizer
