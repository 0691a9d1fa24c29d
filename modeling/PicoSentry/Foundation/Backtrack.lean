import PicoSentry.Foundation.Substitute

namespace PicoSentry.Foundation

inductive Re where
  | eps
  | chars (p : Char → Bool)
  | seq (r s : Re)
  | alt (r s : Re)
  | run (p : Char → Bool) (least : Nat) (most : Option Nat)
  | anything
  | boundary

namespace Re

section Build

def one (c : Char) : Re := chars fun d => d == c

def text : Str → Re
  | [] => eps
  | c :: w => seq (one c) (text w)

def opt (r : Re) : Re := alt r eps

def times : Nat → Re → Re
  | 0, _ => eps
  | n + 1, r => seq r (times n r)

def all : List Re → Re
  | [] => eps
  | [r] => r
  | r :: rs => seq r (all rs)

def any : List Re → Re
  | [] => chars fun _ => false
  | [r] => r
  | r :: rs => alt r (any rs)

end Build

section Ways

variable (word : Char → Bool)

-- Whether a word character stands before a place, and the text behind the place.
abbrev Place := Bool × Str

def runWays (p : Char → Bool) : Nat → Option Nat → Bool → Str → List Place
  | least, _, before, [] => if least = 0 then [(before, [])] else []
  | least, most, before, c :: rest =>
    (if p c && most.all (0 < ·) then runWays p (least - 1) (most.map (· - 1)) (word c) rest else []) ++
      if least = 0 then [(before, c :: rest)] else []

def anyWays : Bool → Str → List Place
  | before, [] => [(before, [])]
  | before, c :: rest => (before, c :: rest) :: anyWays (word c) rest

-- Where a match that starts at a place can end, in the order in which re tries the ways.
def ways : Re → Place → List Place
  | eps, place => [place]
  | chars _, (_, []) => []
  | chars p, (_, c :: rest) => if p c then [(word c, rest)] else []
  | seq r s, place => (ways r place).flatMap (ways s)
  | alt r s, place => ways r place ++ ways s place
  | run p least most, place => runWays word p least most place.1 place.2
  | anything, place => anyWays word place.1 place.2
  | boundary, place => if place.1 = place.2.head?.any word then [] else [place]

def replacing (r : Re) (new : Str) : Matcher Str := fun before text =>
  (r.ways word (before.any word, text)).head?.map fun place => (new, place.2)

end Ways

section Accepts

variable (word : Char → Bool)

def behind (before : Bool) (w : Str) : Bool := w.getLast?.elim before word

def ahead (after : Bool) (w : Str) : Bool := w.head?.elim after word

-- The texts of a pattern between the kinds of characters that stand before and behind them.
def Accepts : Re → Bool → Str → Bool → Prop
  | eps, _, w, _ => w = []
  | chars p, _, w, _ => ∃ c, w = [c] ∧ p c = true
  | seq r s, before, w, after => ∃ u v, w = u ++ v ∧ r.Accepts before u (ahead word after v) ∧
      s.Accepts (behind word before u) v after
  | alt r s, before, w, after => r.Accepts before w after ∨ s.Accepts before w after
  | run p least most, _, w, _ => (∀ c ∈ w, p c = true) ∧ least ≤ w.length ∧ ∀ n ∈ most, w.length ≤ n
  | anything, _, _, _ => True
  | boundary, before, w, after => w = [] ∧ before ≠ after

variable {word}

@[simp] theorem behind_nil (before : Bool) : behind word before [] = before := rfl

@[simp] theorem ahead_nil (after : Bool) : ahead word after [] = after := rfl

@[simp] theorem ahead_cons (after : Bool) (c : Char) (w : Str) : ahead word after (c :: w) = word c := rfl

theorem behind_cons (before : Bool) (c : Char) (w : Str) : behind word before (c :: w) = behind word (word c) w := by
  cases w with
  | nil => rfl
  | cons d w => rw [behind, behind, List.getLast?_cons_cons, List.getLast?_cons, Option.elim_some, Option.elim_some]

theorem behind_append (before : Bool) (u v : Str) : behind word before (u ++ v) = behind word (behind word before u) v := by
  induction u generalizing before with
  | nil => rfl
  | cons c u ih => rw [List.cons_append, behind_cons, behind_cons, ih]

theorem ahead_append (after : Bool) (u v : Str) : ahead word after (u ++ v) = ahead word (ahead word after v) u := by
  cases u <;> rfl

theorem ahead_false (w : Str) : ahead word false w = w.head?.any word := by
  cases w <;> rfl

theorem mem_runWays {p : Char → Bool} {least : Nat} {most : Option Nat} {before before' : Bool} {t o : Str} :
    (before', o) ∈ runWays word p least most before t ↔ ∃ w, t = w ++ o ∧ before' = behind word before w ∧
      (∀ c ∈ w, p c = true) ∧ least ≤ w.length ∧ ∀ n ∈ most, w.length ≤ n := by
  have hstop : ∀ (least : Nat) (before : Bool) (t : Str),
      (before', o) ∈ (if least = 0 then [(before, t)] else []) ↔ least = 0 ∧ before' = before ∧ o = t := by
    intro least before t
    split
    · next h => simp [h]
    · next h => simp [h]
  induction t generalizing least most before with
  | nil =>
    rw [runWays, hstop]
    constructor
    · rintro ⟨rfl,rfl,rfl⟩
      exact ⟨[], rfl, rfl, by simp, Nat.le_refl 0, fun _ _ => Nat.zero_le _⟩
    · rintro ⟨w,hw,rfl,_,hleast,_⟩
      obtain ⟨rfl,rfl⟩ := List.append_eq_nil_iff.mp hw.symm
      exact ⟨Nat.le_zero.mp hleast, rfl, rfl⟩
  | cons c rest ih =>
    rw [runWays, List.mem_append, hstop]
    constructor
    · rintro (hmore | ⟨rfl,rfl,rfl⟩)
      · split at hmore
        · next hc =>
          rw [Bool.and_eq_true] at hc
          obtain ⟨w,rfl,rfl,hall,hleast,hmost⟩ := ih.mp hmore
          refine ⟨c :: w, rfl, (behind_cons _ _ _).symm, List.forall_mem_cons.mpr ⟨hc.1, hall⟩, ?_, fun n hn => ?_⟩
          · rw [List.length_cons]
            omega
          · have hpos := hc.2
            rw [hn, Option.all_some, decide_eq_true_eq] at hpos
            have hle := hmost (n - 1) (by rw [hn]; rfl)
            rw [List.length_cons]
            omega
        · cases hmore
      · exact ⟨[], rfl, rfl, by simp, Nat.le_refl 0, fun _ _ => Nat.zero_le _⟩
    · rintro ⟨w,hw,rfl,hall,hleast,hmost⟩
      cases w with
      | nil => exact .inr ⟨Nat.le_zero.mp hleast, rfl, hw.symm⟩
      | cons d w =>
        obtain ⟨rfl,rfl⟩ := List.cons.inj hw
        rw [List.length_cons] at hleast
        have hc : (p c && most.all (0 < ·)) = true := by
          rw [Bool.and_eq_true, Option.all_eq_true]
          refine ⟨hall c List.mem_cons_self, fun n hn => decide_eq_true ?_⟩
          have hle := hmost n hn
          rw [List.length_cons] at hle
          omega
        rw [if_pos hc]
        refine .inl (ih.mpr ⟨w, rfl, behind_cons _ _ _, fun e he => hall e (List.mem_cons_of_mem _ he), by omega, ?_⟩)
        intro n hn
        obtain ⟨m,hm,rfl⟩ := Option.map_eq_some_iff.mp hn
        have hle := hmost m hm
        rw [List.length_cons] at hle
        omega

theorem mem_anyWays {before before' : Bool} {t o : Str} :
    (before', o) ∈ anyWays word before t ↔ ∃ w, t = w ++ o ∧ before' = behind word before w := by
  induction t generalizing before with
  | nil =>
    rw [anyWays, List.mem_singleton, Prod.mk.injEq]
    constructor
    · rintro ⟨rfl,rfl⟩
      exact ⟨[], rfl, rfl⟩
    · rintro ⟨w,hw,rfl⟩
      obtain ⟨rfl,rfl⟩ := List.append_eq_nil_iff.mp hw.symm
      exact ⟨rfl, rfl⟩
  | cons c rest ih =>
    rw [anyWays, List.mem_cons, Prod.mk.injEq, ih]
    constructor
    · rintro (⟨rfl,rfl⟩ | ⟨w,rfl,rfl⟩)
      · exact ⟨[], rfl, rfl⟩
      · exact ⟨c :: w, rfl, (behind_cons _ _ _).symm⟩
    · rintro ⟨w,hw,rfl⟩
      cases w with
      | nil => exact .inl ⟨rfl, hw.symm⟩
      | cons d w =>
        obtain ⟨rfl,rfl⟩ := List.cons.inj hw
        exact .inr ⟨w, rfl, behind_cons _ _ _⟩

theorem mem_ways {r : Re} {before before' : Bool} {t o : Str} : (before', o) ∈ r.ways word (before, t) ↔
    ∃ w, t = w ++ o ∧ before' = behind word before w ∧ r.Accepts word before w (ahead word false o) := by
  induction r generalizing before before' t o with
  | eps =>
    rw [ways, List.mem_singleton, Prod.mk.injEq]
    constructor
    · rintro ⟨rfl,rfl⟩
      exact ⟨[], rfl, rfl, rfl⟩
    · rintro ⟨w,rfl,rfl,rfl⟩
      exact ⟨rfl, rfl⟩
  | chars p =>
    cases t with
    | nil =>
      refine iff_of_false List.not_mem_nil ?_
      rintro ⟨w,hw,_,c,rfl,_⟩
      cases hw
    | cons c rest =>
      rw [ways]
      constructor
      · intro h
        split at h
        · next hc =>
          obtain ⟨rfl,rfl⟩ := Prod.mk.inj (List.mem_singleton.mp h)
          exact ⟨[c], rfl, rfl, c, rfl, hc⟩
        · cases h
      · rintro ⟨w,hw,rfl,d,rfl,hd⟩
        obtain ⟨rfl,rfl⟩ := List.cons.inj hw
        rw [if_pos hd]
        exact List.mem_singleton_self _
  | seq r s ihr ihs =>
    rw [ways, List.mem_flatMap]
    constructor
    · rintro ⟨⟨between,middle⟩,hfirst,hsecond⟩
      obtain ⟨u,rfl,rfl,hu⟩ := ihr.mp hfirst
      obtain ⟨v,rfl,rfl,hv⟩ := ihs.mp hsecond
      refine ⟨u ++ v, (List.append_assoc _ _ _).symm, (behind_append _ _ _).symm, u, v, rfl, ?_, hv⟩
      rwa [ahead_append] at hu
    · rintro ⟨w,rfl,rfl,u,v,rfl,hu,hv⟩
      refine ⟨(behind word before u, v ++ o), ihr.mpr ⟨u, List.append_assoc _ _ _, rfl, ?_⟩, ihs.mpr ⟨v, rfl, behind_append _ _ _, hv⟩⟩
      rwa [ahead_append]
  | alt r s ihr ihs =>
    rw [ways, List.mem_append, ihr, ihs]
    constructor
    · rintro (⟨w,ht,hb,hw⟩ | ⟨w,ht,hb,hw⟩)
      · exact ⟨w, ht, hb, .inl hw⟩
      · exact ⟨w, ht, hb, .inr hw⟩
    · rintro ⟨w,ht,hb,hw | hw⟩
      · exact .inl ⟨w, ht, hb, hw⟩
      · exact .inr ⟨w, ht, hb, hw⟩
  | run p least most => exact mem_runWays
  | anything =>
    rw [ways, mem_anyWays]
    exact exists_congr fun w => and_congr_right fun _ => (and_iff_left trivial).symm
  | boundary =>
    rw [ways, ← ahead_false]
    constructor
    · intro h
      split at h
      · cases h
      · next hne =>
        obtain ⟨rfl,rfl⟩ := Prod.mk.inj (List.mem_singleton.mp h)
        exact ⟨[], rfl, rfl, rfl, hne⟩
    · rintro ⟨w,rfl,rfl,rfl,hne⟩
      rw [List.nil_append, behind_nil]
      dsimp only
      rw [if_neg hne]
      exact List.mem_singleton_self _

end Accepts

section Search

variable {word : Char → Bool} {r s : Re} {new : Str} {before : Option Char}

theorem replacing_eq_none_iff {t : Str} : r.replacing word new before t = none ↔
    ∀ w o, t = w ++ o → ¬r.Accepts word (before.any word) w (ahead word false o) := by
  rw [replacing, Option.map_eq_none_iff, List.head?_eq_none_iff, List.eq_nil_iff_forall_not_mem]
  constructor
  · rintro h w o rfl hw
    exact h _ (mem_ways.mpr ⟨w, rfl, rfl, hw⟩)
  · rintro h ⟨after,o⟩ hmem
    obtain ⟨w,rfl,_,hw⟩ := mem_ways.mp hmem
    exact h w o rfl hw

theorem replacing_eq_some {t x o : Str} (h : r.replacing word new before t = some (x, o)) :
    x = new ∧ ∃ w, t = w ++ o ∧ r.Accepts word (before.any word) w (ahead word false o) := by
  obtain ⟨⟨after,o'⟩,hhead,heq⟩ := Option.map_eq_some_iff.mp h
  obtain ⟨rfl,rfl⟩ := Prod.mk.inj heq
  obtain ⟨w,rfl,_,hw⟩ := mem_ways.mp (List.mem_of_head? hhead)
  exact ⟨rfl, w, rfl, hw⟩

def width : Re → Nat
  | eps => 0
  | chars _ => 1
  | seq r s => r.width + s.width
  | alt r s => min r.width s.width
  | run _ least _ => least
  | anything => 0
  | boundary => 0

theorem width_le {b a : Bool} {w : Str} (h : r.Accepts word b w a) : r.width ≤ w.length := by
  induction r generalizing b w a with
  | chars p =>
    obtain ⟨c,rfl,_⟩ := h
    exact Nat.le_refl 1
  | seq r s ihr ihs =>
    obtain ⟨u,v,rfl,hu,hv⟩ := h
    rw [List.length_append]
    exact Nat.add_le_add (ihr hu) (ihs hv)
  | alt r s ihr ihs =>
    rcases h with h | h
    · exact (Nat.min_le_left _ _).trans (ihr h)
    · exact (Nat.min_le_right _ _).trans (ihs h)
  | run p least most => exact h.2.1
  | eps => exact Nat.zero_le _
  | anything => exact Nat.zero_le _
  | boundary => exact Nat.zero_le _

theorem ne_nil_of_accepts (hwidth : 0 < r.width) {b a : Bool} {w : Str} (h : r.Accepts word b w a) : w ≠ [] := by
  rintro rfl
  exact absurd (hwidth.trans_le (width_le h)) (Nat.lt_irrefl 0)

theorem proper_replacing (hwidth : 0 < r.width) : Proper (r.replacing word new) := by
  intro before c rest x o h
  obtain ⟨_,w,hw,haccepts⟩ := replacing_eq_some h
  obtain ⟨d,w,rfl⟩ := List.exists_cons_of_ne_nil (ne_nil_of_accepts hwidth haccepts)
  obtain ⟨_,rfl⟩ := List.cons.inj hw
  exact List.suffix_append w o

def Occurs (word : Char → Bool) (r : Re) (t : Str) : Prop :=
  ∃ u w o, t = u ++ (w ++ o) ∧ r.Accepts word (behind word false u) w (ahead word false o)

theorem quiet_replacing_iff (hwidth : 0 < r.width) {t : Str} : Quiet (r.replacing word new) before t ↔
    ∀ u w o, t = u ++ (w ++ o) → ¬r.Accepts word (behind word (before.any word) u) w (ahead word false o) := by
  induction t generalizing before with
  | nil =>
    refine iff_of_true trivial fun u w o ht haccepts => ne_nil_of_accepts hwidth haccepts ?_
    exact (List.append_eq_nil_iff.mp (List.append_eq_nil_iff.mp ht.symm).2).1
  | cons c t ih =>
    rw [Quiet, replacing_eq_none_iff, ih]
    constructor
    · rintro ⟨hhead,hrest⟩ u w o ht
      cases u with
      | nil => exact hhead w o ht
      | cons d u =>
        obtain ⟨rfl,hmore⟩ := List.cons.inj ht
        rw [behind_cons]
        exact hrest u w o hmore
    · refine fun h => ⟨fun w o => h [] w o, fun u w o ht => ?_⟩
      have hcons := h (c :: u) w o (by rw [ht, List.cons_append])
      rwa [behind_cons] at hcons

theorem finditer_replacing_eq_nil_iff (hwidth : 0 < r.width) {t : Str} :
    finditer (r.replacing word new) t = [] ↔ ¬r.Occurs word t := by
  have hquiet : finditer (r.replacing word new) t = [] ↔ Quiet (r.replacing word new) none t :=
    ⟨quiet_of_findAll, Quiet.finditer⟩
  rw [hquiet, quiet_replacing_iff hwidth]
  constructor
  · rintro h ⟨u,w,o,ht,haccepts⟩
    exact h u w o ht haccepts
  · exact fun h u w o ht haccepts => h ⟨u, w, o, ht, haccepts⟩

end Search

section Kinds

variable {word : Char → Bool} {r s : Re}

def plain : Re → Bool
  | seq r s => r.plain && s.plain
  | alt r s => r.plain && s.plain
  | boundary => false
  | _ => true

theorem accepts_plain (h : r.plain = true) {b b' a a' : Bool} {w : Str} (haccepts : r.Accepts word b w a) :
    r.Accepts word b' w a' := by
  induction r generalizing b b' a a' w with
  | seq r s ihr ihs =>
    obtain ⟨hr,hs⟩ := Bool.and_eq_true_iff.mp h
    obtain ⟨u,v,rfl,hu,hv⟩ := haccepts
    exact ⟨u, v, rfl, ihr hr hu, ihs hs hv⟩
  | alt r s ihr ihs =>
    obtain ⟨hr,hs⟩ := Bool.and_eq_true_iff.mp h
    exact haccepts.imp (ihr hr) (ihs hs)
  | boundary => cases h
  | eps => exact haccepts
  | chars p => exact haccepts
  | run p least most => exact haccepts
  | anything => trivial

def opens : Re → Bool
  | boundary => true
  | seq r _ => r.opens
  | alt r s => r.opens && s.opens
  | _ => false

theorem ne_of_opens (h : r.opens = true) {b a : Bool} {w : Str} (haccepts : r.Accepts word b w a) :
    b ≠ ahead word a w := by
  induction r generalizing b w a with
  | boundary =>
    obtain ⟨rfl,hne⟩ := haccepts
    exact hne
  | seq r s ihr _ =>
    obtain ⟨u,v,rfl,hu,_⟩ := haccepts
    rw [ahead_append]
    exact ihr h hu
  | alt r s ihr ihs =>
    obtain ⟨hr,hs⟩ := Bool.and_eq_true_iff.mp h
    exact haccepts.elim (ihr hr) (ihs hs)
  | eps => cases h
  | chars p => cases h
  | run p least most => cases h
  | anything => cases h

def closes : Re → Bool
  | boundary => true
  | seq _ s => s.closes
  | alt r s => r.closes && s.closes
  | _ => false

theorem ne_of_closes (h : r.closes = true) {b a : Bool} {w : Str} (haccepts : r.Accepts word b w a) :
    behind word b w ≠ a := by
  induction r generalizing b w a with
  | boundary =>
    obtain ⟨rfl,hne⟩ := haccepts
    exact hne
  | seq r s _ ihs =>
    obtain ⟨u,v,rfl,_,hv⟩ := haccepts
    rw [behind_append]
    exact ihs h hv
  | alt r s ihr ihs =>
    obtain ⟨hr,hs⟩ := Bool.and_eq_true_iff.mp h
    exact haccepts.elim (ihr hr) (ihs hs)
  | eps => cases h
  | chars p => cases h
  | run p least most => cases h
  | anything => cases h

def spares (c : Char) : Re → Bool
  | chars p => !p c
  | seq r s => r.spares c && s.spares c
  | alt r s => r.spares c && s.spares c
  | run p _ _ => !p c
  | anything => false
  | _ => true

theorem not_mem_of_spares {c : Char} (h : r.spares c = true) {b a : Bool} {w : Str} (haccepts : r.Accepts word b w a) :
    c ∉ w := by
  induction r generalizing b w a with
  | eps => simp [show w = [] from haccepts]
  | boundary => simp [show w = [] from haccepts.1]
  | anything => cases h
  | chars p =>
    obtain ⟨d,rfl,hd⟩ := haccepts
    intro hmem
    cases List.mem_singleton.mp hmem
    simp [spares, hd] at h
  | run p least most =>
    intro hmem
    simp [spares, haccepts.1 c hmem] at h
  | seq r s ihr ihs =>
    obtain ⟨hr,hs⟩ := Bool.and_eq_true_iff.mp h
    obtain ⟨u,v,rfl,hu,hv⟩ := haccepts
    simp [ihr hr hu, ihs hs hv]
  | alt r s ihr ihs =>
    obtain ⟨hr,hs⟩ := Bool.and_eq_true_iff.mp h
    exact haccepts.elim (ihr hr) (ihs hs)

def shuns (c : Char) : Re → Bool
  | chars p => !p c
  | seq r s => r.shuns c && (decide (0 < r.width) || s.shuns c)
  | alt r s => r.shuns c && s.shuns c
  | run p _ _ => !p c
  | anything => false
  | _ => true

theorem not_accepts_of_shuns {c : Char} (h : r.shuns c = true) {b a : Bool} {w : Str} : ¬r.Accepts word b (c :: w) a := by
  intro haccepts
  induction r generalizing b w a with
  | eps => cases haccepts
  | boundary => cases haccepts.1
  | anything => cases h
  | chars p =>
    obtain ⟨d,hd,hp⟩ := haccepts
    cases hd
    simp [shuns, hp] at h
  | run p least most => simp [shuns, haccepts.1 c List.mem_cons_self] at h
  | seq r s ihr ihs =>
    rw [shuns, Bool.and_eq_true_iff, Bool.or_eq_true_iff, decide_eq_true_eq] at h
    obtain ⟨u,v,huv,hu,hv⟩ := haccepts
    cases u with
    | nil =>
      rw [List.nil_append] at huv
      subst huv
      rcases h.2 with hwidth | hs
      · exact ne_nil_of_accepts hwidth hu rfl
      · exact ihs hs hv
    | cons d u =>
      obtain ⟨rfl,_⟩ := List.cons.inj huv
      exact ihr h.1 hu
  | alt r s ihr ihs =>
    obtain ⟨hr,hs⟩ := Bool.and_eq_true_iff.mp h
    exact haccepts.elim (ihr hr) (ihs hs)

-- No stretch of the texts of this length is in the class.
def rare (texts : List Str) (p : Char → Bool) (length : Nat) : Bool :=
  texts.all fun m => m.tails.all fun t => !((t.take length).length == length && (t.take length).all p)

theorem not_infix_of_rare {texts : List Str} {p : Char → Bool} {length : Nat} (h : rare texts p length = true) {w : Str}
    (hall : ∀ c ∈ w, p c = true) (hlength : length ≤ w.length) : ∀ m ∈ texts, ¬w <:+: m := by
  rintro m hm ⟨u,o,rfl⟩
  rw [rare, List.all_eq_true] at h
  have htail := List.all_eq_true.mp (h _ hm) (w ++ o) (by simp [List.mem_tails])
  rw [List.take_append_of_le_length hlength] at htail
  have hin : (w.take length).all p = true := List.all_eq_true.mpr fun c hc => hall c (List.mem_of_mem_take hc)
  simp [hin, hlength] at htail

theorem rare_congr {texts : List Str} {p q : Char → Bool} {length : Nat} (h : ∀ m ∈ texts, ∀ c ∈ m, p c = q c) :
    rare texts p length = rare texts q length := by
  have hpart : ∀ m ∈ texts, ∀ t ∈ m.tails, (t.take length).all p = (t.take length).all q := by
    intro m hm t ht
    have hsuffix : t <:+ m := (List.mem_tails _ _).mp ht
    rw [Bool.eq_iff_iff, List.all_eq_true, List.all_eq_true]
    exact forall₂_congr fun c hc => by rw [h m hm c (hsuffix.subset (List.mem_of_mem_take hc))]
  rw [Bool.eq_iff_iff, rare, rare, List.all_eq_true, List.all_eq_true]
  refine forall₂_congr fun m hm => ?_
  rw [List.all_eq_true, List.all_eq_true]
  exact forall₂_congr fun t ht => by rw [hpart m hm t ht]

def alien (texts : List Str) : Re → Bool
  | chars p => texts.all fun m => m.all fun c => !p c
  | seq r s => r.alien texts || s.alien texts
  | alt r s => r.alien texts && s.alien texts
  | run p least _ => rare texts p least
  | _ => false

theorem not_infix_of_alien {texts : List Str} (h : r.alien texts = true) {b a : Bool} {w : Str}
    (haccepts : r.Accepts word b w a) : ∀ m ∈ texts, ¬w <:+: m := by
  induction r generalizing b w a with
  | eps => cases h
  | anything => cases h
  | boundary => cases h
  | chars p =>
    obtain ⟨c,rfl,hc⟩ := haccepts
    intro m hm hinside
    have hspared := List.all_eq_true.mp (List.all_eq_true.mp h m hm) c (hinside.subset (List.mem_singleton_self c))
    simp [hc] at hspared
  | run p least most => exact not_infix_of_rare h haccepts.1 haccepts.2.1
  | seq r s ihr ihs =>
    obtain ⟨u,v,rfl,hu,hv⟩ := haccepts
    intro m hm hinside
    rcases Bool.or_eq_true_iff.mp h with hr | hs
    · exact ihr hr hu m hm ((List.prefix_append u v).isInfix.trans hinside)
    · exact ihs hs hv m hm ((List.suffix_append u v).isInfix.trans hinside)
  | alt r s ihr ihs =>
    obtain ⟨hr,hs⟩ := Bool.and_eq_true_iff.mp h
    exact haccepts.elim (ihr hr) (ihs hs)

theorem width_pos_of_alien {texts : List Str} (hne : texts ≠ []) (h : r.alien texts = true) : 0 < r.width := by
  obtain ⟨m,hm⟩ := List.exists_mem_of_ne_nil texts hne
  induction r with
  | eps => cases h
  | anything => cases h
  | boundary => cases h
  | chars p => exact Nat.one_pos
  | run p least most =>
    cases least with
    | zero => exact absurd (List.nil_infix) (not_infix_of_rare h (fun _ hc => absurd hc List.not_mem_nil) le_rfl m hm)
    | succ n => exact Nat.succ_pos n
  | seq r s ihr ihs =>
    rcases Bool.or_eq_true_iff.mp h with hr | hs
    · exact Nat.add_pos_left (ihr hr) _
    · exact Nat.add_pos_right _ (ihs hs)
  | alt r s ihr ihs =>
    obtain ⟨hr,hs⟩ := Bool.and_eq_true_iff.mp h
    exact lt_min (ihr hr) (ihs hs)

end Kinds

end Re

end PicoSentry.Foundation
