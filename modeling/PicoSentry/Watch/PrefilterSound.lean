import PicoSentry.Watch.Prefilter

namespace PicoSentry.Watch.Regex

open Foundation

inductive Leaf where
  | run (s : Str)
  | chars (cs : List Char)

namespace Leaf

variable (U : Unicode)

def Usable : Leaf → Prop
  | .run s => required s = true
  | .chars cs => 1 ≤ cs.length ∧ cs.length ≤ maxClassAlternatives

def Occurs (text : Str) : Leaf → Prop
  | .run s => ∃ w, w <:+: text ∧ runMatches U s w
  | .chars cs => ∃ c ∈ cs, ∃ x ∈ text, U.sameIgnoringCase c x = true

def Signalled (text : Str) : Leaf → Prop
  | .run s => U.lowerStr s <:+: U.lowerStr text
  | .chars cs => ∃ alt ∈ alternatives U cs, alt <:+: U.lowerStr text

end Leaf

section Leaves

def runLeaf (run : Str) : List Leaf := if required run then [.run run] else []

mutual

def nodeLeaves : Node → List Leaf
  | .branch alts => altsLeaves alts
  | .repeated _ least _ body => if 1 ≤ least then leavesFrom [] body else []
  | .subpattern _ _ _ body => leavesFrom [] body
  | .inSet items => ((setChars items).map Leaf.chars).toList
  | .literal _ => []
  | .other _ _ => []

def leavesFrom (run : Str) : Seq → List Leaf
  | .nil => runLeaf run
  | .cons (.literal c) seq => leavesFrom (run ++ [c]) seq
  | .cons node seq => runLeaf run ++ nodeLeaves node ++ leavesFrom [] seq

def altsLeaves : Alts → List Leaf
  | .nil => []
  | .cons seq alts => leavesFrom [] seq ++ altsLeaves alts

end

def leaves (parsed : Seq) : List Leaf := leavesFrom [] parsed

end Leaves

section Branches

variable {lowered : Str}

def Satisfied (lowered : Str) (branch : Branch) : Prop :=
  ∀ group ∈ branch, ∃ alt ∈ group, alt <:+: lowered

def Realized (lowered : Str) (branches : List Branch) : Prop :=
  ∃ branch ∈ branches, Satisfied lowered branch

theorem Satisfied.append {b b' : Branch} (h : Satisfied lowered b) (h' : Satisfied lowered b') :
    Satisfied lowered (b ++ b') := by
  intro group hg
  rcases List.mem_append.mp hg with hg | hg
  · exact h group hg
  · exact h' group hg

theorem Realized.addGroup {branches : List Branch} (h : Realized lowered branches) {group : Group}
    (hg : ∃ alt ∈ group, alt <:+: lowered) : Realized lowered (branches.map (· ++ [group])) := by
  obtain ⟨b,hb,hs⟩ := h
  refine ⟨b ++ [group], List.mem_map.mpr ⟨b, hb, rfl⟩, hs.append ?_⟩
  intro g hmem
  rw [List.mem_singleton.mp hmem]
  exact hg

theorem Realized.merge {branches variants : List Branch} (h : Realized lowered branches)
    (hv : Realized lowered variants) (hne : ∀ v ∈ variants, v ≠ []) :
    Realized lowered (merge branches variants) := by
  obtain ⟨v,hv,hvs⟩ := hv
  rw [Regex.merge, if_neg (List.ne_nil_of_mem hv)]
  split
  · apply h.addGroup
    obtain ⟨group,hgroup⟩ := List.exists_mem_of_ne_nil v (hne v hv)
    obtain ⟨alt,halt,hin⟩ := hvs group hgroup
    have hflat : alt ∈ v.flatten := List.mem_flatten.mpr ⟨group, hgroup, halt⟩
    exact ⟨alt, mem_sortedSet.mpr (List.mem_flatMap.mpr ⟨v, hv, hflat⟩), hin⟩
  · obtain ⟨b,hb,hbs⟩ := h
    exact ⟨b ++ v, List.mem_flatMap.mpr ⟨b, hb, List.mem_map.mpr ⟨v, hv, rfl⟩⟩, hbs.append hvs⟩

theorem Realized.mergeVariants {branches variants : List Branch} (h : Realized lowered branches)
    (hv : Realized lowered variants) : Realized lowered (mergeVariants branches variants) := by
  rw [Regex.mergeVariants]
  split
  · exact h
  · next hempty =>
    have hne : ∀ v ∈ variants, v ≠ [] := by
      rintro v hv rfl
      exact hempty (List.any_eq_true.mpr ⟨[], hv, rfl⟩)
    have hfilter : variants.filter (fun v => !v.isEmpty) = variants := by
      rw [List.filter_eq_self]
      intro v hv
      simp [hne v hv]
    rw [hfilter]
    exact h.merge hv hne

def Uniform (branches : List Branch) : Prop :=
  (∀ b ∈ branches, b = []) ∨ ∀ b ∈ branches, b ≠ []

theorem uniform_addGroup (branches : List Branch) (group : Group) :
    Uniform (branches.map (· ++ [group])) := by
  right
  intro b hb
  obtain ⟨b',_,rfl⟩ := List.mem_map.mp hb
  simp

theorem Uniform.mergeVariants {branches : List Branch} (h : Uniform branches)
    (variants : List Branch) : Uniform (mergeVariants branches variants) := by
  rw [Regex.mergeVariants]
  split
  · exact h
  · rw [Regex.merge]
    split
    · exact h
    · split
      · exact uniform_addGroup _ _
      · right
        intro b hb
        obtain ⟨b',_,hb⟩ := List.mem_flatMap.mp hb
        obtain ⟨v,hv,rfl⟩ := List.mem_map.mp hb
        have hne := (List.mem_filter.mp hv).2
        intro he
        obtain ⟨_,rfl⟩ := List.append_eq_nil_iff.mp he
        simp at hne

variable (U : Unicode)

theorem Uniform.flush {branches : List Branch} (h : Uniform branches) (run : Str) :
    Uniform (flush U branches run) := by
  rw [Regex.flush]
  split
  · exact uniform_addGroup _ _
  · exact h

theorem Uniform.absorb {branches : List Branch} (h : Uniform branches) (node : Node) :
    Uniform (absorb U branches node) := by
  cases node with
  | literal c => simpa [Regex.absorb] using h
  | branch alts =>
    rw [Regex.absorb]
    exact h.mergeVariants _
  | repeated greedy least most body =>
    rw [Regex.absorb]
    split
    · exact h.mergeVariants _
    · exact h
  | subpattern group addFlags delFlags body =>
    rw [Regex.absorb]
    exact h.mergeVariants _
  | inSet items =>
    rw [Regex.absorb]
    split
    · exact uniform_addGroup _ _
    · exact h
  | other op args => simpa [Regex.absorb] using h

theorem literal_or_not (node : Node) : (∃ c, node = .literal c) ∨ ∀ c, node ≠ .literal c := by
  cases node with
  | literal c => exact .inl ⟨c, rfl⟩
  | _ => exact .inr (by simp)

theorem walkSequence_cons {node : Node} (hnode : ∀ c, node ≠ .literal c)
    (branches : List Branch) (run : Str) (seq : Seq) :
    walkSequence U branches run (.cons node seq) =
      walkSequence U (absorb U (flush U branches run) node) [] seq := by
  rw [walkSequence]
  exact hnode

theorem Uniform.walkSequence (seq : Seq) {branches : List Branch} (h : Uniform branches)
    (run : Str) : Uniform (walkSequence U branches run seq) := by
  cases seq with
  | nil => exact h.flush U run
  | cons node seq =>
    rcases literal_or_not node with ⟨c,rfl⟩ | hne
    · rw [Regex.walkSequence]
      exact Uniform.walkSequence seq h _
    · rw [walkSequence_cons U hne]
      exact Uniform.walkSequence seq ((h.flush U run).absorb U node) []
termination_by structural seq

end Branches

section Soundness

variable {U : Unicode} {text : Str}

def Sound (U : Unicode) (text : Str) (ls : List Leaf) : Prop :=
  ∀ leaf ∈ ls, leaf.Occurs U text → leaf.Signalled U text

theorem Sound.left {ls ls' : List Leaf} (h : Sound U text (ls ++ ls')) : Sound U text ls :=
  fun leaf hmem => h leaf (List.mem_append_left _ hmem)

theorem Sound.right {ls ls' : List Leaf} (h : Sound U text (ls ++ ls')) : Sound U text ls' :=
  fun leaf hmem => h leaf (List.mem_append_right _ hmem)

theorem leavesFrom_cons {node : Node} (hnode : ∀ c, node ≠ .literal c) (run : Str) (seq : Seq) :
    leavesFrom run (.cons node seq) = runLeaf run ++ nodeLeaves node ++ leavesFrom [] seq := by
  rw [leavesFrom]
  exact hnode

theorem realized_start : Realized (U.lowerStr text) [[]] := ⟨[], by simp, by simp [Satisfied]⟩

theorem Realized.flush {branches : List Branch} (h : Realized (U.lowerStr text) branches)
    {run w : Str} (hrun : runMatches U run w) (hw : w <:+: text)
    (hl : Sound U text (runLeaf run)) : Realized (U.lowerStr text) (flush U branches run) := by
  rw [Regex.flush]
  split
  · next hreq =>
    rw [runLeaf, if_pos hreq] at hl
    have hin := hl (.run run) (by simp) ⟨w, hw, hrun⟩
    exact h.addGroup ⟨U.lowerStr run, by simp, hin⟩
  · exact h

theorem setMatches_signalled {items : List SetItem} {chars : List Char}
    (hc : setChars items = some chars) {x : Char} (hx : x ∈ text) (hm : setMatches U items x)
    (hl : Sound U text [.chars chars]) :
    ∃ alt ∈ alternatives U chars, alt <:+: U.lowerStr text := by
  obtain ⟨he,_⟩ := Option.filter_eq_some_iff.mp hc
  obtain ⟨c,hmem,hsame⟩ := hm chars he
  exact hl (.chars chars) (by simp) ⟨c, hmem, x, hx, hsame⟩

mutual

theorem absorb_realized (node : Node) {branches : List Branch} {w : Str}
    (hb : Realized (U.lowerStr text) branches) (hw : w <:+: text) (hm : node.Matches U w)
    (hl : Sound U text (nodeLeaves node)) :
    Realized (U.lowerStr text) (absorb U branches node) := by
  cases node with
  | literal c => simpa [absorb] using hb
  | branch alts =>
    rw [absorb]
    rw [Node.Matches] at hm
    rw [nodeLeaves] at hl
    exact hb.mergeVariants (walkAlts_realized alts hw hm hl)
  | repeated greedy least most body =>
    rw [absorb]
    rw [Node.Matches] at hm
    rw [nodeLeaves] at hl
    split
    · next hleast =>
      rw [if_pos hleast] at hl
      obtain ⟨ws,hlen,_,rfl,hall⟩ := hm
      obtain ⟨u,hu⟩ : ∃ u, u ∈ ws := List.exists_mem_of_length_pos (by omega)
      have hut : u <:+: text := (List.infix_of_mem_flatten hu).trans hw
      exact hb.mergeVariants
        (walkSequence_realized body realized_start .nil hut (hall u hu) hl)
    · exact hb
  | subpattern group addFlags delFlags body =>
    rw [absorb]
    rw [Node.Matches] at hm
    rw [nodeLeaves] at hl
    exact hb.mergeVariants (walkSequence_realized body realized_start .nil hw hm hl)
  | inSet items =>
    rw [absorb]
    rw [Node.Matches] at hm
    rw [nodeLeaves] at hl
    obtain ⟨x,rfl,hm⟩ := hm
    split
    · next alts halts =>
      obtain ⟨chars,hc,rfl⟩ := Option.map_eq_some_iff.mp halts
      rw [hc] at hl
      exact hb.addGroup (setMatches_signalled hc (hw.subset (by simp)) hm hl)
    · exact hb
  | other op args => simpa [absorb] using hb
termination_by structural node

theorem walkSequence_realized (seq : Seq) {branches : List Branch} {run u w : Str}
    (hb : Realized (U.lowerStr text) branches) (hrun : runMatches U run u)
    (hw : u ++ w <:+: text) (hm : seq.Matches U w) (hl : Sound U text (leavesFrom run seq)) :
    Realized (U.lowerStr text) (walkSequence U branches run seq) := by
  cases seq with
  | nil =>
    rw [Seq.Matches] at hm
    subst hm
    rw [List.append_nil] at hw
    exact hb.flush hrun hw hl
  | cons node seq =>
    rw [Seq.Matches] at hm
    obtain ⟨a,v,rfl,hnode,hrest⟩ := hm
    rcases literal_or_not node with ⟨c,rfl⟩ | hne
    · rw [Node.Matches] at hnode
      obtain ⟨x,rfl,hx⟩ := hnode
      rw [leavesFrom] at hl
      rw [walkSequence]
      have hrun' : runMatches U (run ++ [c]) (u ++ [x]) :=
        List.rel_append hrun (.cons hx .nil)
      refine walkSequence_realized seq hb hrun' ?_ hrest hl
      rwa [List.append_assoc]
    · rw [leavesFrom_cons hne] at hl
      rw [walkSequence_cons U hne]
      have hu : u <:+: text := (List.prefix_append u (a ++ v)).isInfix.trans hw
      have hav : a ++ v <:+: text := (List.suffix_append u (a ++ v)).isInfix.trans hw
      have ha : a <:+: text := (List.prefix_append a v).isInfix.trans hav
      have hv : v <:+: text := (List.suffix_append a v).isInfix.trans hav
      have hflush := hb.flush hrun hu hl.left.left
      exact walkSequence_realized seq (absorb_realized node hflush ha hnode hl.left.right) .nil hv
        hrest hl.right
termination_by structural seq

theorem walkAlts_realized (alts : Alts) {w : Str} (hw : w <:+: text) (hm : alts.Matches U w)
    (hl : Sound U text (altsLeaves alts)) : Realized (U.lowerStr text) (walkAlts U alts) := by
  cases alts with
  | nil =>
    rw [Alts.Matches] at hm
    exact hm.elim
  | cons seq alts =>
    rw [Alts.Matches] at hm
    rw [altsLeaves] at hl
    rw [walkAlts]
    rcases hm with hm | hm
    · obtain ⟨b,hb,hs⟩ := walkSequence_realized seq realized_start .nil hw hm hl.left
      exact ⟨b, List.mem_append_left _ hb, hs⟩
    · obtain ⟨b,hb,hs⟩ := walkAlts_realized alts hw hm hl.right
      exact ⟨b, List.mem_append_right _ hb, hs⟩
termination_by structural alts

end

theorem extractRequiredLiterals_realized (parsed : Seq) (hm : MatchesIn U parsed text)
    (hl : Sound U text (leaves parsed)) (hne : extractRequiredLiterals U parsed ≠ []) :
    Realized (U.lowerStr text) (extractRequiredLiterals U parsed) := by
  obtain ⟨w,hw,hm⟩ := hm
  obtain ⟨b,hb,hs⟩ := walkSequence_realized parsed realized_start .nil hw hm hl
  have huniform : Uniform (walkSequence U [[]] [] parsed) :=
    Uniform.walkSequence U parsed (.inl (by simp)) []
  have hbne : b ≠ [] := by
    rcases huniform with hempty | hfull
    · obtain ⟨b',hb'⟩ := List.exists_mem_of_ne_nil _ hne
      obtain ⟨hmem,hb'⟩ := List.mem_filter.mp hb'
      simp [hempty b' hmem] at hb'
    · exact hfull b hb
  exact ⟨b, List.mem_filter.mpr ⟨hb, by simp [hbne]⟩, hs⟩

end Soundness

section Usable

theorem usable_runLeaf {run : Str} {leaf : Leaf} (h : leaf ∈ runLeaf run) : leaf.Usable := by
  rw [runLeaf] at h
  split at h
  · next hreq =>
    rw [List.mem_singleton.mp h]
    exact hreq
  · cases h

theorem usable_setChars {items : List SetItem} {leaf : Leaf}
    (h : leaf ∈ ((setChars items).map Leaf.chars).toList) : leaf.Usable := by
  rw [Option.mem_toList, Option.map_eq_some_iff] at h
  obtain ⟨cs,hc,rfl⟩ := h
  have hlen := (Option.filter_eq_some_iff.mp hc).2
  simpa [Leaf.Usable] using hlen

mutual

theorem usable_nodeLeaves (node : Node) {leaf : Leaf} (h : leaf ∈ nodeLeaves node) :
    leaf.Usable := by
  cases node with
  | literal c => cases h
  | branch alts =>
    rw [nodeLeaves] at h
    exact usable_altsLeaves alts h
  | repeated greedy least most body =>
    rw [nodeLeaves] at h
    split at h
    · exact usable_leavesFrom body h
    · cases h
  | subpattern group addFlags delFlags body =>
    rw [nodeLeaves] at h
    exact usable_leavesFrom body h
  | inSet items =>
    rw [nodeLeaves] at h
    exact usable_setChars h
  | other op args => cases h
termination_by structural node

theorem usable_leavesFrom (seq : Seq) {run : Str} {leaf : Leaf} (h : leaf ∈ leavesFrom run seq) :
    leaf.Usable := by
  cases seq with
  | nil => exact usable_runLeaf h
  | cons node seq =>
    rcases literal_or_not node with ⟨c,rfl⟩ | hne
    · rw [leavesFrom] at h
      exact usable_leavesFrom seq h
    · rw [leavesFrom_cons hne] at h
      rcases List.mem_append.mp h with h | h
      · rcases List.mem_append.mp h with h | h
        · exact usable_runLeaf h
        · exact usable_nodeLeaves node h
      · exact usable_leavesFrom seq h
termination_by structural seq

theorem usable_altsLeaves (alts : Alts) {leaf : Leaf} (h : leaf ∈ altsLeaves alts) :
    leaf.Usable := by
  cases alts with
  | nil => cases h
  | cons seq alts =>
    rw [altsLeaves] at h
    rcases List.mem_append.mp h with h | h
    · exact usable_leavesFrom seq h
    · exact usable_altsLeaves alts h
termination_by structural alts

end

end Usable

section Pattern

variable {U : Unicode}

theorem walkSequence_literals (branches : List Branch) (run s : Str) :
    walkSequence U branches run (literals s) = flush U branches (run ++ s) := by
  induction s generalizing run with
  | nil => rw [literals, walkSequence, List.append_nil]
  | cons c s ih => rw [literals, walkSequence, ih, List.append_assoc, List.singleton_append]

theorem leavesFrom_literals (run s : Str) : leavesFrom run (literals s) = runLeaf (run ++ s) := by
  induction s generalizing run with
  | nil => rw [literals, leavesFrom, List.append_nil]
  | cons c s ih => rw [literals, leavesFrom, ih, List.append_assoc, List.singleton_append]

theorem explicitChars_literals (chars : List Char) :
    explicitChars (chars.map .literal) = some chars := by
  induction chars with
  | nil => rfl
  | cons c chars ih => rw [List.map_cons, explicitChars, ih, Option.map_some]

theorem setChars_literals {chars : List Char} (h : (Leaf.chars chars).Usable) :
    setChars (chars.map .literal) = some chars := by
  rw [setChars, explicitChars_literals, Option.filter_some, if_pos]
  simpa [Leaf.Usable] using h

def Leaf.pattern : Leaf → Seq
  | .run s => literals s
  | .chars cs => single (.inSet (cs.map .literal))

def Leaf.group (U : Unicode) : Leaf → Group
  | .run s => [U.lowerStr s]
  | .chars cs => alternatives U cs

theorem leaves_pattern {leaf : Leaf} (h : leaf.Usable) : leaves leaf.pattern = [leaf] := by
  cases leaf with
  | run s =>
    rw [Leaf.Usable] at h
    rw [Leaf.pattern, leaves, leavesFrom_literals, List.nil_append, runLeaf, if_pos h]
  | chars cs =>
    rw [Leaf.pattern, leaves, single, leavesFrom_cons (by simp), nodeLeaves, setChars_literals h,
      leavesFrom]
    rfl

theorem extractRequiredLiterals_pattern {leaf : Leaf} (h : leaf.Usable) :
    extractRequiredLiterals U leaf.pattern = [[leaf.group U]] := by
  cases leaf with
  | run s =>
    rw [Leaf.Usable] at h
    rw [Leaf.pattern, extractRequiredLiterals, walkSequence_literals, List.nil_append, flush,
      if_pos h]
    rfl
  | chars cs =>
    rw [Leaf.pattern, extractRequiredLiterals, single, walkSequence_cons U (by simp), absorb,
      classAlternatives, setChars_literals h, walkSequence]
    rfl

theorem signalled_iff (leaf : Leaf) (text : Str) :
    leaf.Signalled U text ↔ Realized (U.lowerStr text) [[leaf.group U]] := by
  cases leaf with
  | run s => simp [Leaf.Signalled, Leaf.group, Realized, Satisfied]
  | chars cs => simp [Leaf.Signalled, Leaf.group, Realized, Satisfied]

end Pattern

end PicoSentry.Watch.Regex
