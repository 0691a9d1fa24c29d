import PicoSentry.Serve.EventOutbox

namespace PicoSentry.Serve.Outbox

open Foundation
open Foundation.Run

def Effect.callback (worker seq : Nat) : Effect → Option Nat
  | .delivered w n cb => if w = worker ∧ n = seq then some cb else none
  | _ => none

def Effect.row : Effect → Option OutboxRow
  | .committed row => some row
  | _ => none

def deliveriesOf (es : List Effect) (worker seq : Nat) : List Nat :=
  es.filterMap (Effect.callback worker seq)

def committedRows (es : List Effect) : List OutboxRow := es.filterMap Effect.row

def rowsSinceStart (worker : Nat) : List Effect → List OutboxRow
  | [] => []
  | e :: es => if e = .started worker then committedRows es else rowsSinceStart worker es

def expected (bus : EventBus) (row : OutboxRow) : List Nat :=
  if row.workerId = bus.workerId then []
  else
    let subscriptions := if row.type = wildcard then bus.subscribersOf wildcard
      else bus.subscribersOf row.type ++ bus.subscribersOf wildcard
    subscriptions.filter fun cb => !bus.localOnlySubscribers.contains cb

structure Ready (startedAt : Int) (outcome : Nat → Nat → Outcome) (bus : EventBus)
    (row : OutboxRow) : Prop where
  decodes : (decodePayload row.payload).isSome
  current : startedAt ≤ row.createdAt
  named : row.type ≠ wildcard
  handled : ∀ cb ∈ bus.callbacks row.type true, outcome row.seq cb ≠ .pollError

def Undisturbed (s : State) : Step → Prop
  | .drain worker false outcome =>
    ∀ p ∈ s.pollers[worker]?, ∀ startedAt ∈ p.startedAt,
      (∀ row ∈ batch s.table p.last, row.workerId ≠ p.bus.workerId →
        Ready startedAt outcome p.bus row) ∧
      ∀ r ∈ s.inFlight, r.workerId ≠ p.bus.workerId → p.startSeq < r.seq →
        ∀ row ∈ batch s.table p.last, row.seq < r.seq
  | .prune worker now false =>
    ∀ p ∈ s.pollers[worker]?, pruneNow p now = true →
      ∀ row ∈ s.table, row.createdAt < now - retention →
        ∀ q ∈ s.pollers, q.startedAt.isSome → row.workerId ≠ q.bus.workerId → row.seq ≤ q.last
  | _ => True

instance (startedAt : Int) (outcome : Nat → Nat → Outcome) (bus : EventBus) (row : OutboxRow) :
    Decidable (Ready startedAt outcome bus row) :=
  decidable_of_iff ((decodePayload row.payload).isSome ∧ startedAt ≤ row.createdAt ∧
      row.type ≠ wildcard ∧ ∀ cb ∈ bus.callbacks row.type true, outcome row.seq cb ≠ .pollError)
    ⟨fun h => ⟨h.1, h.2.1, h.2.2.1, h.2.2.2⟩, fun h => ⟨h.1, h.2, h.3, h.4⟩⟩

instance decidableUndisturbed (s : State) : ∀ l, Decidable (Undisturbed s l)
  | .drain worker false _ => inferInstanceAs (Decidable (∀ p ∈ s.pollers[worker]?, _))
  | .prune worker _ false => inferInstanceAs (Decidable (∀ p ∈ s.pollers[worker]?, _))
  | .drain _ true _ => isTrue trivial
  | .prune _ _ true => isTrue trivial
  | .publish _ _ => isTrue trivial
  | .commit _ => isTrue trivial
  | .abort _ => isTrue trivial
  | .start _ _ => isTrue trivial

section Drain

variable {startedAt : Int} {outcome : Nat → Nat → Outcome} {bus : EventBus}

theorem invoke_handled {outcome : Nat → Outcome} {cbs : List Nat}
    (h : ∀ cb ∈ cbs, outcome cb ≠ .pollError) : EventBus.invoke outcome cbs = (cbs, false) := by
  induction cbs with
  | nil => rfl
  | cons cb cbs ih =>
    rw [EventBus.invoke, if_neg (h cb (by simp)), ih fun cb' hcb => h cb' (by simp [hcb])]

theorem callbacks_eq_expected {row : OutboxRow} (hforeign : row.workerId ≠ bus.workerId)
    (hnamed : row.type ≠ wildcard) : bus.callbacks row.type true = expected bus row := by
  rw [EventBus.callbacks, expected, if_neg hforeign, if_neg hnamed]
  simp

theorem drainRow_ready {row : OutboxRow}
    (h : row.workerId ≠ bus.workerId → Ready startedAt outcome bus row) :
    ∃ history, drainRow startedAt outcome bus row =
      ({ bus with eventHistory := history }, expected bus row, false) := by
  rw [drainRow]
  split
  · next hown => exact ⟨bus.eventHistory, by rw [expected, if_pos hown]⟩
  · next hforeign =>
    obtain ⟨hdecodes,hcurrent,hnamed,hhandled⟩ := h hforeign
    obtain ⟨payload,hpayload⟩ := Option.isSome_iff_exists.mp hdecodes
    have hlt : ¬(rowEvent row payload).timestamp < startedAt := not_lt.mpr hcurrent
    rw [hpayload]
    dsimp only
    rw [if_neg hlt]
    have htype : (rowEvent row payload).type = row.type := rfl
    rw [htype, invoke_handled hhandled, callbacks_eq_expected hforeign hnamed]
    exact ⟨_, rfl⟩

structure DrainsAll (bus : EventBus) (last : Nat) (rows : List OutboxRow) (d : Drained) : Prop where
  ok : d.failed = false
  bus_eq : ∃ history, d.bus = { bus with eventHistory := history }
  deliveries : d.deliveries = rows.flatMap fun row => (expected bus row).map fun cb => (row.seq, cb)
  last_le : last ≤ d.last
  seq_le : ∀ row ∈ rows, row.seq ≤ d.last
  last_eq : d.last = last ∨ ∃ row ∈ rows, d.last = row.seq

theorem drainRows_ready {last : Nat} {rows : List OutboxRow}
    (h : ∀ row ∈ rows, row.workerId ≠ bus.workerId → Ready startedAt outcome bus row) :
    DrainsAll bus last rows (drainRows startedAt outcome bus last rows) := by
  induction rows generalizing bus last with
  | nil => exact ⟨rfl, ⟨_, rfl⟩, rfl, le_rfl, by simp, .inl rfl⟩
  | cons row rows ih =>
    obtain ⟨history,hrow⟩ := drainRow_ready (h row (by simp))
    have hready : ∀ r ∈ rows, r.workerId ≠ bus.workerId →
        Ready startedAt outcome { bus with eventHistory := history } r := by
      intro r hr hne
      obtain ⟨hdecodes,hcurrent,hnamed,hhandled⟩ := h r (by simp [hr]) hne
      exact ⟨hdecodes, hcurrent, hnamed, hhandled⟩
    have hrest : DrainsAll { bus with eventHistory := history } (max last row.seq) rows _ :=
      ih hready
    rw [drainRows, hrow]
    refine ⟨hrest.ok, ?_, ?_, ?_, ?_, ?_⟩
    · obtain ⟨history',hbus⟩ := hrest.bus_eq
      exact ⟨history', hbus⟩
    · rw [List.flatMap_cons]
      exact congrArg _ hrest.deliveries
    · exact (le_max_left _ _).trans hrest.last_le
    · intro r hr
      rcases List.mem_cons.mp hr with rfl | hr
      · exact (le_max_right _ _).trans hrest.last_le
      · exact hrest.seq_le r hr
    · rcases hrest.last_eq with heq | ⟨r,hr,heq⟩
      · rcases max_choice last row.seq with hmax | hmax
        · exact .inl (heq.trans hmax)
        · exact .inr ⟨row, by simp, heq.trans hmax⟩
      · exact .inr ⟨r, by simp [hr], heq⟩

end Drain

section Batch

variable {table : List OutboxRow} {last : Nat}

theorem mem_batch {row : OutboxRow} (h : row ∈ batch table last) :
    row ∈ table ∧ last < row.seq := by
  have hsorted := List.mem_of_mem_take h
  rw [List.mem_insertionSort, List.mem_filter] at hsorted
  exact ⟨hsorted.1, by simpa using hsorted.2⟩

theorem batch_nodup (h : (table.map OutboxRow.seq).Nodup) :
    ((batch table last).map OutboxRow.seq).Nodup := by
  have hfilter : ((table.filter fun row => last < row.seq).map OutboxRow.seq).Nodup :=
    (List.filter_sublist.map _).nodup h
  have hsorted := ((List.perm_insertionSort (fun a b : OutboxRow => a.seq ≤ b.seq)
    (table.filter fun row => last < row.seq)).map OutboxRow.seq).nodup_iff.mpr hfilter
  exact ((List.take_sublist _ _).map _).nodup hsorted

theorem eq_of_seq_eq (h : (table.map OutboxRow.seq).Nodup) {a b : OutboxRow} (ha : a ∈ table)
    (hb : b ∈ table) (heq : a.seq = b.seq) : a = b :=
  List.inj_on_of_nodup_map h ha hb heq

theorem filter_seq_eq {rows : List OutboxRow} (h : (rows.map OutboxRow.seq).Nodup)
    {row : OutboxRow} (hrow : row ∈ rows) : (rows.filter fun r => r.seq = row.seq) = [row] := by
  induction rows with
  | nil => cases hrow
  | cons r rows ih =>
    rw [List.map_cons, List.nodup_cons] at h
    rcases List.mem_cons.mp hrow with rfl | hmem
    · rw [List.filter_cons_of_pos (by simp), List.filter_eq_nil_iff.mpr]
      intro r' hr' heq
      exact h.1 (List.mem_map.mpr ⟨r', hr', by simpa using heq⟩)
    · rw [List.filter_cons_of_neg, ih h.2 hmem]
      intro heq
      exact h.1 (List.mem_map.mpr ⟨row, hmem, by simpa using Eq.symm (by simpa using heq)⟩)

theorem mem_batch_of_le (h : (table.map OutboxRow.seq).Nodup) {row row' : OutboxRow}
    (hrow : row ∈ table) (hlast : last < row.seq) (hrow' : row' ∈ batch table last)
    (hle : row.seq ≤ row'.seq) : row ∈ batch table last := by
  have hmem : row ∈ (table.filter fun row => last < row.seq).insertionSort
      fun a b => a.seq ≤ b.seq := by
    rw [List.mem_insertionSort, List.mem_filter]
    exact ⟨hrow, by simpa using hlast⟩
  have hsorted := List.pairwise_insertionSort (fun a b : OutboxRow => a.seq ≤ b.seq)
    (table.filter fun row => last < row.seq)
  rw [← List.take_append_drop outboxBatch
    ((table.filter fun row => last < row.seq).insertionSort fun a b => a.seq ≤ b.seq)] at hmem hsorted
  rcases List.mem_append.mp hmem with htake | hdrop
  · exact htake
  · have hge := (List.pairwise_append.mp hsorted).2.2 row' hrow' row hdrop
    have heq := eq_of_seq_eq h hrow (mem_batch hrow').1 (le_antisymm hle hge)
    rw [heq]
    exact hrow'

end Batch

section Effects

theorem deliveriesOf_append (es es' : List Effect) (worker seq : Nat) :
    deliveriesOf (es ++ es') worker seq = deliveriesOf es worker seq ++ deliveriesOf es' worker seq :=
  List.filterMap_append

theorem committedRows_append (es es' : List Effect) :
    committedRows (es ++ es') = committedRows es ++ committedRows es' :=
  List.filterMap_append

theorem rowsSinceStart_append (worker : Nat) (es es' : List Effect) :
    rowsSinceStart worker (es ++ es') = if .started worker ∈ es then
      rowsSinceStart worker es ++ committedRows es' else rowsSinceStart worker es' := by
  induction es with
  | nil => simp
  | cons e es ih =>
    rw [List.cons_append, rowsSinceStart, rowsSinceStart]
    by_cases he : e = .started worker
    · rw [if_pos he, if_pos he, committedRows_append, if_pos (by simp [he])]
    · rw [if_neg he, if_neg he, ih]
      simp [Ne.symm he]

theorem rowsSinceStart_subset {worker : Nat} {es : List Effect} {row : OutboxRow}
    (h : row ∈ rowsSinceStart worker es) : row ∈ committedRows es := by
  induction es with
  | nil => exact h
  | cons e es ih =>
    rw [rowsSinceStart] at h
    have hrest : row ∈ committedRows es := by
      split at h
      · exact h
      · exact ih h
    rw [← List.singleton_append, committedRows_append]
    exact List.mem_append_right _ hrest

theorem deliveriesOf_eq_nil {es : List Effect} {worker seq : Nat}
    (h : ∀ cb, .delivered worker seq cb ∉ es) : deliveriesOf es worker seq = [] := by
  rw [deliveriesOf, List.filterMap_eq_nil_iff]
  intro e he
  cases e with
  | started w => rfl
  | committed row => rfl
  | delivered w n cb =>
    rw [Effect.callback, if_neg]
    rintro ⟨rfl,rfl⟩
    exact h cb he

def deliveryEffects (worker : Nat) (bus : EventBus) (rows : List OutboxRow) : List Effect :=
  (rows.flatMap fun row => (expected bus row).map fun cb => (row.seq, cb)).map
    fun d => .delivered worker d.1 d.2

theorem deliveriesOf_deliveryEffects (worker w seq : Nat) (bus : EventBus)
    (rows : List OutboxRow) :
    deliveriesOf (deliveryEffects worker bus rows) w seq = if worker = w then
      (rows.filter fun row => row.seq = seq).flatMap (expected bus) else [] := by
  induction rows with
  | nil => simp [deliveryEffects, deliveriesOf]
  | cons row rows ih =>
    have hcons : deliveryEffects worker bus (row :: rows) =
        ((expected bus row).map fun cb => .delivered worker row.seq cb) ++
          deliveryEffects worker bus rows := by
      simp [deliveryEffects]
    have hhead : deliveriesOf ((expected bus row).map fun cb => .delivered worker row.seq cb) w seq =
        if worker = w ∧ row.seq = seq then expected bus row else [] := by
      rw [deliveriesOf, List.filterMap_map]
      split
      · next h =>
        simp [Effect.callback, h]
      · next h =>
        simp [Effect.callback, h]
    rw [hcons, deliveriesOf_append, hhead, ih]
    by_cases hw : worker = w
    · by_cases hseq : row.seq = seq
      · simp [hw, hseq]
      · simp [hw, hseq]
    · simp [hw]

theorem committedRows_deliveryEffects (worker : Nat) (bus : EventBus) (rows : List OutboxRow) :
    committedRows (deliveryEffects worker bus rows) = [] := by
  rw [committedRows, deliveryEffects, List.filterMap_map, List.filterMap_eq_nil_iff]
  intro d _
  rfl

theorem mem_deliveryEffects {worker w seq cb : Nat} {bus : EventBus} {rows : List OutboxRow}
    (h : .delivered w seq cb ∈ deliveryEffects worker bus rows) :
    w = worker ∧ ∃ row ∈ rows, row.seq = seq := by
  obtain ⟨d,hd,heq⟩ := List.mem_map.mp h
  obtain ⟨row,hrow,hd⟩ := List.mem_flatMap.mp hd
  obtain ⟨cb',_,rfl⟩ := List.mem_map.mp hd
  cases heq
  exact ⟨rfl, row, hrow, rfl⟩

end Effects

section Invariant

structure Rows (es : List Effect) (s : State) : Prop where
  positive : 0 < s.nextSeq
  below : ∀ row ∈ committedRows es, row.seq < s.nextSeq
  pending : ∀ r ∈ s.inFlight, r.seq < s.nextSeq
  pendingNodup : (s.inFlight.map OutboxRow.seq).Nodup
  disjoint : ∀ r ∈ s.inFlight, ∀ row ∈ committedRows es, row.seq ≠ r.seq
  unique : ((committedRows es).map OutboxRow.seq).Nodup
  table : ∀ row ∈ s.table, row ∈ committedRows es
  tableNodup : (s.table.map OutboxRow.seq).Nodup

structure Tracked (es : List Effect) (s : State) (worker : Nat) (p : Poller) : Prop where
  started : .started worker ∈ es
  start : p.startSeq ≤ p.last
  bounded : p.last < s.nextSeq
  unread : ∀ row ∈ rowsSinceStart worker es, row.workerId ≠ p.bus.workerId → p.last < row.seq →
    row ∈ s.table
  since : ∀ row ∈ s.table, p.startSeq < row.seq → row ∈ rowsSinceStart worker es
  ahead : ∀ r ∈ s.inFlight, r.workerId ≠ p.bus.workerId → p.startSeq < r.seq → p.last < r.seq
  passed : ∀ row ∈ rowsSinceStart worker es, p.startSeq < row.seq → row.seq ≤ p.last →
    deliveriesOf es worker row.seq = expected p.bus row

structure Fanout (es : List Effect) (s : State) : Prop where
  rows : Rows es s
  recorded : ∀ worker seq cb, .delivered worker seq cb ∈ es →
    (∃ row ∈ committedRows es, row.seq = seq) ∧
      ∃ p, s.pollers[worker]? = some p ∧ p.startedAt.isSome ∧ seq ≤ p.last
  startedOnly : ∀ worker, .started worker ∈ es →
    ∃ p, s.pollers[worker]? = some p ∧ p.startedAt.isSome
  tracked : ∀ worker p, s.pollers[worker]? = some p → p.startedAt.isSome → Tracked es s worker p

variable {es : List Effect} {s : State} {worker : Nat} {p : Poller}

theorem getElem?_setPoller (hp : s.pollers[worker]? = some p) (q : Poller) (v : Nat) :
    (s.setPoller worker q).pollers[v]? = if worker = v then some q else s.pollers[v]? :=
  getElem?_set_of_some hp q v

theorem Tracked.congr {s' : State} (h : Tracked es s worker p) {q : Poller}
    (hbus : q.bus = p.bus) (hstart : q.startSeq = p.startSeq) (hlast : q.last = p.last)
    (hseq : s.nextSeq ≤ s'.nextSeq) (hsub : ∀ row ∈ s'.table, row ∈ s.table)
    (htable : ∀ row ∈ s.table, p.last < row.seq → row.workerId ≠ p.bus.workerId → row ∈ s'.table)
    (hflight : ∀ r ∈ s'.inFlight, r ∈ s.inFlight ∨ p.last < r.seq) :
    Tracked es s' worker q := by
  refine ⟨h.started, ?_, ?_, ?_, ?_, ?_, ?_⟩
  · rw [hstart, hlast]
    exact h.start
  · rw [hlast]
    exact h.bounded.trans_le hseq
  · intro row hrow hne hlt
    rw [hbus] at hne
    rw [hlast] at hlt
    exact htable row (h.unread row hrow hne hlt) hlt hne
  · intro row hrow hlt
    rw [hstart] at hlt
    exact h.since row (hsub row hrow) hlt
  · intro r hr hne hlt
    rw [hbus] at hne
    rw [hstart] at hlt
    rw [hlast]
    rcases hflight r hr with hr | hr
    · exact h.ahead r hr hne hlt
    · exact hr
  · intro row hrow hlt hle
    rw [hstart] at hlt
    rw [hlast] at hle
    rw [hbus]
    exact h.passed row hrow hlt hle

theorem fanout_publish (h : Fanout es s) (event : Draft) (workerId : Str) :
    Fanout es { s with
      nextSeq := s.nextSeq + 1
      inFlight := s.inFlight ++ [outboxRow s.nextSeq workerId event] } := by
  refine ⟨⟨Nat.succ_pos _, ?_, ?_, ?_, ?_, h.rows.unique, h.rows.table, h.rows.tableNodup⟩,
    h.recorded, h.startedOnly, ?_⟩
  · intro row hrow
    exact (h.rows.below row hrow).trans (Nat.lt_succ_self _)
  · intro r hr
    rcases List.mem_append.mp hr with hr | hr
    · exact (h.rows.pending r hr).trans (Nat.lt_succ_self _)
    · rw [List.mem_singleton.mp hr]
      exact Nat.lt_succ_self _
  · rw [List.map_append, List.nodup_append]
    refine ⟨h.rows.pendingNodup, by simp, ?_⟩
    rintro a ha b hb rfl
    obtain ⟨r,hr,rfl⟩ := List.mem_map.mp ha
    have hlt := h.rows.pending r hr
    simp only [List.map_singleton, List.mem_singleton, outboxRow] at hb
    omega
  · intro r hr row hrow
    rcases List.mem_append.mp hr with hr | hr
    · exact h.rows.disjoint r hr row hrow
    · rw [List.mem_singleton.mp hr]
      exact (h.rows.below row hrow).ne
  · intro worker p hp hrunning
    have ht := h.tracked worker p hp hrunning
    refine ht.congr rfl rfl rfl (Nat.le_succ _) (fun row hrow => hrow) (fun row hrow _ _ => hrow) ?_
    intro r hr
    rcases List.mem_append.mp hr with hr | hr
    · exact .inl hr
    · rw [List.mem_singleton.mp hr]
      exact .inr ht.bounded

theorem fanout_abort (h : Fanout es s) (seq : Nat) :
    Fanout es { s with inFlight := s.inFlight.filter fun r => r.seq ≠ seq } := by
  have hsub : ∀ r ∈ s.inFlight.filter (fun r => r.seq ≠ seq), r ∈ s.inFlight :=
    fun r hr => (List.mem_filter.mp hr).1
  refine ⟨⟨h.rows.positive, h.rows.below, ?_, ?_, ?_, h.rows.unique, h.rows.table,
    h.rows.tableNodup⟩, h.recorded, h.startedOnly, ?_⟩
  · intro r hr
    exact h.rows.pending r (hsub r hr)
  · exact (List.filter_sublist.map _).nodup h.rows.pendingNodup
  · intro r hr
    exact h.rows.disjoint r (hsub r hr)
  · intro worker p hp hrunning
    exact (h.tracked worker p hp hrunning).congr rfl rfl rfl le_rfl (fun row hrow => hrow)
      (fun row hrow _ _ => hrow) fun r hr => .inl (hsub r hr)

theorem Rows.commit (h : Rows es s) {row : OutboxRow} (hrow : row ∈ s.inFlight) :
    Rows (es ++ [.committed row]) { s with
      inFlight := s.inFlight.filter fun r => r.seq ≠ row.seq
      table := s.table ++ [row] } := by
  have hrows : committedRows (es ++ [.committed row]) = committedRows es ++ [row] :=
    committedRows_append _ _
  have hsub : ∀ r ∈ s.inFlight.filter (fun r => r.seq ≠ row.seq), r ∈ s.inFlight ∧ r.seq ≠ row.seq :=
    fun r hr => ⟨(List.mem_filter.mp hr).1, by simpa using (List.mem_filter.mp hr).2⟩
  have hnodup : ∀ rows : List OutboxRow, (rows.map OutboxRow.seq).Nodup →
      (∀ r ∈ rows, r ∈ committedRows es) → ((rows ++ [row]).map OutboxRow.seq).Nodup := by
    intro rows hunique hold
    rw [List.map_append, List.nodup_append]
    refine ⟨hunique, by simp, ?_⟩
    rintro a ha b hb rfl
    obtain ⟨old,hmem,rfl⟩ := List.mem_map.mp ha
    exact h.disjoint row hrow old (hold old hmem) (by simpa using hb)
  refine ⟨h.positive, ?_, ?_, ?_, ?_, ?_, ?_, ?_⟩
  · intro r hr
    rw [hrows] at hr
    rcases List.mem_append.mp hr with hr | hr
    · exact h.below r hr
    · rw [List.mem_singleton.mp hr]
      exact h.pending row hrow
  · intro r hr
    exact h.pending r (hsub r hr).1
  · exact (List.filter_sublist.map _).nodup h.pendingNodup
  · intro r hr old hold
    rw [hrows] at hold
    rcases List.mem_append.mp hold with hold | hold
    · exact h.disjoint r (hsub r hr).1 old hold
    · rw [List.mem_singleton.mp hold]
      exact Ne.symm (hsub r hr).2
  · rw [hrows]
    exact hnodup _ h.unique fun _ hr => hr
  · intro r hr
    rw [hrows]
    rcases List.mem_append.mp hr with hr | hr
    · exact List.mem_append_left _ (h.table r hr)
    · exact List.mem_append_right _ hr
  · exact hnodup _ h.tableNodup h.table

theorem Fanout.undelivered (h : Fanout es s) {row : OutboxRow} (hrow : row ∈ s.inFlight)
    (worker : Nat) : deliveriesOf es worker row.seq = [] := by
  apply deliveriesOf_eq_nil
  intro cb hin
  obtain ⟨⟨old,hold,heq⟩,_⟩ := h.recorded worker row.seq cb hin
  exact h.rows.disjoint row hrow old hold heq

theorem Tracked.commit (ht : Tracked es s worker p) {row : OutboxRow} (hrow : row ∈ s.inFlight)
    (hfresh : deliveriesOf es worker row.seq = []) :
    Tracked (es ++ [.committed row]) { s with
      inFlight := s.inFlight.filter fun r => r.seq ≠ row.seq
      table := s.table ++ [row] } worker p := by
  have hsince : rowsSinceStart worker (es ++ [.committed row]) =
      rowsSinceStart worker es ++ [row] := by
    rw [rowsSinceStart_append, if_pos ht.started]
    rfl
  refine ⟨List.mem_append_left _ ht.started, ht.start, ht.bounded, ?_, ?_, ?_, ?_⟩
  · intro r hr hne hlt
    rw [hsince] at hr
    rcases List.mem_append.mp hr with hr | hr
    · exact List.mem_append_left _ (ht.unread r hr hne hlt)
    · exact List.mem_append_right _ hr
  · intro r hr hlt
    rw [hsince]
    rcases List.mem_append.mp hr with hr | hr
    · exact List.mem_append_left _ (ht.since r hr hlt)
    · exact List.mem_append_right _ hr
  · intro r hr
    exact ht.ahead r (List.mem_filter.mp hr).1
  · intro r hr hlt hle
    have hsame : deliveriesOf (es ++ [.committed row]) worker r.seq = deliveriesOf es worker r.seq := by
      rw [deliveriesOf_append]
      exact List.append_nil _
    rw [hsince] at hr
    rw [hsame]
    rcases List.mem_append.mp hr with hr | hr
    · exact ht.passed r hr hlt hle
    · rw [List.mem_singleton.mp hr] at hlt hle ⊢
      rw [hfresh]
      by_cases hown : row.workerId = p.bus.workerId
      · rw [expected, if_pos hown]
      · exact absurd (ht.ahead row hrow hown hlt) (not_lt.mpr hle)

theorem fanout_commit (h : Fanout es s) {row : OutboxRow} (hrow : row ∈ s.inFlight) :
    Fanout (es ++ [.committed row]) { s with
      inFlight := s.inFlight.filter fun r => r.seq ≠ row.seq
      table := s.table ++ [row] } := by
  have hold : ∀ e : Effect, e ≠ .committed row → e ∈ es ++ [.committed row] → e ∈ es := by
    intro e hne hin
    simpa [hne] using hin
  refine ⟨h.rows.commit hrow, ?_, ?_, ?_⟩
  · intro worker seq cb hin
    obtain ⟨⟨old,hmem,heq⟩,hpoller⟩ := h.recorded worker seq cb (hold _ Effect.noConfusion hin)
    refine ⟨⟨old, ?_, heq⟩, hpoller⟩
    rw [committedRows_append]
    exact List.mem_append_left _ hmem
  · intro worker hin
    exact h.startedOnly worker (hold _ Effect.noConfusion hin)
  · intro worker p hp hrunning
    exact (h.tracked worker p hp hrunning).commit hrow (h.undelivered hrow worker)

section Uncommitted

variable {es' : List Effect} (hnone : committedRows es' = [])

include hnone

theorem committedRows_append_none : committedRows (es ++ es') = committedRows es := by
  rw [committedRows_append, hnone, List.append_nil]

theorem Rows.append (h : Rows es s) (worker : Nat) (q : Poller) :
    Rows (es ++ es') (s.setPoller worker q) := by
  have hrows : committedRows (es ++ es') = committedRows es := committedRows_append_none hnone
  refine ⟨h.positive, ?_, h.pending, h.pendingNodup, ?_, ?_, ?_, h.tableNodup⟩
  · rw [hrows]
    exact h.below
  · rw [hrows]
    exact h.disjoint
  · rw [hrows]
    exact h.unique
  · rw [hrows]
    exact h.table

theorem Tracked.since_append (ht : Tracked es s worker p) :
    rowsSinceStart worker (es ++ es') = rowsSinceStart worker es := by
  rw [rowsSinceStart_append, if_pos ht.started, hnone, List.append_nil]

theorem Tracked.append (ht : Tracked es s worker p)
    (hdeliver : ∀ seq, deliveriesOf es' worker seq = []) (v : Nat) (q : Poller) :
    Tracked (es ++ es') (s.setPoller v q) worker p := by
  have hsince := ht.since_append hnone
  refine ⟨List.mem_append_left _ ht.started, ht.start, ht.bounded, ?_, ?_, ht.ahead, ?_⟩
  · rw [hsince]
    exact ht.unread
  · rw [hsince]
    exact ht.since
  · rw [hsince]
    intro row hrow hlt hle
    rw [deliveriesOf_append, ht.passed row hrow hlt hle, hdeliver, List.append_nil]

end Uncommitted

theorem maxSeq_lt {table : List OutboxRow} {bound : Nat} (hbound : 0 < bound)
    (h : ∀ row ∈ table, row.seq < bound) : maxSeq table < bound := by
  have hfold : ∀ (seqs : List Nat) (n : Nat), n < bound → (∀ m ∈ seqs, m < bound) →
      seqs.foldl max n < bound := by
    intro seqs
    induction seqs with
    | nil => intro n hn _; exact hn
    | cons m seqs ih =>
      intro n hn hall
      exact ih (max n m) (max_lt hn (hall m (by simp))) fun k hk => hall k (by simp [hk])
  apply hfold _ 0 hbound
  intro m hm
  obtain ⟨row,hrow,rfl⟩ := List.mem_map.mp hm
  exact h row hrow

theorem le_maxSeq {table : List OutboxRow} {row : OutboxRow} (h : row ∈ table) :
    row.seq ≤ maxSeq table := by
  have hfold : ∀ (seqs : List Nat) (n : Nat), n ≤ seqs.foldl max n ∧
      ∀ m ∈ seqs, m ≤ seqs.foldl max n := by
    intro seqs
    induction seqs with
    | nil => intro n; simp
    | cons m seqs ih =>
      intro n
      obtain ⟨hmax,hall⟩ := ih (max n m)
      rw [List.foldl_cons]
      refine ⟨(le_max_left _ _).trans hmax, ?_⟩
      intro k hk
      rcases List.mem_cons.mp hk with rfl | hk
      · exact (le_max_right _ _).trans hmax
      · exact hall k hk
  exact (hfold _ 0).2 row.seq (List.mem_map_of_mem h)

theorem Rows.tracked_start (h : Rows es s) (hnew : .started worker ∉ es) (now : Int) :
    Tracked (es ++ [.started worker])
      (s.setPoller worker
        { p with startedAt := some now, startSeq := maxSeq s.table, last := maxSeq s.table })
      worker { p with startedAt := some now, startSeq := maxSeq s.table, last := maxSeq s.table } := by
  have hsince : rowsSinceStart worker (es ++ [.started worker]) = [] := by
    rw [rowsSinceStart_append, if_neg hnew]
    simp [rowsSinceStart, committedRows]
  refine ⟨by simp, le_rfl, ?_, ?_, ?_, ?_, ?_⟩
  · exact maxSeq_lt h.positive fun row hrow => h.below row (h.table row hrow)
  · rw [hsince]
    intro row hrow
    cases hrow
  · intro row hrow hlt
    exact absurd hlt (not_lt.mpr (le_maxSeq hrow))
  · intro r _ _ hlt
    exact hlt
  · rw [hsince]
    intro row hrow
    cases hrow

theorem fanout_start (h : Fanout es s) (hp : s.pollers[worker]? = some p)
    (hidle : p.startedAt = none) (now : Int) :
    Fanout (es ++ [.started worker]) (s.setPoller worker
      { p with startedAt := some now, startSeq := maxSeq s.table, last := maxSeq s.table }) := by
  have hother : ∀ v q, s.pollers[v]? = some q → q.startedAt.isSome → worker ≠ v := by
    rintro v q hq hrunning rfl
    rw [hp] at hq
    cases hq
    rw [hidle] at hrunning
    cases hrunning
  have hnew : .started worker ∉ es := by
    intro hin
    obtain ⟨q,hq,hrunning⟩ := h.startedOnly worker hin
    exact hother worker q hq hrunning rfl
  refine ⟨h.rows.append rfl worker _, ?_, ?_, ?_⟩
  · intro v seq cb hin
    obtain ⟨hrow,q,hq,hrunning,hle⟩ := h.recorded v seq cb (by simpa using hin)
    rw [committedRows_append_none rfl, getElem?_setPoller hp, if_neg (hother v q hq hrunning)]
    exact ⟨hrow, q, hq, hrunning, hle⟩
  · intro v hin
    rw [getElem?_setPoller hp]
    by_cases hv : worker = v
    · rw [if_pos hv]
      exact ⟨_, rfl, rfl⟩
    · rw [if_neg hv]
      apply h.startedOnly v
      simpa [Ne.symm hv] using hin
  · intro v q hq hrunning
    rw [getElem?_setPoller hp] at hq
    split at hq
    · next hv =>
      subst hv
      cases hq
      exact h.rows.tracked_start hnew now
    · exact (h.tracked v q hq hrunning).append rfl (fun _ => rfl) worker _

theorem passed_drain (h : Fanout es s) (hp : s.pollers[worker]? = some p)
    (hrunning : p.startedAt.isSome) {d : Drained}
    (hd : DrainsAll p.bus p.last (batch s.table p.last) d) {row : OutboxRow}
    (hrow : row ∈ rowsSinceStart worker es) (hlt : p.startSeq < row.seq) (hle : row.seq ≤ d.last) :
    deliveriesOf (es ++ deliveryEffects worker p.bus (batch s.table p.last)) worker row.seq =
      expected p.bus row := by
  have ht := h.tracked worker p hp hrunning
  rw [deliveriesOf_append, deliveriesOf_deliveryEffects, if_pos rfl]
  rcases le_or_gt row.seq p.last with hpast | hnew
  · have hnone : ((batch s.table p.last).filter fun r => r.seq = row.seq) = [] := by
      rw [List.filter_eq_nil_iff]
      intro r hr heq
      have hlast := (mem_batch hr).2
      have hseq : r.seq = row.seq := by simpa using heq
      omega
    rw [hnone, ht.passed row hrow hlt hpast]
    exact List.append_nil _
  · have hold : deliveriesOf es worker row.seq = [] := by
      apply deliveriesOf_eq_nil
      intro cb hin
      obtain ⟨_,q,hq,_,hseq⟩ := h.recorded worker row.seq cb hin
      rw [hp] at hq
      cases hq
      exact absurd hnew (not_lt.mpr hseq)
    rw [hold, List.nil_append]
    by_cases hown : row.workerId = p.bus.workerId
    · rw [expected, if_pos hown, List.flatMap_eq_nil_iff]
      intro r hr
      have hseq : r.seq = row.seq := by simpa using (List.mem_filter.mp hr).2
      have hr' := h.rows.table r (mem_batch (List.mem_filter.mp hr).1).1
      have heq := eq_of_seq_eq h.rows.unique hr' (rowsSinceStart_subset hrow) hseq
      rw [heq, expected, if_pos hown]
    · have htable := ht.unread row hrow hown hnew
      have hbatch : row ∈ batch s.table p.last := by
        rcases hd.last_eq with heq | ⟨row',hrow',heq⟩
        · exact absurd hnew (not_lt.mpr (heq ▸ hle))
        · exact mem_batch_of_le h.rows.tableNodup htable hnew hrow' (heq ▸ hle)
      rw [filter_seq_eq (batch_nodup h.rows.tableNodup) hbatch]
      exact List.append_nil _

theorem tracked_drain (h : Fanout es s) (hp : s.pollers[worker]? = some p)
    (hrunning : p.startedAt.isSome) {d : Drained}
    (hd : DrainsAll p.bus p.last (batch s.table p.last) d)
    (hahead : ∀ r ∈ s.inFlight, r.workerId ≠ p.bus.workerId → p.startSeq < r.seq →
      ∀ row ∈ batch s.table p.last, row.seq < r.seq) :
    Tracked (es ++ deliveryEffects worker p.bus (batch s.table p.last))
      (s.setPoller worker { p with bus := d.bus, last := d.last, pruneDue := true }) worker
      { p with bus := d.bus, last := d.last, pruneDue := true } := by
  have ht := h.tracked worker p hp hrunning
  have hsince := ht.since_append
    (committedRows_deliveryEffects worker p.bus (batch s.table p.last))
  obtain ⟨history,hbus⟩ := hd.bus_eq
  refine ⟨List.mem_append_left _ ht.started, ht.start.trans hd.last_le, ?_, ?_, ?_, ?_, ?_⟩
  · rcases hd.last_eq with heq | ⟨row,hrow,heq⟩
    · exact heq.trans_lt ht.bounded
    · exact heq.trans_lt (h.rows.below row (h.rows.table row (mem_batch hrow).1))
  · rw [hsince]
    intro row hrow hne hlt
    rw [hbus] at hne
    exact ht.unread row hrow hne (hd.last_le.trans_lt hlt)
  · rw [hsince]
    exact ht.since
  · intro r hr hne hlt
    rw [hbus] at hne
    rcases hd.last_eq with heq | ⟨row,hrow,heq⟩
    · exact heq.trans_lt (ht.ahead r hr hne hlt)
    · exact heq.trans_lt (hahead r hr hne hlt row hrow)
  · rw [hsince]
    intro row hrow hlt hle
    rw [hbus]
    exact passed_drain h hp hrunning hd hrow hlt hle

theorem fanout_drain (h : Fanout es s) (hp : s.pollers[worker]? = some p)
    (hrunning : p.startedAt.isSome) {d : Drained}
    (hd : DrainsAll p.bus p.last (batch s.table p.last) d)
    (hahead : ∀ r ∈ s.inFlight, r.workerId ≠ p.bus.workerId → p.startSeq < r.seq →
      ∀ row ∈ batch s.table p.last, row.seq < r.seq) :
    Fanout (es ++ deliveryEffects worker p.bus (batch s.table p.last))
      (s.setPoller worker { p with bus := d.bus, last := d.last, pruneDue := true }) := by
  have hnone := committedRows_deliveryEffects worker p.bus (batch s.table p.last)
  refine ⟨h.rows.append hnone worker _, ?_, ?_, ?_⟩
  · intro v seq cb hin
    rw [committedRows_append_none hnone, getElem?_setPoller hp]
    rcases List.mem_append.mp hin with hin | hin
    · obtain ⟨hrow,q,hq,hq',hle⟩ := h.recorded v seq cb hin
      refine ⟨hrow, ?_⟩
      by_cases hv : worker = v
      · subst hv
        rw [hp] at hq
        cases hq
        rw [if_pos rfl]
        exact ⟨_, rfl, hrunning, hle.trans hd.last_le⟩
      · rw [if_neg hv]
        exact ⟨q, hq, hq', hle⟩
    · obtain ⟨rfl,row,hrow,rfl⟩ := mem_deliveryEffects hin
      rw [if_pos rfl]
      exact ⟨⟨row, h.rows.table row (mem_batch hrow).1, rfl⟩, _, rfl, hrunning, hd.seq_le row hrow⟩
  · intro v hin
    rw [getElem?_setPoller hp]
    by_cases hv : worker = v
    · rw [if_pos hv]
      exact ⟨_, rfl, hrunning⟩
    · rw [if_neg hv]
      apply h.startedOnly v
      rcases List.mem_append.mp hin with hin | hin
      · exact hin
      · obtain ⟨_,_,heq⟩ := List.mem_map.mp hin
        cases heq
  · intro v q hq hq'
    rw [getElem?_setPoller hp] at hq
    split at hq
    · next hv =>
      subst hv
      cases hq
      exact tracked_drain h hp hrunning hd hahead
    · next hv =>
      apply (h.tracked v q hq hq').append hnone
      intro seq
      rw [deliveriesOf_deliveryEffects, if_neg hv]

theorem fanout_pruneDone (h : Fanout es s) (hp : s.pollers[worker]? = some p) (q : Poller)
    (keep : OutboxRow → Bool) (hbus : q.bus = p.bus) (hstarted : q.startedAt = p.startedAt)
    (hstart : q.startSeq = p.startSeq) (hlast : q.last = p.last)
    (hkeep : ∀ row ∈ s.table, keep row = false → ∀ r ∈ s.pollers, r.startedAt.isSome →
      row.workerId ≠ r.bus.workerId → row.seq ≤ r.last) :
    Fanout es { s.setPoller worker q with table := s.table.filter keep } := by
  have hget : ∀ v, (s.pollers.set worker q)[v]? = if worker = v then some q else s.pollers[v]? :=
    getElem?_setPoller hp q
  have hsub : ∀ row ∈ s.table.filter keep, row ∈ s.table := fun row hr => (List.mem_filter.mp hr).1
  refine ⟨⟨h.rows.positive, h.rows.below, h.rows.pending, h.rows.pendingNodup, h.rows.disjoint,
    h.rows.unique, fun row hr => h.rows.table row (hsub row hr),
    (List.filter_sublist.map _).nodup h.rows.tableNodup⟩, ?_, ?_, ?_⟩
  · intro v seq cb hin
    obtain ⟨hrow,r,hr,hrunning,hle⟩ := h.recorded v seq cb hin
    refine ⟨hrow, ?_⟩
    by_cases hv : worker = v
    · subst hv
      rw [hp] at hr
      cases hr
      exact ⟨q, (hget worker).trans (if_pos rfl), hstarted ▸ hrunning, hlast ▸ hle⟩
    · exact ⟨r, (hget v).trans ((if_neg hv).trans hr), hrunning, hle⟩
  · intro v hin
    obtain ⟨r,hr,hrunning⟩ := h.startedOnly v hin
    by_cases hv : worker = v
    · subst hv
      rw [hp] at hr
      cases hr
      exact ⟨q, (hget worker).trans (if_pos rfl), hstarted ▸ hrunning⟩
    · exact ⟨r, (hget v).trans ((if_neg hv).trans hr), hrunning⟩
  · have hkept : ∀ r ∈ s.pollers, r.startedAt.isSome → ∀ row ∈ s.table, r.last < row.seq →
        row.workerId ≠ r.bus.workerId → row ∈ s.table.filter keep := by
      intro r hr hrunning row hrow hlt hne
      rw [List.mem_filter]
      refine ⟨hrow, ?_⟩
      cases hk : keep row with
      | true => rfl
      | false => exact absurd hlt (not_lt.mpr (hkeep row hrow hk r hr hrunning hne))
    intro v r hr hrunning
    have hr' := (hget v).symm.trans hr
    by_cases hv : worker = v
    · subst hv
      rw [if_pos rfl] at hr'
      cases hr'
      have hrunning' : p.startedAt.isSome := hstarted ▸ hrunning
      exact (h.tracked worker p hp hrunning').congr hbus hstart hlast le_rfl hsub
        (hkept p (List.mem_of_getElem? hp) hrunning') fun r hr => .inl hr
    · rw [if_neg hv] at hr'
      exact (h.tracked v r hr' hrunning).congr rfl rfl rfl le_rfl hsub
        (hkept r (List.mem_of_getElem? hr') hrunning) fun r hr => .inl hr

theorem drainPoller_ready {startedAt : Int} {outcome : Nat → Nat → Outcome}
    (h : ∀ row ∈ batch s.table p.last, row.workerId ≠ p.bus.workerId →
      Ready startedAt outcome p.bus row) :
    ∃ d, DrainsAll p.bus p.last (batch s.table p.last) d ∧
      drainPoller s.table p startedAt outcome =
        ({ p with bus := d.bus, last := d.last, pruneDue := true },
         (batch s.table p.last).flatMap fun row =>
           (expected p.bus row).map fun cb => (row.seq, cb)) := by
  have hd : DrainsAll p.bus p.last (batch s.table p.last) _ := drainRows_ready h
  refine ⟨_, hd, ?_⟩
  rw [drainPoller]
  rw [hd.ok, hd.deliveries]
  rfl

theorem step_drain {startedAt : Int} {outcome : Nat → Nat → Outcome}
    (hp : s.pollers[worker]? = some p) (hstarted : p.startedAt = some startedAt)
    (hidle : p.pruneDue = false) (h : Undisturbed s (.drain worker false outcome)) :
    ∃ d, DrainsAll p.bus p.last (batch s.table p.last) d ∧
      step s (.drain worker false outcome) =
        some (s.setPoller worker { p with bus := d.bus, last := d.last, pruneDue := true },
          deliveryEffects worker p.bus (batch s.table p.last)) := by
  obtain ⟨d,hd,hdrain⟩ := drainPoller_ready (h p hp startedAt hstarted).1
  refine ⟨d, hd, ?_⟩
  simp only [step, hp, hstarted, hidle, Option.bind_eq_bind, Option.bind_some, hdrain]
  rfl

theorem fanout_prune (h : Fanout es s) {now : Int} {fails : Bool} {s' : State}
    {es' : List Effect} (hu : Undisturbed s (.prune worker now fails))
    (hstep : step s (.prune worker now fails) = some (s', es')) : Fanout (es ++ es') s' := by
  rw [step] at hstep
  cases hp : s.pollers[worker]? with
  | none => simp [hp] at hstep
  | some p =>
    have hall : ∀ q : Poller, q.bus = p.bus → q.startedAt = p.startedAt →
        q.startSeq = p.startSeq → q.last = p.last → Fanout (es ++ []) (s.setPoller worker q) := by
      intro q hbus hstarted hstart hlast
      have hall := fanout_pruneDone h hp q (fun _ => true) hbus hstarted hstart hlast
        fun _ _ hfalse => by cases hfalse
      rw [List.filter_eq_self.mpr fun _ _ => rfl] at hall
      rw [List.append_nil]
      exact hall
    simp only [hp, Option.bind_eq_bind, Option.bind_some] at hstep
    split at hstep
    · cases hstep
    · split at hstep
      · next hnow =>
        cases fails with
        | true =>
          cases hstep
          exact hall _ rfl rfl rfl rfl
        | false =>
          cases hstep
          rw [List.append_nil]
          refine fanout_pruneDone h hp { p with pruneDue := false, lastPrune := some now }
            (fun row => now - retention ≤ row.createdAt) rfl rfl rfl rfl ?_
          intro row hrow hkeep q hq hrunning hne
          have hold : row.createdAt < now - retention := not_le.mp (of_decide_eq_false hkeep)
          exact hu p hp hnow row hrow hold q hq hrunning hne
      · cases hstep
        exact hall _ rfl rfl rfl rfl

theorem fanout_step (es : List Effect) (s : State) (l : Step) (s' : State) (es' : List Effect)
    (h : Fanout es s) (hu : Undisturbed s l) (hstep : step s l = some (s', es')) :
    Fanout (es ++ es') s' := by
  cases l with
  | publish worker event =>
    obtain ⟨p,_,heq⟩ := Option.bind_eq_some_iff.mp hstep
    cases heq
    rw [List.append_nil]
    exact fanout_publish h event p.bus.workerId
  | commit seq =>
    obtain ⟨row,hrow,heq⟩ := Option.bind_eq_some_iff.mp hstep
    cases heq
    have hseq : row.seq = seq := by simpa using List.find?_some hrow
    subst hseq
    exact fanout_commit h (List.mem_of_find?_eq_some hrow)
  | abort seq =>
    cases hstep
    rw [List.append_nil]
    exact fanout_abort h seq
  | start worker now =>
    obtain ⟨p,hp,heq⟩ := Option.bind_eq_some_iff.mp hstep
    dsimp only at heq
    split at heq
    · cases heq
    · next hidle =>
      cases heq
      exact fanout_start h hp (by simpa using hidle) now
  | drain worker selectFails outcome =>
    obtain ⟨p,hp,heq⟩ := Option.bind_eq_some_iff.mp hstep
    obtain ⟨startedAt,hstarted,heq⟩ := Option.bind_eq_some_iff.mp heq
    split at heq
    · cases heq
    · next hdue =>
      cases selectFails with
      | true =>
        cases heq
        rw [List.append_nil]
        exact h
      | false =>
        obtain ⟨d,hd,hdrain⟩ := step_drain hp hstarted (by simpa using hdue) hu
        rw [hdrain] at hstep
        cases hstep
        exact fanout_drain h hp (by simp [hstarted]) hd (hu p hp startedAt hstarted).2
  | prune worker now fails => exact fanout_prune h hu hstep

end Invariant

def initial (buses : List EventBus) : State where
  nextSeq := 1
  inFlight := []
  table := []
  pollers := buses.map fun bus => { bus := bus }

theorem fanout_initial (buses : List EventBus) : Fanout [] (initial buses) := by
  have hidle : ∀ (worker : Nat) (p : Poller), (initial buses).pollers[worker]? = some p →
      p.startedAt = none := by
    intro worker p hp
    rw [initial, List.getElem?_map] at hp
    obtain ⟨bus,_,rfl⟩ := Option.map_eq_some_iff.mp hp
    rfl
  refine ⟨⟨Nat.one_pos, ?_, ?_, List.nodup_nil, ?_, List.nodup_nil, ?_, List.nodup_nil⟩, ?_, ?_, ?_⟩
  · intro row hrow
    cases hrow
  · intro r hr
    cases hr
  · intro r hr
    cases hr
  · intro row hrow
    cases hrow
  · intro worker seq cb hin
    cases hin
  · intro worker hin
    cases hin
  · intro worker p hp hrunning
    rw [hidle worker p hp] at hrunning
    cases hrunning

theorem foreign_rows_dispatched_once (buses : List EventBus) (steps : List Step) (s : State)
    (es : List Effect) (hrun : exec step (initial buses) steps = some (s, es))
    (hmeets : Meets step Undisturbed (initial buses) steps) (worker : Nat) (p : Poller)
    (hp : s.pollers[worker]? = some p) (hrunning : p.startedAt.isSome) :
    (∀ row ∈ rowsSinceStart worker es, p.startSeq < row.seq →
      deliveriesOf es worker row.seq = if row.seq ≤ p.last then expected p.bus row else []) ∧
    ∀ outcome, p.pruneDue = false → Undisturbed s (.drain worker false outcome) →
      ∃ s' es', step s (.drain worker false outcome) = some (s', es') ∧
        ∀ row ∈ batch s.table p.last,
          deliveriesOf (es ++ es') worker row.seq = expected p.bus row := by
  have hfan : Fanout es s := exec_invariant fanout_step [] (fanout_initial buses) hmeets hrun
  have ht := hfan.tracked worker p hp hrunning
  constructor
  · intro row hrow hlt
    split
    · next hle => exact ht.passed row hrow hlt hle
    · next hle =>
      apply deliveriesOf_eq_nil
      intro cb hin
      obtain ⟨_,q,hq,_,hseq⟩ := hfan.recorded worker row.seq cb hin
      rw [hp] at hq
      cases hq
      exact hle hseq
  · intro outcome hidle hu
    obtain ⟨startedAt,hstarted⟩ := Option.isSome_iff_exists.mp hrunning
    obtain ⟨d,hd,hdrain⟩ := step_drain hp hstarted hidle hu
    refine ⟨_, _, hdrain, ?_⟩
    intro row hrow
    obtain ⟨htable,hnew⟩ := mem_batch hrow
    have hlt : p.startSeq < row.seq := ht.start.trans_lt hnew
    exact passed_drain hfan hp hrunning hd (ht.since row htable hlt) hlt (hd.seq_le row hrow)

def publisherBus : EventBus := ⟨"host:1:aa".toList, [], [], []⟩

def runCompleted : Str := "run.completed".toList

def listenerBus : EventBus :=
  ⟨"host:2:bb".toList, [(runCompleted, [7, 9]), (wildcard, [8])], [9], []⟩

def draft (id : Str) (payload : Str) (timestamp : Int) : Draft :=
  ⟨id, runCompleted, "system".toList, payload, "normal".toList, none, timestamp⟩

def emptyPayload : Str := [Char.ofNat 123, Char.ofNat 125]

def allReturn : Nat → Nat → Outcome := fun _ _ => .returned

def orderlySteps : List Step :=
  [.start 1 10, .publish 0 (draft "e1".toList emptyPayload 20), .commit 1,
   .publish 0 (draft "e2".toList emptyPayload 30), .publish 1 (draft "e3".toList emptyPayload 40),
   .drain 1 true allReturn, .commit 2, .drain 1 false allReturn, .prune 1 50 false, .commit 3,
   .drain 1 false allReturn]

theorem foreign_rows_dispatched_once_orderly :
    ∃ s es p, exec step (initial [publisherBus, listenerBus]) orderlySteps = some (s, es) ∧
      s.pollers[1]? = some p ∧ p.startedAt.isSome ∧
      (rowsSinceStart 1 es).map OutboxRow.seq = [1, 2, 3] ∧
      ∀ row ∈ rowsSinceStart 1 es, p.startSeq < row.seq →
        deliveriesOf es 1 row.seq = if row.seq ≤ p.last then expected p.bus row else [] := by
  refine ⟨_, _, _, rfl, rfl, rfl, by decide +kernel, ?_⟩
  exact (foreign_rows_dispatched_once [publisherBus, listenerBus] orderlySteps _ _ rfl
    (by decide +kernel) 1 _ rfl rfl).1

def databaseErrorOnSecond : Nat → Nat → Outcome :=
  fun seq _ => if seq = 2 then .pollError else .returned

def failingTickSteps : List Step :=
  [.start 1 10, .publish 0 (draft "e1".toList emptyPayload 20), .commit 1,
   .publish 0 (draft "e2".toList emptyPayload 30), .commit 2,
   .drain 1 false databaseErrorOnSecond, .drain 1 false allReturn]

def lateCommitSteps : List Step :=
  [.start 1 10, .publish 0 (draft "e1".toList emptyPayload 20),
   .publish 0 (draft "e2".toList emptyPayload 30), .commit 2, .drain 1 false allReturn,
   .prune 1 50 false, .commit 1, .drain 1 false allReturn]

theorem failing_tick_redelivers_and_late_commit_is_skipped :
    (∃ s es, exec step (initial [publisherBus, listenerBus]) failingTickSteps = some (s, es) ∧
      (rowsSinceStart 1 es).map OutboxRow.seq = [1, 2] ∧ deliveriesOf es 1 1 = [7, 8, 7, 8]) ∧
    ∃ s es, exec step (initial [publisherBus, listenerBus]) lateCommitSteps = some (s, es) ∧
      (rowsSinceStart 1 es).map OutboxRow.seq = [2, 1] ∧
      (rowsSinceStart 1 es).map (expected listenerBus) = [[7, 8], [7, 8]] ∧
      deliveriesOf es 1 1 = [] ∧ s.pollers.map Poller.last = [0, 2] :=
  ⟨⟨_, _, rfl, by decide +kernel, by decide +kernel⟩,
    ⟨_, _, rfl, by decide +kernel, by decide +kernel, by decide +kernel, by decide +kernel⟩⟩

end PicoSentry.Serve.Outbox
