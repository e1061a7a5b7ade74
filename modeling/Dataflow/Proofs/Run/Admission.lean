import Dataflow.Proofs.Engine.Calls

/-!
# Who is admitted, and when

A table of runs on its own, asked in any order to accept runs, to count predecessors and
sinks that have finished, to record what came of a node, to end a run, and to close. The
`Journal` notes down what it answers: the runs that it accepted, those that it started, in
which slot and with which inputs, those that ended, and the cells that it cancelled.

The journal does not look into the table. What it says of the table nevertheless,
`Journal.Orderly`, is that runs are served first come first served: the accepted runs are
numbered without gaps, and those that were started are the first of them, each once and
with its own inputs. Every slot is free or in the hands of one run, and runs wait only while
none is free.

A run may be ended at any time here, whether or not its sinks have finished, as long as it
holds a slot.
-/

namespace Dataflow

variable {α : Type}

/-- What a table of runs can be asked. -/
inductive TableCall (α : Type) where
  | submit (inputs : Staged α) (cell : CellId)
  | release (slot : SlotId) (id : NodeId)
  | record (slot : SlotId) (id : NodeId) (output : Option α) (error : Option ExecutionError)
  | finish (slot : SlotId)
  | complete (slot : SlotId)
  | close

/-- What waits in the backlog, as a request. -/
def Pending.request (p : Pending α) : Request α :=
  ⟨p.inputs, p.cell⟩

/-- A table, and what it has answered so far. -/
structure Journal (α : Type) where
  table : Table α
  /-- The runs that were accepted. -/
  accepted : List (Pending α) := []
  /-- The runs that were to be started, each with the slot that it got. -/
  started : List (Admitted α) := []
  /-- The runs whose outcome was taken. -/
  ended : List ObjectId := []
  /-- The cells of the runs that were cancelled. -/
  cancelled : List CellId := []
  faults : List Fault := []

namespace Journal

/-- The journal of an empty table. -/
def new (depth : Nat) (inDegrees : Array Nat) (sinkCount backlogCapacity : Nat) : Journal α where
  table := .new depth inDegrees sinkCount backlogCapacity

/-- The run that a slot shows. -/
def shown (j : Journal α) (slot : SlotId) : List ObjectId :=
  (j.table.statuses[slot]?.map (·.objectId)).toList

/-- The table answers a call, and the answer is noted down. -/
def after (j : Journal α) : TableCall α → Journal α
  | .submit inputs cell =>
    match j.table.submit inputs cell with
    | .refused _ => j
    | .admitted table a => { j with
        table
        accepted := j.accepted ++ [⟨a.objectId, inputs, cell⟩]
        started := j.started ++ [a] }
    | .queued table run => { j with
        table
        accepted := j.accepted ++ [⟨run, inputs, cell⟩] }
    | .broken table f => { j with table, faults := j.faults ++ [f] }
  | .release slot id => { j with table := j.table.modifyStatus slot (·.releaseDependency id) }
  | .record slot id output error =>
    { j with table := j.table.modifyStatus slot (·.record id output error) }
  | .finish slot => { j with table := j.table.modifyStatus slot (·.finishSink) }
  | .complete slot =>
    match j.table.complete slot with
    | (.error f, table) => { j with table, faults := j.faults ++ [f] }
    | (.ok c, table) => { j with
        table
        started := j.started ++ c.next.toList
        ended := j.ended ++ j.shown slot }
  | .close => { j with
      table := j.table.close.1
      cancelled := j.cancelled ++ j.table.close.2 }

/-- The journal after a sequence of calls. -/
def run (j : Journal α) (calls : List (TableCall α)) : Journal α :=
  calls.foldl after j

/-- Whether a call may be made: only a run that holds a slot is ended. -/
def allows (j : Journal α) : TableCall α → Bool
  | .complete slot => j.table.statuses[slot]?.any (·.cell.isSome)
  | _ => true

/-- Whether a sequence of calls may be made. -/
def permits (j : Journal α) : List (TableCall α) → Bool
  | [] => true
  | call :: calls => j.allows call && (j.after call).permits calls

/-- The runs in flight: those that were started and have not ended. -/
def inFlight (j : Journal α) : List (Admitted α) :=
  j.started.filter fun a => a.objectId ∉ j.ended

/-- **Runs are admitted in order.** -/
structure Orderly (j : Journal α) (depth capacity : Nat) : Prop where
  /-- Every slot is free, and listed once, or it is held by one run in flight. -/
  slots : (j.table.free ++ j.inFlight.map (·.slot)).Perm (List.range depth)
  /-- The table shows the runs in flight in their slots, and no others. -/
  holds : ∀ {σ r}, (∃ s, j.table.Holds σ r s) ↔
    ∃ a ∈ j.inFlight, a.slot = σ ∧ a.objectId = r
  inFlight_eq : j.table.inFlight = depth - j.table.free.length
  crowded : j.table.backlog ≠ [] → j.table.free = []
  backlog_le : j.table.backlog.length ≤ capacity
  backlog_sorted : (j.table.backlog.map (·.objectId)).Pairwise (· < ·)
  started_lt : ∀ p ∈ j.table.backlog, ∀ a ∈ j.started, a.objectId < p.objectId
  /-- Accepted runs are numbered from zero on, without gaps. -/
  numbers : j.accepted.map (·.objectId) = List.range j.accepted.length
  nextId_eq : j.table.nextId = j.accepted.length
  /-- The runs that were started are the first that were accepted, each once, in order and
  with the inputs that it was submitted with. -/
  started_eq : j.started.map (fun a => (a.objectId, a.inputs)) =
    (j.accepted.take j.started.length).map fun p => (p.objectId, p.inputs)
  /-- All others wait, until they are cancelled. -/
  waiting : j.table.isClosed = false →
    j.table.backlog = j.accepted.drop j.started.length ∧ j.cancelled = []
  closed : j.table.isClosed = true →
    j.table.backlog = [] ∧ j.cancelled = (j.accepted.drop j.started.length).map (·.cell)
  /-- Every run that has ended was started, and has ended once. -/
  ended : j.ended.Nodup ∧ ∀ r ∈ j.ended, ∃ a ∈ j.started, a.objectId = r
  faultless : j.faults = []

/-! ### The invariant -/

/-- What every call keeps: the accepted runs and the table are a ledger. -/
structure Kept (j : Journal α) (depth capacity : Nat) : Prop where
  ledger : j.table.Ledger depth j.started.length (j.accepted.map (·.request))
  capacity_eq : j.table.backlogCapacity = capacity
  crowded : j.table.backlog ≠ [] → j.table.free = []
  backlog_le : j.table.backlog.length ≤ capacity
  numbers : j.accepted.map (·.objectId) = List.range j.accepted.length
  started_eq : j.started.map (fun a => (a.objectId, a.inputs)) =
    (j.accepted.take j.started.length).map fun p => (p.objectId, p.inputs)
  holds : ∀ {σ r}, (∃ s, j.table.Holds σ r s) ↔
    ∃ a ∈ j.started, a.slot = σ ∧ a.objectId = r ∧ r ∉ j.ended
  nodup_ended : j.ended.Nodup
  ended_lt : ∀ r ∈ j.ended, r < j.started.length
  cancelled_eq : j.cancelled =
    if j.table.isClosed then (j.accepted.drop j.started.length).map (·.cell) else []
  faultless : j.faults = []

variable {j : Journal α} {depth capacity : Nat}

namespace Kept

theorem new (depth : Nat) (inDegrees : Array Nat) (sinkCount capacity : Nat) :
    (Journal.new depth inDegrees sinkCount capacity : Journal α).Kept depth capacity := by
  have hledger := Table.ledger_new (α := α) depth inDegrees sinkCount capacity
  refine {
    ledger := hledger
    capacity_eq := rfl
    crowded := fun hne => absurd rfl hne
    backlog_le := Nat.zero_le _
    numbers := rfl
    started_eq := rfl
    holds := ?_
    nodup_ended := List.nodup_nil
    ended_lt := nofun
    cancelled_eq := rfl
    faultless := rfl }
  intro σ r
  constructor
  · rintro ⟨s, hs⟩
    exact absurd (hledger.held hs).1 (Nat.not_lt_zero _)
  · rintro ⟨a, ha, -⟩
    cases ha

/-! ### What the invariant says of the runs -/

theorem started_le (h : j.Kept depth capacity) : j.started.length ≤ j.accepted.length := by
  have := h.ledger.launched_le
  rwa [List.length_map] at this

/-- Started runs are numbered in the order in which they are started. -/
theorem started_numbers (h : j.Kept depth capacity) :
    j.started.map (·.objectId) = List.range j.started.length := by
  have hfst := congrArg (List.map Prod.fst) h.started_eq
  rw [List.map_map, List.map_map] at hfst
  calc j.started.map (·.objectId)
      = (j.accepted.take j.started.length).map (·.objectId) := hfst
    _ = (List.range j.accepted.length).take j.started.length := by rw [List.map_take, h.numbers]
    _ = List.range j.started.length := by rw [List.take_range, min_eq_left h.started_le]

theorem lt_started (h : j.Kept depth capacity) {a : Admitted α} (ha : a ∈ j.started) :
    a.objectId < j.started.length := by
  rw [← List.mem_range, ← h.started_numbers]
  exact List.mem_map_of_mem ha

theorem eq_of_objectId (h : j.Kept depth capacity) {a a' : Admitted α} (ha : a ∈ j.started)
    (ha' : a' ∈ j.started) (he : a.objectId = a'.objectId) : a = a' := by
  refine List.inj_on_of_nodup_map ?_ ha ha' he
  rw [h.started_numbers]
  exact List.nodup_range

/-- **The backlog is what was accepted last.** -/
theorem backlog_eq (h : j.Kept depth capacity) (hopen : j.table.isClosed = false) :
    j.table.backlog = j.accepted.drop j.started.length := by
  have hall := h.ledger.backlog_all hopen
  rw [List.length_map] at hall
  refine List.ext_getElem (by rw [List.length_drop]; omega) fun i hi hi' => ?_
  rw [List.length_drop] at hi'
  have hlt : j.started.length + i < j.accepted.length := by omega
  rw [List.getElem_drop]
  -- the numbers agree, and the number leads to the request
  have hid : (j.table.backlog[i]).objectId = j.started.length + i := by
    have := List.getElem_of_eq h.ledger.backlog_ids (i := i) (by simpa using hi)
    simpa using this
  have hid' : (j.accepted[j.started.length + i]).objectId = j.started.length + i := by
    have := List.getElem_of_eq h.numbers (i := j.started.length + i) (by simpa using hlt)
    simpa using this
  have hreq := h.ledger.backlog_mem (List.getElem_mem hi)
  rw [hid, List.getElem?_map, List.getElem?_eq_getElem hlt] at hreq
  obtain ⟨hinputs, hcell⟩ := Request.mk.inj (Option.some.inj hreq)
  generalize j.table.backlog[i] = p at *
  generalize j.accepted[j.started.length + i] = p' at *
  obtain ⟨id, inputs, cell⟩ := p
  obtain ⟨id', inputs', cell'⟩ := p'
  simp_all

/-- **Every slot is free or in the hands of one run in flight.** -/
theorem slots (h : j.Kept depth capacity) :
    (j.table.free ++ j.inFlight.map (·.slot)).Perm (List.range depth) := by
  have hmem : ∀ {a}, a ∈ j.inFlight ↔ a ∈ j.started ∧ a.objectId ∉ j.ended := by
    intro a
    simp [inFlight]
  have hholds : ∀ {a}, a ∈ j.inFlight → ∃ s, j.table.Holds a.slot a.objectId s := by
    intro a ha
    exact h.holds.mpr ⟨a, (hmem.mp ha).1, rfl, rfl, (hmem.mp ha).2⟩
  have hnodup : (j.inFlight.map (·.slot)).Nodup := by
    refine List.Nodup.map_on (fun a ha a' ha' he => ?_) ?_
    · obtain ⟨s, hs⟩ := hholds ha
      obtain ⟨s', hs'⟩ := hholds ha'
      exact h.eq_of_objectId (hmem.mp ha).1 (hmem.mp ha').1
        (Table.Ledger.run_unique hs (he ▸ hs'))
    · refine List.Nodup.filter _ (List.Nodup.of_map (·.objectId) ?_)
      rw [h.started_numbers]
      exact List.nodup_range
  refine (List.perm_ext_iff_of_nodup ?_ List.nodup_range).mpr fun σ => ?_
  · refine List.nodup_append.mpr ⟨h.ledger.nodup_free, hnodup, ?_⟩
    rintro σ hσ τ hτ rfl
    obtain ⟨a, ha, rfl⟩ := List.mem_map.mp hτ
    obtain ⟨s, hs⟩ := hholds ha
    exact h.ledger.not_free hs hσ
  rw [List.mem_append, List.mem_range]
  constructor
  · rintro (hσ | hσ)
    · exact h.ledger.free_lt hσ
    · obtain ⟨a, ha, rfl⟩ := List.mem_map.mp hσ
      obtain ⟨s, hs⟩ := hholds ha
      exact h.ledger.lt_of_holds hs
  · intro hσ
    have hlt : σ < j.table.statuses.size := h.ledger.size ▸ hσ
    have hget := Array.getElem?_eq_getElem hlt
    cases hc : (j.table.statuses[σ]).cell with
    | none => exact Or.inl ((h.ledger.mem_free σ).mpr ⟨_, hget, hc⟩)
    | some cell =>
      obtain ⟨a, ha, hslot, hid, hne⟩ := h.holds.mp ⟨_, hget, rfl, by rw [hc]; rfl⟩
      exact Or.inr (List.mem_map.mpr ⟨a, hmem.mpr ⟨ha, hid ▸ hne⟩, hslot⟩)

theorem orderly (h : j.Kept depth capacity) : j.Orderly depth capacity where
  slots := h.slots
  holds := by
    intro σ r
    rw [h.holds]
    constructor
    · rintro ⟨a, ha, hslot, hid, hne⟩
      exact ⟨a, List.mem_filter.mpr ⟨ha, by simpa [hid] using hne⟩, hslot, hid⟩
    · rintro ⟨a, ha, hslot, hid⟩
      obtain ⟨ha, hne⟩ := List.mem_filter.mp ha
      exact ⟨a, ha, hslot, hid, by simpa [hid] using hne⟩
  inFlight_eq := Nat.eq_sub_of_add_eq h.ledger.inFlight_add
  crowded := h.crowded
  backlog_le := h.backlog_le
  backlog_sorted := by
    rw [h.ledger.backlog_ids]
    exact List.pairwise_lt_range'
  started_lt := by
    intro p hp a ha
    refine Nat.lt_of_lt_of_le (h.lt_started ha) ?_
    exact h.ledger.launched_le_of_mem (List.mem_map_of_mem hp)
  numbers := h.numbers
  nextId_eq := by rw [h.ledger.nextId_eq, List.length_map]
  started_eq := h.started_eq
  waiting := fun hopen => ⟨h.backlog_eq hopen, by rw [h.cancelled_eq, hopen]; rfl⟩
  closed := fun hclosed => ⟨h.ledger.closed hclosed, by rw [h.cancelled_eq, hclosed]; rfl⟩
  ended := by
    refine ⟨h.nodup_ended, fun r hr => List.mem_map.mp ?_⟩
    rw [h.started_numbers]
    exact List.mem_range.mpr (h.ended_lt r hr)
  faultless := h.faultless

/-! ### Submissions -/

/-- A run that is accepted is the next in line. -/
theorem accept (h : j.Kept depth capacity) (hopen : j.table.isClosed = false) (q : Request α) :
    (j.accepted ++ [(⟨j.table.nextId, q.inputs, q.cell⟩ : Pending α)]).map (·.objectId) =
      List.range (j.accepted.length + 1) ∧
    (j.table.enqueue q).Ledger depth j.started.length
      ((j.accepted ++ [(⟨j.table.nextId, q.inputs, q.cell⟩ : Pending α)]).map (·.request)) := by
  have hnext : j.table.nextId = j.accepted.length := by
    rw [h.ledger.nextId_eq, List.length_map]
  constructor
  · rw [List.map_append, h.numbers, List.range_succ, hnext]
    rfl
  · rw [List.map_append]
    exact h.ledger.enqueue hopen q

/-- **A run that is accepted without a free slot** waits. -/
theorem queue (h : j.Kept depth capacity) (hopen : j.table.isClosed = false)
    (hfree : j.table.free = []) (hroom : j.table.backlog.length < capacity) (q : Request α) :
    ({ j with
      table := j.table.enqueue q
      accepted := j.accepted ++ [⟨j.table.nextId, q.inputs, q.cell⟩] } :
        Journal α).Kept depth capacity := by
  obtain ⟨hnumbers, hledger⟩ := h.accept hopen q
  refine { h with
    ledger := hledger
    crowded := fun _ => hfree
    backlog_le := ?_
    numbers := by rw [List.length_append]; exact hnumbers
    started_eq := ?_
    cancelled_eq := ?_ }
  · simpa [Table.enqueue] using Nat.succ_le_of_lt hroom
  · rw [h.started_eq, List.take_append_of_le_length h.started_le]
  · rw [h.cancelled_eq]
    simp [Table.enqueue, hopen]

/-- Who holds a slot after the run that waits longest was started. -/
theorem holds_started {t : Table α} {started : List (Admitted α)} {ended : List ObjectId}
    {requests : List (Request α)} {next : Pending α} {backlog : List (Pending α)} {σ : SlotId}
    {free : List SlotId} (hl : t.Ledger depth started.length requests)
    (hb : t.backlog = next :: backlog) (hf : t.free = σ :: free)
    (hold : ∀ {τ r}, (∃ s, t.Holds τ r s) ↔
      ∃ a ∈ started, a.slot = τ ∧ a.objectId = r ∧ r ∉ ended)
    (hended : ∀ r ∈ ended, r < started.length) {τ : SlotId} {r : ObjectId} :
    (∃ s, t.promote.Holds τ r s) ↔
      ∃ a ∈ started ++ [⟨σ, next.objectId, next.inputs⟩],
        a.slot = τ ∧ a.objectId = r ∧ r ∉ ended := by
  obtain ⟨hid, -, -⟩ := hl.head_backlog hb
  have hholds : ∀ {s}, t.promote.Holds τ r s ↔ _ := hl.holds_promote hb hf
  simp only [List.mem_append, List.mem_singleton]
  constructor
  · rintro ⟨s, hs⟩
    rcases hholds.mp hs with hs | ⟨rfl, rfl, -⟩
    · obtain ⟨a, ha, hrest⟩ := hold.mp ⟨s, hs⟩
      exact ⟨a, Or.inl ha, hrest⟩
    · exact ⟨_, Or.inr rfl, rfl, hid, fun hr => Nat.lt_irrefl _ (hended _ hr)⟩
  · rintro ⟨a, ha | rfl, hslot, hrun, hne⟩
    · obtain ⟨s, hs⟩ := hold.mpr ⟨a, ha, hslot, hrun, hne⟩
      exact ⟨s, hholds.mpr (Or.inl hs)⟩
    · exact ⟨_, hholds.mpr (Or.inr ⟨hslot.symm, hrun.symm.trans hid, rfl⟩)⟩

/-- **A run that finds a free slot** is started at once. -/
theorem let_in (h : j.Kept depth capacity) (hopen : j.table.isClosed = false) {σ : SlotId}
    {free : List SlotId} (hfree : j.table.free = σ :: free) (q : Request α) :
    ({ j with
      table := (j.table.enqueue q).promote
      accepted := j.accepted ++ [⟨j.table.nextId, q.inputs, q.cell⟩]
      started := j.started ++ [⟨σ, j.table.nextId, q.inputs⟩] } :
        Journal α).Kept depth capacity := by
  obtain ⟨hnumbers, hledger⟩ := h.accept hopen q
  have hnone : j.table.backlog = [] := by
    by_contra hne
    simp [h.crowded hne] at hfree
  have hall := h.ledger.backlog_all hopen
  rw [hnone, List.length_nil, Nat.add_zero, List.length_map] at hall
  have hb : (j.table.enqueue q).backlog = ⟨j.table.nextId, q.inputs, q.cell⟩ :: [] := by
    simp [Table.enqueue, hnone]
  have hf : (j.table.enqueue q).free = σ :: free := hfree
  have hpromote := Table.Ledger.promote_eq hb hf
  constructor
  · rw [List.length_append, List.length_singleton]
    exact hledger.promote hb hf
  · rw [hpromote]
    exact h.capacity_eq
  · rw [hpromote]
    exact fun hne => absurd rfl hne
  · rw [hpromote]
    exact Nat.zero_le _
  · rw [List.length_append]
    exact hnumbers
  · rw [List.map_append, h.started_eq, List.length_append, List.length_singleton, hall,
      List.take_length, List.take_of_length_le (by simp), List.map_append]
    rfl
  · exact holds_started hledger hb hf h.holds h.ended_lt
  · exact h.nodup_ended
  · intro r hr
    rw [List.length_append]
    exact Nat.lt_add_right _ (h.ended_lt r hr)
  · rw [h.cancelled_eq, hpromote]
    simp [Table.enqueue, hopen]
  · exact h.faultless

/-- **What a submission comes to**: it is refused exactly if the table is closed, or no slot
is free and the backlog is full, and otherwise the run gets the next number. -/
theorem submit (h : j.Kept depth capacity) (inputs : Staged α) (cell : CellId) :
    (j.after (.submit inputs cell)).Kept depth capacity ∧
    (((∃ e, j.table.submit inputs cell = .refused e) ∧ j.after (.submit inputs cell) = j ∧
        (j.table.isClosed = true ∨
          j.table.free = [] ∧ capacity ≤ j.table.backlog.length)) ∨
      (¬ ∃ e, j.table.submit inputs cell = .refused e) ∧
        (j.after (.submit inputs cell)).accepted =
          j.accepted ++ [⟨j.table.nextId, inputs, cell⟩] ∧
        ¬ (j.table.isClosed = true ∨
          j.table.free = [] ∧ capacity ≤ j.table.backlog.length)) := by
  by_cases hopen : j.table.isClosed = false
  swap
  · have hclosed : j.table.isClosed = true := by simpa using hopen
    have heq : j.table.submit inputs cell = .refused .shutDown := by
      simp [Table.submit, hclosed]
    simp only [after, heq]
    exact ⟨h, Or.inl ⟨⟨_, rfl⟩, trivial, Or.inl hclosed⟩⟩
  have heq := h.ledger.submit_eq hopen h.crowded ⟨inputs, cell⟩
  simp only at heq
  cases hfree : j.table.free with
  | cons σ free =>
    rw [hfree] at heq
    simp only [after, heq]
    refine ⟨h.let_in hopen hfree ⟨inputs, cell⟩, Or.inr ⟨by simp, trivial, ?_⟩⟩
    simp [hopen]
  | nil =>
    rw [hfree, h.capacity_eq] at heq
    by_cases hfull : capacity ≤ j.table.backlog.length
    · simp only [after, heq, if_pos hfull]
      exact ⟨h, Or.inl ⟨⟨_, rfl⟩, trivial, Or.inr ⟨trivial, hfull⟩⟩⟩
    · simp only [after, heq, if_neg hfull]
      refine ⟨h.queue hopen hfree (Nat.not_le.mp hfull) ⟨inputs, cell⟩,
        Or.inr ⟨by simp, trivial, ?_⟩⟩
      simp [hopen, hfull]

/-! ### Other calls -/

/-- Counting and recording are nobody's admission. -/
theorem modifyStatus (h : j.Kept depth capacity) (σ : SlotId)
    {f : RunStatus α → RunStatus α}
    (hf : ∀ s, (f s).objectId = s.objectId ∧ (f s).cell = s.cell) :
    ({ j with table := j.table.modifyStatus σ f } : Journal α).Kept depth capacity := by
  refine { h with
    ledger := h.ledger.modifyStatus σ hf
    holds := fun {τ r} => Iff.trans ?_ h.holds }
  simp only [Table.Holds, Table.modifyStatus, Array.getElem?_modify]
  split
  · next he =>
    constructor
    · rintro ⟨s', hs', hid, hc⟩
      obtain ⟨s, hs, rfl⟩ := Option.map_eq_some_iff.mp hs'
      exact ⟨s, hs, (hf s).1 ▸ hid, (hf s).2 ▸ hc⟩
    · rintro ⟨s, hs, hid, hc⟩
      exact ⟨f s, by rw [hs]; rfl, (hf s).1 ▸ hid, (hf s).2 ▸ hc⟩
  · exact Iff.rfl

/-- Who holds a slot after a run has ended. -/
theorem holds_ended (h : j.Kept depth capacity) {σ : SlotId} {r : ObjectId} {s : RunStatus α}
    (hs : j.table.Holds σ r s) {τ : SlotId} {r' : ObjectId} :
    (∃ s', (j.table.retire σ s).Holds τ r' s') ↔
      ∃ a ∈ j.started, a.slot = τ ∧ a.objectId = r' ∧ r' ∉ j.ended ++ [r] := by
  have hholds : ∀ {s'}, (j.table.retire σ s).Holds τ r' s' ↔ _ := h.ledger.holds_retire hs
  simp only [hholds, exists_and_right, h.holds, List.mem_append, List.mem_singleton, not_or]
  constructor
  · rintro ⟨⟨a, ha, hslot, hid, hne⟩, hrr⟩
    exact ⟨a, ha, hslot, hid, hne, hrr⟩
  · rintro ⟨a, ha, hslot, hid, hne, hrr⟩
    exact ⟨⟨a, ha, hslot, hid, hne⟩, hrr⟩

/-- A run that holds a slot ends for the first time. -/
theorem ends (h : j.Kept depth capacity) {σ : SlotId} {r : ObjectId} {s : RunStatus α}
    (hs : j.table.Holds σ r s) :
    (j.ended ++ [r]).Nodup ∧ ∀ r' ∈ j.ended ++ [r], r' < j.started.length := by
  obtain ⟨-, -, -, -, hne⟩ := h.holds.mp ⟨s, hs⟩
  refine ⟨List.nodup_append.mpr ⟨h.nodup_ended, List.nodup_singleton _, ?_⟩, ?_⟩
  · rintro r₁ h₁ r₂ h₂ rfl
    exact hne (List.mem_singleton.mp h₂ ▸ h₁)
  · intro r' hr'
    rcases List.mem_append.mp hr' with hr' | hr'
    · exact h.ended_lt r' hr'
    · rw [List.mem_singleton.mp hr']
      exact (h.ledger.held hs).1

/-- **A run ends**, and nobody waits for its slot. -/
theorem retire (h : j.Kept depth capacity) {σ : SlotId} {r : ObjectId} {s : RunStatus α}
    (hs : j.table.Holds σ r s) (hnone : j.table.backlog = []) :
    ({ j with table := j.table.retire σ s, ended := j.ended ++ [r] } :
      Journal α).Kept depth capacity :=
  { h with
    ledger := h.ledger.retire hs
    crowded := fun hne => absurd hnone hne
    holds := h.holds_ended hs
    nodup_ended := (h.ends hs).1
    ended_lt := (h.ends hs).2 }

/-- **A run ends, and its slot goes to the oldest run of the backlog.** -/
theorem hand_over (h : j.Kept depth capacity) {σ : SlotId} {r : ObjectId} {s : RunStatus α}
    (hs : j.table.Holds σ r s) {next : Pending α} {backlog : List (Pending α)}
    (hb : j.table.backlog = next :: backlog) :
    ({ j with
      table := (j.table.retire σ s).promote
      started := j.started ++ [⟨σ, next.objectId, next.inputs⟩]
      ended := j.ended ++ [r] } : Journal α).Kept depth capacity := by
  have hledger := h.ledger.retire hs
  have hbr : (j.table.retire σ s).backlog = next :: backlog := hb
  have hfr : (j.table.retire σ s).free = σ :: j.table.free := rfl
  have hpromote := Table.Ledger.promote_eq hbr hfr
  obtain ⟨-, -, hopen⟩ := h.ledger.head_backlog hb
  have hfull : j.table.free = [] := h.crowded (by rw [hb]; exact List.cons_ne_nil _ _)
  -- the run is the first of those that were accepted and not yet started
  have hdrop : j.accepted.drop j.started.length = next :: backlog := by
    rw [← h.backlog_eq hopen, hb]
  have hlt : j.started.length < j.accepted.length := by
    have := congrArg List.length hdrop
    rw [List.length_drop, List.length_cons] at this
    omega
  have hnext : j.accepted[j.started.length]? = some next := by
    have := congrArg List.head? hdrop
    rwa [List.head?_drop] at this
  obtain ⟨hnodup, hended⟩ := h.ends hs
  constructor
  · rw [List.length_append, List.length_singleton]
    exact hledger.promote hbr hfr
  · rw [hpromote]
    exact h.capacity_eq
  · rw [hpromote]
    exact fun _ => hfull
  · have hle := h.backlog_le
    rw [hb, List.length_cons] at hle
    rw [hpromote]
    exact Nat.le_of_succ_le hle
  · exact h.numbers
  · rw [List.map_append, h.started_eq, List.length_append, List.length_singleton,
      List.take_add_one, hnext, List.map_append]
    rfl
  · exact holds_started hledger hbr hfr (h.holds_ended hs) hended
  · exact hnodup
  · intro r' hr'
    rw [List.length_append]
    exact Nat.lt_add_right _ (hended r' hr')
  · rw [h.cancelled_eq, hpromote]
    simp [Table.retire, hopen]
  · exact h.faultless

theorem complete (h : j.Kept depth capacity) {σ : SlotId}
    (hallowed : j.allows (.complete σ) = true) :
    (j.after (.complete σ)).Kept depth capacity ∧
      (j.after (.complete σ)).table.isClosed = j.table.isClosed ∧
      (j.table.isClosed = true → (j.after (.complete σ)).started = j.started) := by
  obtain ⟨s, hs, hcell⟩ : ∃ s, j.table.statuses[σ]? = some s ∧ s.cell.isSome = true := by
    simpa [allows, Option.any_eq_true] using hallowed
  obtain ⟨cell, hcell⟩ := Option.isSome_iff_exists.mp hcell
  have hholds : j.table.Holds σ s.objectId s := ⟨hs, rfl, by rw [hcell]; rfl⟩
  have heq := h.ledger.complete_eq hholds hcell
  have hshown : j.shown σ = [s.objectId] := by simp [shown, hs]
  cases hb : j.table.backlog with
  | nil =>
    rw [hb] at heq
    simp only [after, heq, hshown, List.head?_nil, Option.map_none, Option.toList_none,
      List.append_nil]
    exact ⟨h.retire hholds hb, rfl, fun _ => trivial⟩
  | cons next backlog =>
    rw [hb] at heq
    obtain ⟨-, -, hopen⟩ := h.ledger.head_backlog hb
    simp only [after, heq, hshown, List.head?_cons, Option.map_some, Option.toList_some]
    refine ⟨h.hand_over hholds hb, ?_, fun hclosed => ?_⟩
    · have hbr : (j.table.retire σ s).backlog = next :: backlog := hb
      rw [Table.Ledger.promote_eq hbr rfl]
      rfl
    · rw [hopen] at hclosed
      cases hclosed

/-- **The table closes**, and those that wait are cancelled. -/
theorem close (h : j.Kept depth capacity) : (j.after .close).Kept depth capacity := by
  refine { h with
    ledger := h.ledger.close
    crowded := fun hne => absurd rfl hne
    backlog_le := Nat.zero_le _
    cancelled_eq := ?_ }
  show j.cancelled ++ j.table.backlog.map (·.cell) =
    (j.accepted.drop j.started.length).map (·.cell)
  rw [h.cancelled_eq]
  cases hc : j.table.isClosed with
  | false => simp [h.backlog_eq hc]
  | true => simp [h.ledger.closed hc]

/-- **Every call keeps the invariant**; and once the table is closed, it stays so, and no run
is started. -/
theorem after (h : j.Kept depth capacity) {call : TableCall α} (hallowed : j.allows call = true) :
    (j.after call).Kept depth capacity ∧
      (j.table.isClosed = true →
        (j.after call).table.isClosed = true ∧ (j.after call).started = j.started) := by
  cases call with
  | submit inputs cell =>
    obtain ⟨hkept, ⟨-, hsame, -⟩ | ⟨-, -, hnot⟩⟩ := h.submit inputs cell
    · exact ⟨hkept, fun hc => ⟨by rw [hsame, hc], by rw [hsame]⟩⟩
    · exact ⟨hkept, fun hc => absurd (Or.inl hc) hnot⟩
  | release σ id => exact ⟨h.modifyStatus σ fun _ => ⟨rfl, rfl⟩, fun hc => ⟨hc, rfl⟩⟩
  | record σ id output error =>
    exact ⟨h.modifyStatus σ fun s => by rw [s.record_eq]; exact ⟨rfl, rfl⟩,
      fun hc => ⟨hc, rfl⟩⟩
  | finish σ => exact ⟨h.modifyStatus σ fun _ => ⟨rfl, rfl⟩, fun hc => ⟨hc, rfl⟩⟩
  | complete σ =>
    obtain ⟨hkept, hclosed, hstarted⟩ := h.complete hallowed
    exact ⟨hkept, fun hc => ⟨hclosed.trans hc, hstarted hc⟩⟩
  | close => exact ⟨h.close, fun _ => ⟨rfl, rfl⟩⟩

theorem run (h : j.Kept depth capacity) {calls : List (TableCall α)}
    (hp : j.permits calls = true) : (j.run calls).Kept depth capacity ∧
      (j.table.isClosed = true →
        (j.run calls).table.isClosed = true ∧ (j.run calls).started = j.started) := by
  induction calls generalizing j with
  | nil => exact ⟨h, fun hc => ⟨hc, rfl⟩⟩
  | cons call calls ih =>
    obtain ⟨hallowed, hp⟩ := Bool.and_eq_true_iff.mp hp
    obtain ⟨hkept, hclosed⟩ := h.after hallowed
    obtain ⟨hkept', hclosed'⟩ := ih hkept hp
    refine ⟨hkept', fun hc => ?_⟩
    obtain ⟨hc', hs⟩ := hclosed hc
    obtain ⟨hc'', hs'⟩ := hclosed' hc'
    exact ⟨hc'', hs'.trans hs⟩

end Kept

/-- **Admission is first come first served**, whatever the table is asked and in whatever
order. A submission is refused exactly if the table is closed, or no slot is free and the
backlog is full, and then nothing has changed; otherwise the run gets the next number. No run
waits or is started any more once the table is closed. -/
theorem admits_in_order (depth : Nat) (inDegrees : Array Nat) (sinkCount capacity : Nat)
    {calls : List (TableCall α)}
    (hp : (Journal.new depth inDegrees sinkCount capacity).permits calls = true) :
    let j := (Journal.new depth inDegrees sinkCount capacity).run calls
    j.Orderly depth capacity ∧
    (∀ inputs cell,
      ((∃ e, j.table.submit inputs cell = .refused e) ↔
        j.table.isClosed = true ∨ j.table.free = [] ∧ capacity ≤ j.table.backlog.length) ∧
      ((∃ e, j.table.submit inputs cell = .refused e) → j.after (.submit inputs cell) = j) ∧
      ((¬ ∃ e, j.table.submit inputs cell = .refused e) →
        (j.after (.submit inputs cell)).accepted =
          j.accepted ++ [⟨j.table.nextId, inputs, cell⟩])) ∧
    (j.table.isClosed = true → ∀ later : List (TableCall α), j.permits later = true →
      (j.run later).table.backlog = [] ∧ (j.run later).started = j.started) := by
  intro j
  have h : j.Kept depth capacity := ((Kept.new depth inDegrees sinkCount capacity).run hp).1
  refine ⟨h.orderly, fun inputs cell => ?_, fun hc later hlater => ?_⟩
  · obtain ⟨-, ⟨href, hsame, hwhen⟩ | ⟨href, hgains, hwhen⟩⟩ := h.submit inputs cell
    · exact ⟨iff_of_true href hwhen, fun _ => hsame, fun hnot => absurd href hnot⟩
    · exact ⟨iff_of_false href hwhen, fun hr => absurd hr href, fun _ => hgains⟩
  · obtain ⟨hkept, hclosed⟩ := h.run hlater
    obtain ⟨hc', hs⟩ := hclosed hc
    exact ⟨hkept.ledger.closed hc', hs⟩

/-- One slot, and room for one run that waits. The third of four runs is refused, the second
gets the slot of the first, and the last one is cancelled. -/
def calls : List (TableCall Nat) :=
  [.submit [(0, some 5)] 0, .submit [(0, none)] 1, .submit [(0, none)] 2, .release 0 1,
    .record 0 1 (some 6) none, .finish 0, .complete 0, .submit [(0, some 7)] 3, .close]

theorem admits_in_order_calls :
    ((new 1 #[0, 1] 1 1).run calls).Orderly 1 1 ∧
      ((new 1 #[0, 1] 1 1).run calls).started.map (·.objectId) = [0, 1] ∧
      ((new 1 #[0, 1] 1 1).run calls).cancelled = [3] ∧
      (((new 1 #[0, 1] 1 1).run calls).run [.complete 0]).started.map (·.objectId) = [0, 1] := by
  obtain ⟨horderly, -, hlater⟩ := admits_in_order 1 #[0, 1] 1 1
    (show (new 1 #[0, 1] 1 1).permits calls = true by decide +kernel)
  have hstarted : ((new 1 #[0, 1] 1 1).run calls).started.map (·.objectId) = [0, 1] := by
    decide +kernel
  refine ⟨horderly, hstarted, by decide +kernel, ?_⟩
  rw [(hlater (by decide +kernel) [.complete 0] (by decide +kernel)).2]
  exact hstarted

end Journal

end Dataflow
