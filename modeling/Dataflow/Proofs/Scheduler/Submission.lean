import Dataflow.Proofs.Graph.Matching
import Dataflow.Proofs.Scheduler.Outcomes
import Dataflow.Proofs.Scheduler.Settling

/-!
# Calls for runs

A call for a run is answered by the first objection there is, `Scheduler.runErrors`, or the run
is accepted under the next number. A call that is refused changes nothing, `World.Calls`, so
all that a scheduler has in its slots, in its backlog and in its pools, and all that it has
executed, belongs to accepted runs, `Tenure.Accounts`. What was accepted had its inputs matched
to the sources of the graph, and so none of its nodes can fail for want of an input,
`World.Reachable.not_noInput`.
-/

namespace Dataflow

variable {α : Type}

/-- What a submission comes to: an error, or a run. -/
def Binding.Accepted.verdict : Binding.Accepted α → Except Error Unit
  | refused e => .error e
  | accepted .. => .ok ()
  | broken .. => .ok ()

namespace Binding

/-- What there may be to object to a run that is submitted to a bound graph. -/
def submitErrors (b : Binding α) (inputs : List (NodeId × α)) : List (Prop × Error) :=
  b.graph.stagingErrors inputs ++
    [(b.table.isClosed = true, .scheduling .shutDown),
      (b.table.free = [] ∧ b.table.backlogCapacity ≤ b.table.backlog.length,
        .scheduling (.backlogFull b.table.backlogCapacity))]

/-- **The inputs are looked at before there is a question of room.** -/
theorem submit_spec {b : Binding α} (h : b.graph.Frozen) (inputs : List (NodeId × α))
    (cell : CellId) :
    FirstError () (b.submitErrors inputs) (b.submit inputs cell).verdict := by
  refine (h.stageInputs_spec inputs).append (fun e he => by rw [submit, he]; rfl) fun hok => ?_
  rw [submit, hok]
  dsimp only
  unfold Table.submit
  by_cases hclosed : b.table.isClosed = true
  · rw [if_pos hclosed]
    exact .rejected hclosed
  refine .next hclosed ?_
  rw [if_neg hclosed]
  cases hfree : b.table.free with
  | nil =>
    by_cases hfull : b.table.backlogCapacity ≤ b.table.backlog.length
    · simp only [if_pos hfull]
      exact .rejected ⟨trivial, hfull⟩
    · simp only [if_neg hfull]
      exact .next (fun h => hfull h.2) .accepted
  | cons σ free =>
    refine .next (fun h => List.cons_ne_nil _ _ h.1) ?_
    dsimp only
    rcases Table.launch _ σ b.table.nextId cell with f | t
    · exact .accepted
    · dsimp only
      rcases start { b with table := t } ⟨σ, b.table.nextId, b.graph.matched inputs⟩ with
        ⟨f | tasks, b'⟩ <;> exact .accepted

end Binding

namespace Scheduler

/-- What there may be to object to a call for a run, in the order in which it is noticed. -/
def runErrors (s : Scheduler α) (inputs : List (NodeId × α)) : List (Prop × Error) :=
  (s.isShutDown = true, .scheduling .shutDown) ::
    match s.binding with
    | none => [(True, .scheduling .notBound)]
    | some b => b.submitErrors inputs

/-- Whether a run was refused, and why. -/
def RunAnswer.verdict : RunAnswer α → Except Error Unit
  | refused e => .error e
  | accepted .. => .ok ()
  | broken .. => .ok ()

/-- **A call is answered by the first objection to it.** -/
theorem run_spec {s : Scheduler α} (h : ∀ b, s.binding = some b → b.graph.Frozen)
    (inputs : List (NodeId × α)) : FirstError () (s.runErrors inputs) (s.run inputs).verdict := by
  unfold runErrors run
  by_cases hshut : s.isShutDown = true
  · rw [if_pos hshut]
    exact .rejected hshut
  refine .next hshut ?_
  rw [if_neg hshut]
  cases hb : s.binding with
  | none => exact .rejected trivial
  | some b =>
    have hspec := Binding.submit_spec (h b hb) inputs s.futures.nextCell
    dsimp only
    rcases hsub : b.submit inputs s.futures.nextCell with e | ⟨b', r, tasks⟩ | ⟨b', f⟩ <;>
      · rw [hsub] at hspec
        exact hspec

end Scheduler

/-- **All that a scheduler is at belongs to accepted runs.** -/
structure Tenure.Accounts (t : Tenure α) (b : Binding α) : Prop where
  numbers : t.tickets.map (·.run) = List.range t.tickets.length
  nextId : b.table.nextId = t.tickets.length
  slots : ∀ {σ s}, b.table.statuses[σ]? = some s → σ ∉ b.table.free →
    ∃ a ∈ t.tickets, s.objectId = a.run ∧ s.cell = some a.cell
  backlog : ∀ {p}, p ∈ b.table.backlog →
    ∃ a ∈ t.tickets, p = ⟨a.run, a.staged, a.cell⟩
  pools : ∀ {c r}, r ∈ b.graph.tagsAt c → ∃ a ∈ t.tickets, r = a.run
  executed : ∀ {v r}, v < t.graph.nodes.size → (v, r) ∈ t.executed → ∃ a ∈ t.tickets, r = a.run

/-- What was staged for the accepted runs are inputs that the graph has sources for. -/
def Tenure.Admits (t : Tenure α) : Prop :=
  ∀ a ∈ t.tickets, ∃ inputs, t.graph.stageInputs inputs = .ok a.staged

/-- Each request is made by a ticket. -/
theorem Tenure.exists_ticket {t : Tenure α}
    (hn : t.tickets.map (·.run) = List.range t.tickets.length) {r : ObjectId} {q : Request α}
    (hq : t.requests[r]? = some q) : ∃ a ∈ t.tickets, r = a.run ∧ q = ⟨a.staged, a.cell⟩ := by
  rw [requests, List.getElem?_map] at hq
  obtain ⟨a, ha, rfl⟩ := Option.map_eq_some_iff.mp hq
  obtain ⟨hlt, rfl⟩ := List.getElem?_eq_some_iff.mp ha
  refine ⟨_, List.getElem_mem hlt, ?_, rfl⟩
  have hrun := List.getElem_of_eq hn (by simpa using hlt)
  simpa using hrun.symm

namespace World

variable [Payload α] {k : Strategy} {w w' : World α} {b : Binding α} {t : Tenure α}
  {ts : List (Tenure α)}

/-- **What a call for a run comes to.** -/
structure Calls (w : World α) (inputs : List (NodeId × α)) : Prop where
  /-- The first objection is the answer, and if there is none the run is accepted: -/
  verdict : FirstError () (w.scheduler.runErrors inputs) (w.scheduler.run inputs).verdict
  /-- no call ends in a panic, as long as no other call has the scheduler to itself. -/
  unbroken : w.owner = .free → ∀ s f, w.scheduler.run inputs ≠ .broken s f
  /-- A call that is refused leaves everything as it was, -/
  refused : ∀ e, w.scheduler.run inputs = .refused e → w.submit inputs = w
  /-- and others go on as if it had not been made: the runs that were accepted are numbered
  without gaps. -/
  accepted : w.owner = .free → ∀ s r cell, w.scheduler.run inputs = .accepted s r cell →
    w.Step (w.submit inputs) ∧ ∃ t ts, w.tenures = t :: ts ∧ r = t.tickets.length

/-- **What is in use is in use by accepted runs.** -/
theorem Reachable.accounts (h : w.Reachable k) (hb : w.scheduler.binding = some b) :
    ∃ t ts, w.tenures = t :: ts ∧ t.Accounts b := by
  obtain ⟨t, ts, hts, hrun, -⟩ := h.orderly.bound hb
  obtain ⟨closed, launched, post, hsound, -⟩ := hrun.sound
  have hledger := hsound.ledger
  have hlen : t.requests.length = t.tickets.length := List.length_map _
  have hinFlight : ∀ {r}, b.table.InFlight r → ∃ a ∈ t.tickets, r = a.run := fun hr => by
    obtain ⟨σ, s, hs⟩ := hr
    obtain ⟨q, hq, -⟩ := hsound.request_of_holds hs
    obtain ⟨a, ha, hr, -⟩ := Tenure.exists_ticket hrun.numbers hq
    exact ⟨a, ha, hr⟩
  refine ⟨t, ts, hts, hrun.numbers, hledger.nextId_eq.trans hlen, fun {σ s} hs hfree => ?_,
    fun {p} hp => ?_, fun {c r} hr => hinFlight (hsound.tag_inFlight hr), fun {v r} hv hmem => ?_⟩
  · have hcell : s.cell.isSome = true := by
      rw [← Option.ne_none_iff_isSome]
      exact fun hnone => hfree ((hledger.mem_free σ).mpr ⟨s, hs, hnone⟩)
    obtain ⟨q, hq, hc, -⟩ := hsound.request_of_holds ⟨hs, rfl, hcell⟩
    obtain ⟨a, ha, hr, rfl⟩ := Tenure.exists_ticket hrun.numbers hq
    exact ⟨a, ha, hr, hc⟩
  · obtain ⟨a, ha, hr, hq⟩ := Tenure.exists_ticket hrun.numbers (hledger.backlog_mem hp)
    obtain ⟨hinputs, hcell⟩ := Request.mk.inj hq
    refine ⟨a, ha, ?_⟩
    rw [← hr, ← hinputs, ← hcell]
  · rw [hsound.chronicle.mem_iff hv] at hmem
    have hlt : r < t.requests.length := by
      by_contra hge
      rw [hsound.unborn (Nat.le_trans hledger.launched_le (Nat.not_lt.mp hge)) v] at hmem
      cases hmem
    obtain ⟨a, ha, hr, -⟩ := Tenure.exists_ticket hrun.numbers (List.getElem?_eq_getElem hlt)
    exact ⟨a, ha, hr⟩

/-! ### Calls -/

/-- A bound graph is frozen. -/
theorem Reachable.frozen_of_binding (h : w.Reachable k) (hb : w.scheduler.binding = some b) :
    b.graph.Frozen := by
  obtain ⟨t, ts, hts, hrun, -⟩ := h.orderly.bound hb
  obtain ⟨closed, launched, post, hsound, -⟩ := hrun.sound
  obtain ⟨hbuilt, hframe⟩ := h.framed hb hts
  exact hrun.frozen.of_alike hsound.alike (hframe.built hbuilt).linked

/-- **A call for a run** is refused and changes nothing, or the run gets the next number. -/
theorem Reachable.calls (h : w.Reachable k) (inputs : List (NodeId × α)) : w.Calls inputs where
  verdict := w.scheduler.run_spec (fun _ hb => h.frozen_of_binding hb) inputs
  unbroken := fun ho s f => h.orderly.not_burst ho inputs f
  refused := fun e he => by
    rw [World.submit, he]
    cases w.scheduler.binding <;> rfl
  accepted := fun ho s r cell hs => by
    obtain ⟨-, -, b, -, -, hb, -⟩ := Scheduler.run_eq_accepted hs
    obtain ⟨t, ts, hts, hrun, -⟩ := h.orderly.bound hb
    rcases hrun.run h.orderly.strategy hb ho inputs with ⟨e, he⟩ | ⟨staged, s', b', hi, hs', -⟩
    · rw [he] at hs
      cases hs
    · obtain ⟨-, rfl, -⟩ := Scheduler.RunAnswer.accepted.inj (hs.symm.trans hs')
      rw [World.submit, hs, hb]
      simp only [hi]
      exact ⟨.accept ho hb hi hs, t, ts, hts, rfl⟩

/-! ### No input is missing -/

omit [Payload α] in
/-- What is put on record beside the graph and the tickets leaves them alone. -/
theorem admits_record {s : Scheduler α} {f : Tenure α → Tenure α}
    (hf : ∀ t, t.Admits → (f t).Admits) (h : ∀ t ∈ w.tenures, t.Admits) :
    ∀ t ∈ (w.record s f).tenures, t.Admits := by
  show ∀ t ∈ w.tenures.modifyHead f, t.Admits
  cases hts : w.tenures with
  | nil => exact nofun
  | cons t ts =>
    rw [hts, List.forall_mem_cons] at h
    exact List.forall_mem_cons.mpr ⟨hf t h.1, h.2⟩

/-- **The inputs of accepted runs were matched to the sources** of the graph that the runs
were accepted for. -/
theorem Reachable.admits (h : w.Reachable k) : ∀ t ∈ w.tenures, t.Admits := by
  induction h with
  | start => exact nofun
  | @step w w' hw hs ih =>
    cases hs with
    | thread => exact admits_record (fun _ ht => ht) ih
    | bind => exact List.forall_mem_cons.mpr ⟨nofun, ih⟩
    | @accept inputs b staged s run cell ho hb hi hs =>
      obtain ⟨t, ts, hts, hrun, -⟩ := hw.orderly.bound hb
      obtain ⟨closed, launched, post, hsound, -⟩ := hrun.sound
      show ∀ t ∈ w.tenures.modifyHead _, t.Admits
      rw [hts] at ih ⊢
      rw [List.forall_mem_cons] at ih
      refine List.forall_mem_cons.mpr ⟨fun a ha => ?_, ih.2⟩
      rcases List.mem_append.mp ha with ha | ha
      · exact ih.1 a ha
      · obtain rfl := List.mem_singleton.mp ha
        exact ⟨inputs, (hsound.alike.stageInputs inputs).symm.trans hi⟩
    | beginShutDown =>
      exact admits_record (s := w.scheduler.beginShutDown) (fun _ ht => ht) ih
    | notice | burst | use | leave | dismiss | unbind | finishShutDown => exact ih

/-- **No accepted run fails for want of an input.** -/
theorem Reachable.not_noInput (h : w.Reachable k) (ht : t ∈ w.tenures) {a : Ticket α}
    (ha : a ∈ t.tickets) (u : NodeId) :
    ¬ w.Yields a.cell (.error (.execution (.noInput u))) := by
  intro ho
  have hs := h.standing ht
  obtain ⟨inputs, hstaged⟩ := h.admits t ht a ha
  obtain ⟨isOpen, dues, hdocket⟩ := hs.docket
  have hout := (hdocket.outcome (Tenure.request_of_mem hs.numbers ha) ho).2
  split at hout
  · cases hout
  · rcases hout with ⟨-, he⟩ | ⟨e, hmem, he⟩
    · cases he
    · obtain ⟨v, hv, hfail⟩ := hs.frozen.mem_failures.mp hmem
      obtain rfl : .noInput u = e := Error.execution.inj (Except.error.inj he)
      exact hs.frozen.failed_ne_noInput (hs.frozen.fed hstaged) hv u hfail

/-- **Submission is exact and atomic.** Inputs are accepted exactly if they match the sources of
the bound graph, and the first objection is reported otherwise. A call that is refused leaves
nothing behind, so all that is in use was taken by accepted runs; and no accepted run fails for
want of an input. -/
theorem submissions_are_atomic (h : w.Reachable k) :
    (∀ b, w.scheduler.binding = some b →
      (∀ inputs, b.graph.Matches inputs) ∧ ∃ t ts, w.tenures = t :: ts ∧ t.Accounts b) ∧
    (∀ inputs, w.Calls inputs) ∧
    ∀ t ∈ w.tenures, ∀ a ∈ t.tickets, ∀ u,
      ¬ w.Yields a.cell (.error (.execution (.noInput u))) :=
  ⟨fun _ hb => ⟨(h.frozen_of_binding hb).matches, h.accounts hb⟩, h.calls,
    fun _ ht _ ha => h.not_noInput ht ha⟩

/-- Calls for runs of the relay that are refused, in a world where three runs have been
accepted. -/
theorem submissions_are_atomic_relay :
    (∀ p ∈ [([(0, 1), (5, 1), (0, 2)], Error.graph (.unknownNode 5)),
        ([(1, 1)], .scheduling (.unexpectedInput 1)),
        ([(0, 1), (0, 2), (1, 1)], .scheduling (.duplicateInput 0)),
        ([], .scheduling (.missingInput 0))],
      ((Relay.submitted .stealing).scheduler.run p.1).verdict = .error p.2 ∧
      (Relay.submitted .stealing).submit p.1 = Relay.submitted .stealing) ∧
    ∀ t ∈ (Relay.submitted .stealing).tenures, ∀ a ∈ t.tickets, ∀ u,
      ¬ (Relay.submitted .stealing).Yields a.cell (.error (.execution (.noInput u))) := by
  obtain ⟨-, hcalls, hinput⟩ := submissions_are_atomic (Relay.reachable_submitted .stealing)
  have hverdict : ∀ p ∈ [([(0, 1), (5, 1), (0, 2)], Error.graph (.unknownNode 5)),
      ([(1, 1)], .scheduling (.unexpectedInput 1)),
      ([(0, 1), (0, 2), (1, 1)], .scheduling (.duplicateInput 0)),
      ([], .scheduling (.missingInput 0))],
      ((Relay.submitted .stealing).scheduler.run p.1).verdict = .error p.2 := by
    decide +kernel
  refine ⟨fun p hp => ⟨hverdict p hp, ?_⟩, hinput⟩
  have hp := hverdict p hp
  rcases hrun : (Relay.submitted .stealing).scheduler.run p.1 with e | ⟨s, r, cell⟩ | ⟨s, f⟩
  · exact (hcalls p.1).refused e hrun
  all_goals
    rw [hrun] at hp
    cases hp

end World

end Dataflow
