import Dataflow.Proofs.Scheduler.Definite
import Dataflow.Proofs.Scheduler.Reachable

/-!
# What becomes of accepted runs

Whoever looks at the cell of an accepted run, at any time, finds nothing or what the
evaluation of that run alone says, `World.Reachable.prescribed`. When nobody can go on any
more he does find it, unless he has got it before, `World.Reachable.yields_of_rest`. No
other run has anything to do with it, whether it fails or not.
-/

namespace Dataflow

variable {α : Type} [Payload α] {k : Strategy}

omit [Payload α] in
/-- Runs are numbered in the order of acceptance. -/
theorem Tenure.request_of_mem {t : Tenure α}
    (hn : t.tickets.map (·.run) = List.range t.tickets.length) {a : Ticket α}
    (ha : a ∈ t.tickets) : t.requests[a.run]? = some ⟨a.staged, a.cell⟩ := by
  obtain ⟨i, hi, rfl⟩ := List.mem_iff_getElem.mp ha
  have hrun : t.tickets[i].run = i := by
    have := List.getElem_of_eq hn (by simpa using hi)
    simpa using this
  simp [Tenure.requests, hrun, hi]

/-- What is known of a tenure, whether it is over or not. -/
structure Tenure.Standing (t : Tenure α) (k : Strategy) (w : World α) : Prop where
  frozen : t.graph.Frozen
  numbers : t.tickets.map (·.run) = List.range t.tickets.length
  ordered : k = .dedicated → ∀ v,
    ∃ n, (t.executed.filter (·.1 == v)).map (·.2) = List.range n
  docket : ∃ isOpen dues,
    Docket t.graph t.requests t.cancelled isOpen dues w.scheduler.futures w.taken
  settled : w.AtRest → ∀ {r : ObjectId} {q : Request α}, t.requests[r]? = some q →
    (w.scheduler.futures.cell q.cell).resolved = true

namespace World

variable {w : World α} {t : Tenure α} {a : Ticket α} {o : RunOutcome α}

theorem Reachable.standing (h : w.Reachable k) (ht : t ∈ w.tenures) : t.Standing k w := by
  have hover : ∀ {t : Tenure α}, t.Over k w.scheduler.futures w.taken → t.Standing k w :=
    fun hover => {
      frozen := hover.frozen
      numbers := hover.numbers
      ordered := hover.ordered
      docket := ⟨_, _, hover.docket⟩
      settled := fun _ _ _ hq => (hover.docket.settled hq id).resolve_left nofun }
  cases hb : w.scheduler.binding with
  | none => exact hover ((h.orderly.unbound hb).2 t ht)
  | some b =>
    obtain ⟨t', ts, hts, hrun, hall⟩ := h.orderly.bound hb
    rw [hts] at ht
    rcases List.mem_cons.mp ht with rfl | ht
    · obtain ⟨closed, launched, post, hsound, -⟩ := hrun.sound
      exact {
        frozen := hrun.frozen
        numbers := hrun.numbers
        ordered := hsound.chronicle.ordered
        docket := ⟨_, _, hrun.docket⟩
        settled := fun hrest _ _ hq => hrun.settled (hrest b hb) hq }
    · exact hover (hall t ht)

/-- **An accepted run has the prescribed outcome**, or was cancelled. -/
theorem Reachable.prescribed (h : w.Reachable k) (ht : t ∈ w.tenures) (ha : a ∈ t.tickets)
    (hc : a.run ∉ t.cancelled) (ho : w.Yields a.cell o) :
    t.graph.Prescribed a.staged a.run o := by
  have hs := h.standing ht
  obtain ⟨isOpen, dues, hdocket⟩ := hs.docket
  have := (hdocket.outcome (Tenure.request_of_mem hs.numbers ha) ho).2
  rwa [if_neg hc] at this

/-- **When nobody can go on**, every accepted run has got its outcome. -/
theorem Reachable.yields_of_rest (h : w.Reachable k) (ht : t ∈ w.tenures) (ha : a ∈ t.tickets)
    (hrest : w.AtRest) : ∃ o, w.Yields a.cell o := by
  have hs := h.standing ht
  obtain ⟨isOpen, dues, hdocket⟩ := hs.docket
  have hq := Tenure.request_of_mem hs.numbers ha
  exact hdocket.kept hq (hs.settled hrest hq)

/-- A run in which no node fails comes to the result of its evaluation and to nothing
else. -/
theorem Reachable.result (h : w.Reachable k) (ht : t ∈ w.tenures) (ha : a ∈ t.tickets)
    (hc : a.run ∉ t.cancelled) (hf : t.graph.failures (t.graph.evaluate a.staged) = []) :
    ∃ result : RunResult α, result.Matches t.graph a.staged a.run ∧
      (∀ o, w.Yields a.cell o → o = .ok result) ∧
      (w.AtRest → w.Yields a.cell (.ok result)) := by
  have honly : ∀ o, w.Yields a.cell o →
      o = .ok ⟨a.run, t.graph.outputs (t.graph.evaluate a.staged)⟩ := by
    intro o ho
    rcases h.prescribed ht ha hc ho with ⟨-, he⟩ | ⟨e, he, -⟩
    · exact he
    · simp [hf] at he
  refine ⟨_, (h.standing ht).frozen.matches_outputs hf a.run, honly, fun hrest => ?_⟩
  obtain ⟨o, ho⟩ := h.yields_of_rest ht ha hrest
  exact honly o ho ▸ ho

/-- **Workers that steal agree with the evaluation**, however they pick tasks. -/
theorem stealing_matches_evaluation (h : w.Reachable .stealing) (ht : t ∈ w.tenures)
    (ha : a ∈ t.tickets) (hc : a.run ∉ t.cancelled)
    (hf : t.graph.failures (t.graph.evaluate a.staged) = []) :
    ∃ result : RunResult α, result.Matches t.graph a.staged a.run ∧
      (∀ o, w.Yields a.cell o → o = .ok result) ∧
      (w.AtRest → w.Yields a.cell (.ok result)) :=
  h.result ht ha hc hf

/-- The last run of the relay waits for a slot that the first one, which fails, leaves. -/
theorem stealing_matches_evaluation_relay :
    ∃ t ∈ (Relay.rested .stealing).tenures, ∃ a ∈ t.tickets, a.run = 2 ∧ a.run ∉ t.cancelled ∧
      t.graph.failures (t.graph.evaluate a.staged) = [] ∧
      (⟨2, [(1, 7)]⟩ : RunResult Nat).Matches t.graph a.staged a.run ∧
      (Relay.rested .stealing).Yields a.cell (.ok ⟨2, [(1, 7)]⟩) := by
  have hc : (Relay.ticket .stealing 2).run ∉ (Relay.tenure .stealing).cancelled := by
    decide +kernel
  have hf : (Relay.tenure .stealing).graph.failures
      ((Relay.tenure .stealing).graph.evaluate (Relay.ticket .stealing 2).staged) = [] := by
    decide +kernel
  have hyields : (Relay.rested .stealing).Yields (Relay.ticket .stealing 2).cell
      (.ok ⟨2, [(1, 7)]⟩) := .inl (by decide +kernel)
  obtain ⟨result, hmatches, honly, hrest⟩ := stealing_matches_evaluation
    (Relay.reachable_rested .stealing) (Relay.tenure_mem _) (Relay.ticket_mem _ 2) hc hf
  obtain rfl := Except.ok.inj (honly _ hyields)
  exact ⟨_, Relay.tenure_mem _, _, Relay.ticket_mem _ 2, by decide +kernel, hc, hf, hmatches,
    hrest (Relay.rested_atRest _)⟩

end World

/-! ### Runs that fail -/

/-- **The execution skips its callback**: it is counted, but no call is, and it goes on to
publish a mark at each outlet and nothing else. -/
structure Execution.Skips (x : Execution α) (k : Strategy) (b : Binding α) (seat : Seat) :
    Prop where
  enter : x.advance k b = {
    binding := b.modifyGraph (·.countRun x.node)
    stage := .recording seat
      ⟨none, none, List.replicate (b.graph.outlets x.node).length none⟩ }
  publish : ∀ b' : Binding α, b.graph.Alike b'.graph →
    ((⟨x.node, .recording seat
      ⟨none, none, List.replicate (b.graph.outlets x.node).length none⟩⟩ :
        Execution α).advance k b').stage =
      .publishing seat ((b.graph.outlets x.node).map (·, none)) false

/-- Whoever reads that the run has failed skips its callback. -/
theorem Execution.skips_of_failed {x : Execution α} {b : Binding α} {seat : Seat}
    {inputs : List (Entry α)} {s : RunStatus α} {n : Node α} (hst : x.stage = .entering seat inputs)
    (hs : b.table.statuses[seat.slot]? = some s) (hn : b.graph.nodes[x.node]? = some n)
    (hf : s.failed = true) : x.Skips k b seat where
  enter := by
    have hmarks : n.marks = List.replicate (b.graph.outlets x.node).length none := by
      rw [Graph.outlets, List.length_map, Graph.successors_of_node hn]
      rfl
    have hgather : gather inputs true = none := rfl
    simp only [Execution.advance, hst, hs, hn, hf, hgather, Execution.conclude, Node.conclude_none,
      hmarks, Bool.false_eq_true, if_false]
  publish := by
    intro b' ha
    simp only [Execution.advance, ha.outlets]
    rw [← List.map_const', ← List.map_prod_left_eq_zip]

namespace World

variable {w : World α}

/-- **Failures are contained.** Every run is answered by its own evaluation, whatever other
runs come to, before it in the same slot or beside it. And once an error of a run is
recorded, whoever enters a callback for that run skips it. -/
theorem failures_are_contained (h : w.Reachable k) :
    (∀ t ∈ w.tenures, ∀ a ∈ t.tickets, a.run ∉ t.cancelled →
      (∀ o, w.Yields a.cell o → t.graph.Answers a.staged a.run o) ∧
      (w.AtRest → ∃ o, w.Yields a.cell o)) ∧
    ∀ b, w.scheduler.binding = some b → ∀ x ∈ w.scheduler.threads.load,
      ∀ seat inputs s, x.stage = .entering seat inputs →
      b.table.statuses[seat.slot]? = some s →
      s.objectId = seat.run ∧ (s.error.isSome = true → x.Skips k b seat) := by
  refine ⟨fun t ht a ha hc => ⟨fun o ho => ?_, h.yields_of_rest ht ha⟩, ?_⟩
  · exact (h.standing ht).frozen.answers (h.prescribed ht ha hc ho)
  · intro b hb x hx seat inputs s hst hs
    obtain ⟨t, ts, -, hrun, -⟩ := h.orderly.bound hb
    obtain ⟨closed, launched, post, hsound, -⟩ := hrun.sound
    have he : x.isEngaged k t.graph = true := by simp [Execution.isEngaged, hst]
    obtain ⟨r, σ, s', q, hpost, hs', -, -, hbooks⟩ := hsound.serving hx he
    have hserves := hbooks.posts.serves hpost
    rw [hst] at hserves
    obtain rfl : seat = ⟨σ, r⟩ := hserves
    obtain rfl : s = s' := Option.some.inj (hs.symm.trans hs'.1)
    refine ⟨hs'.2.1, fun herr => ?_⟩
    obtain ⟨n, hn⟩ := Graph.node_of_lt (hbooks.posts.lt_size hpost)
    refine Execution.skips_of_failed hst hs (hsound.alike.nodes ▸ hn) ?_
    rw [hbooks.results.failed_eq, herr]

/-- The first run of the relay fails, and the last one goes through its slot. -/
theorem failures_are_contained_relay :
    ∃ t ∈ (Relay.rested .stealing).tenures, ∃ a ∈ t.tickets, ∃ a' ∈ t.tickets,
      a.run = 0 ∧ a'.run = 2 ∧
      t.graph.Answers a.staged a.run (.error (.execution (.workFailed 1 "zero"))) ∧
      t.graph.Answers a'.staged a'.run (.ok ⟨2, [(1, 7)]⟩) := by
  obtain ⟨hall, -⟩ := failures_are_contained (Relay.reachable_rested .stealing)
  have hanswers : ∀ i o, (Relay.rested .stealing).Yields (Relay.ticket .stealing i).cell o →
      (Relay.tenure .stealing).graph.Answers (Relay.ticket .stealing i).staged
        (Relay.ticket .stealing i).run o := by
    intro i
    have hc : (Relay.ticket .stealing i).run ∉ (Relay.tenure .stealing).cancelled := by
      revert i
      decide +kernel
    exact (hall _ (Relay.tenure_mem _) _ (Relay.ticket_mem _ i) hc).1
  exact ⟨_, Relay.tenure_mem _, _, Relay.ticket_mem _ 0, _, Relay.ticket_mem _ 2,
    by decide +kernel, by decide +kernel, hanswers 0 _ (.inl (by decide +kernel)),
    hanswers 2 _ (.inl (by decide +kernel))⟩

end World

end Dataflow
