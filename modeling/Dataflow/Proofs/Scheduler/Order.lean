import Dataflow.Proofs.Scheduler.Outcomes

/-!
# Threads of nodes take the runs in order

With threads of their own, nodes match their inputs by position, and never look at the
runs that the entries belong to except to check that they agree. They always agree,
because no run overtakes another anywhere in the graph.
-/

namespace Dataflow

variable {α : Type} [Payload α]

/-- **Inputs are matched by position**, and what is taken together belongs together. -/
structure Binding.InOrder (b : Binding α) (load : List (Execution α)) : Prop where
  /-- Entries of older runs come first. -/
  increasing : ∀ {c p}, b.graph.pool? c = some p → p.tags.Pairwise (· < ·)
  /-- The check that all entries belong to one run does not fail. -/
  together : ∀ {x run taken c cs p y p'}, x ∈ load →
    x.stage = .awaiting (some run) taken (c :: cs) → b.graph.pool? c = some p →
    p.pop = some (some y, p') → y.objectId = run
  /-- The slot that is found for the run is the one that it holds. -/
  located : ∀ {x run taken}, x ∈ load → x.stage = .locating run taken →
    ∃ slot s, b.table.slotOf? run = some slot ∧ b.table.Holds slot run s
  unbroken : ∀ {x}, x ∈ load → ∀ f, x.stage ≠ .broken f

theorem Sound.inOrder {g : Graph α} (hg : g.Frozen) {depth : Nat} {closed : Bool}
    {requests : List (Request α)} {launched : Nat} {post : ObjectId → NodeId → Post α}
    {executed : List (NodeId × ObjectId)} {b : Binding α} {load : List (Execution α)}
    (h : Sound .dedicated g depth closed requests launched post executed b load) :
    b.InOrder load where
  increasing := by
    intro c p hp
    rw [← Graph.tagsAt_of_pool hp]
    exact h.tags c
  together := by
    intro x run taken c cs p y p' hx hst hp hpop
    obtain ⟨rest, h'⟩ := h.bring hx
    obtain ⟨r, σ, s, q, hpost, hs, hq, -, hserves, -⟩ :=
      h'.engaged_head (by simp [Execution.isEngaged, hst])
    rw [hst] at hserves
    obtain rfl : run = r := Option.some.inj hserves
    exact (h'.await hg hpost hs hq hst hp hpop).1
  located := by
    intro x run taken hx hst
    obtain ⟨r, σ, s, q, hpost, hs, -, -, hb⟩ :=
      h.serving hx (by simp [Execution.isEngaged, hst])
    have hserves := hb.posts.serves hpost
    rw [hst] at hserves
    obtain rfl : run = r := hserves
    exact ⟨σ, s, h.ledger.slotOf?_eq hs, hs⟩
  unbroken := h.unbroken

namespace World

/-- **Threads of nodes keep the runs in order**: inputs that are matched by position belong
to one run, whose slot is found, every node handles the runs in the order of admission, and a
run in which no node fails comes to the result of its evaluation. -/
theorem dedicated_keeps_order {w : World α} (h : w.Reachable .dedicated) :
    (∀ b, w.scheduler.binding = some b → b.InOrder w.scheduler.threads.load) ∧
    ∀ t ∈ w.tenures,
      (∀ v, ∃ n, (t.executed.filter (·.1 == v)).map (·.2) = List.range n) ∧
      ∀ a ∈ t.tickets, a.run ∉ t.cancelled →
        t.graph.failures (t.graph.evaluate a.staged) = [] →
        ∃ result : RunResult α, result.Matches t.graph a.staged a.run ∧
          (∀ o, w.Yields a.cell o → o = .ok result) ∧
          (w.AtRest → w.Yields a.cell (.ok result)) := by
  refine ⟨fun b hb => ?_, fun t ht => ⟨(h.standing ht).ordered rfl, fun a ha hc hf => ?_⟩⟩
  · obtain ⟨t, ts, -, hrun, -⟩ := h.orderly.bound hb
    obtain ⟨closed, launched, post, hsound, -⟩ := hrun.sound
    exact hsound.inOrder hrun.frozen
  · exact h.result ht ha hc hf

/-- The source of the relay has handled two runs, and then the sink handles them. -/
theorem dedicated_keeps_order_relay :
    (∃ b, Relay.halfway.scheduler.binding = some b ∧
      b.InOrder Relay.halfway.scheduler.threads.load) ∧
    ∃ t ∈ (Relay.rested .dedicated).tenures,
      (∀ v, ∃ n, (t.executed.filter (·.1 == v)).map (·.2) = List.range n) ∧
      ∃ a ∈ t.tickets, ∃ result : RunResult Nat, result.Matches t.graph a.staged 1 ∧
        (Relay.rested .dedicated).Yields a.cell (.ok result) := by
  constructor
  · obtain ⟨b, hb⟩ := Option.isSome_iff_exists.mp
      (show Relay.halfway.scheduler.binding.isSome by decide +kernel)
    exact ⟨b, hb, (dedicated_keeps_order Relay.reachable_halfway).1 b hb⟩
  · obtain ⟨hexecuted, hresult⟩ :=
      (dedicated_keeps_order (Relay.reachable_rested .dedicated)).2 _ (Relay.tenure_mem _)
    have hrun : (Relay.ticket .dedicated 1).run = 1 := by decide +kernel
    obtain ⟨result, hmatches, -, hrest⟩ := hresult _ (Relay.ticket_mem _ 1)
      (by decide +kernel) (by decide +kernel)
    exact ⟨_, Relay.tenure_mem _, hexecuted, _, Relay.ticket_mem _ 1, result, hrun ▸ hmatches,
      hrest (Relay.rested_atRest _)⟩

end World

end Dataflow
