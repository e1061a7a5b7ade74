import Dataflow.Proofs.Scheduler.Once
import Dataflow.Proofs.Scheduler.Ready
import Dataflow.Proofs.Scheduler.Schedules

/-!
# No run gets stuck

Whoever looks at a scheduler between two executions finds a node that can be executed, if
a run is in flight. So a schedule goes on for as long as it leads to such states, and it
cannot go on for ever, since with every operation less is left to do.

What a schedule comes to is then a matter of counting. All that fires in its course was due
in the beginning, to runs that held a slot or waited for one (`Tenure.Due`), and nothing
fires twice; and when nobody can go on any more, nothing is due.
-/

namespace Dataflow

variable {α : Type} [Payload α] {k : Strategy}

omit [Payload α] in
/-- **The node is still to be executed for the run**, which is in flight or waits in the
backlog. -/
structure Tenure.Due (t : Tenure α) (b : Binding α) (p : NodeId × ObjectId) : Prop where
  node : p.1 < t.graph.nodes.size
  run : b.table.Open p.2
  missing : p ∉ t.executed

namespace World

variable {w w' : World α} {t : Tenure α} {ts : List (Tenure α)} {b b' : Binding α}
  {T T' : List (Deed α)} {more : List (NodeId × ObjectId)}

/-- **All that fires was due**, and nothing fires twice. -/
theorem Recorded.due_of_fired (h : w.Recorded k T) (hb : w.scheduler.binding = some b)
    (hts : w.tenures = t :: ts) (h' : w'.Recorded k T') (hb' : w'.scheduler.binding = some b')
    (hts' : w'.tenures = { t with executed := t.executed ++ more } :: ts) :
    more.Nodup ∧ ∀ p ∈ more, t.Due b p := by
  obtain ⟨hrun, hc, hr, hp⟩ := h.precedence hb hts
  obtain ⟨-, hc', hr', hp'⟩ := h'.precedence hb' hts'
  have hnodup : (t.executed ++ more).Nodup := hr'.nodup
  refine ⟨hnodup.of_append_right, ?_⟩
  rintro ⟨v, r⟩ hmem
  have hfired : (v, r) ∈ Deed.fires T' := by
    rw [show Deed.fires T' = t.executed ++ more from hr'.fires]
    exact List.mem_append_right _ hmem
  have hmissing : (v, r) ∉ t.executed := fun hold =>
    (List.nodup_append'.mp hnodup).2.2 hold hmem
  have hv : v < t.graph.nodes.size := hp'.lt_size_of_fired hfired
  refine ⟨hv, ?_, hmissing⟩
  -- a run that was not open had been through all nodes
  by_contra hopen
  obtain ⟨slot, called, hd⟩ := Deed.mem_fires.mp hfired
  obtain ⟨hlt, -, hnot⟩ := (h'.mem_launched hb' hts').mp (hc'.launched_of_mem hd)
  have hended : r ∈ Deed.ended T := hr.ended_iff.mpr
    ⟨(h.mem_launched hb hts).mpr ⟨hlt, fun hwait => hopen (Or.inr hwait), hnot⟩,
      fun hflight => hopen (Or.inl hflight)⟩
  refine hmissing ?_
  rw [← show Deed.fires T = t.executed from hr.fires]
  exact hp.fired_of_ended hended hv

/-- **When nobody can go on**, all that was due has fired. -/
theorem Recorded.fired_of_due (h : w.Recorded k T) (hb : w.scheduler.binding = some b)
    (hts : w.tenures = t :: ts) (h' : w'.Recorded k T') (hb' : w'.scheduler.binding = some b')
    (hts' : w'.tenures = { t with executed := t.executed ++ more } :: ts)
    (hclosed : ∀ r, ¬ b'.table.Open r) {p : NodeId × ObjectId} (hdue : t.Due b p) :
    p ∈ more := by
  obtain ⟨hrun, -, -, -⟩ := h.precedence hb hts
  obtain ⟨-, -, hr', hp'⟩ := h'.precedence hb' hts'
  obtain ⟨closed, launched, post, hsound, -⟩ := hrun.sound
  obtain ⟨v, r⟩ := p
  obtain ⟨hv, hopen, hmissing⟩ := hdue
  have hlt : r < t.tickets.length := by
    have := hsound.ledger.lt_length_of_open hopen
    rwa [Tenure.requests, List.length_map] at this
  have hended : r ∈ Deed.ended T' := hr'.ended_iff.mpr
    ⟨(h'.mem_launched hb' hts').mpr ⟨hlt, fun hwait => hclosed r (Or.inr hwait),
      fun hcancelled => hrun.docket.not_open hcancelled hopen⟩,
      fun hflight => hclosed r (Or.inl hflight)⟩
  have hfired : (v, r) ∈ Deed.fires T' := hp'.fired_of_ended hended hv
  rw [show Deed.fires T' = t.executed ++ more from hr'.fires] at hfired
  exact (List.mem_append.mp hfired).resolve_left hmissing

/-- Between executions some node can be executed as long as a run is in flight. -/
theorem Reachable.enabled (h : w.Reachable k) (hb : w.scheduler.binding = some b)
    (hflight : b.table.inFlight ≠ 0)
    (hmid : ∀ x ∈ w.scheduler.threads.load, ¬ x.IsMidway k b.graph) :
    w.scheduler.threads.Enabled b := by
  classical
  obtain ⟨t, ts, -, hrun, -⟩ := h.orderly.bound hb
  obtain ⟨closed, launched, post, hsound, -⟩ := hrun.sound
  have hmid' : ∀ x ∈ w.scheduler.threads.load, ¬ x.IsMidway k t.graph := by
    rintro x hx ⟨he, hopening⟩
    refine hmid x hx ⟨?_, hopening⟩
    unfold Execution.isEngaged at he ⊢
    simpa only [hsound.alike.successors] using he
  have hex : ∃ r, b.table.InFlight r := by
    by_contra hno
    exact hflight (hsound.ledger.inFlight_eq_zero.mpr fun r hr => hno ⟨r, hr⟩)
  -- the oldest run in flight can always go on
  obtain ⟨σ, s, hs⟩ := Nat.find_spec hex
  have hk := h.orderly.strategy
  cases hth : w.scheduler.threads with
  | crew c =>
    rw [hth] at hk hsound hmid'
    obtain rfl : Strategy.stealing = k := hk
    obtain ⟨task, ht⟩ := hsound.exists_task hrun.frozen hmid' hs
    exact ⟨task, Crew.offers_of_mem_load ht⟩
  | nodes xs =>
    rw [hth] at hk hsound hmid'
    obtain rfl : Strategy.dedicated = k := hk
    obtain ⟨x, hx, hready⟩ := hsound.exists_ready hrun.frozen hmid' hs
      fun r' hr' => Nat.find_min hex hr'
    exact ⟨x, hx, _, ⟨σ, s, hs⟩, hready⟩

/-- **No run gets stuck.** Between executions some node can be executed as long as a run is in
flight. Every schedule is finite, executes nothing but what is due, and nothing of it
twice. It can go on until nobody has anything left to do; then all that was due has been
executed, every run has got its outcome, and no run waits or is in flight. -/
theorem no_run_gets_stuck (h : w.Reachable k) (hb : w.scheduler.binding = some b) :
    ∃ t ts, w.tenures = t :: ts ∧
      (b.table.inFlight ≠ 0 → (∀ x ∈ w.scheduler.threads.load, ¬ x.IsMidway k b.graph) →
        w.scheduler.threads.Enabled b) ∧
      (∃ bound, ∀ n w', w.Schedule n w' → n ≤ bound) ∧
      ∀ n w', w.Schedule n w' → ∃ b' more, w'.scheduler.binding = some b' ∧
        w'.tenures = { t with executed := t.executed ++ more } :: ts ∧
        more.Nodup ∧ (∀ p ∈ more, t.Due b p) ∧ (¬ w'.AtRest → w'.scheduler.CanGoOn) ∧
        (w'.AtRest → (∀ p, t.Due b p → p ∈ more) ∧ (∀ a ∈ t.tickets, ∃ o, w'.Yields a.cell o) ∧
          b'.table.backlog = [] ∧ b'.table.inFlight = 0) := by
  obtain ⟨t, ts, hts, -⟩ := h.orderly.bound hb
  refine ⟨t, ts, hts, h.enabled hb, ⟨t.effort k w.scheduler b, fun n w' hw' => ?_⟩,
    fun n w' hw' => ?_⟩
  · obtain ⟨b', more, -, -, hle⟩ := hw'.tenure h hb hts
    exact Nat.le_of_add_right_le hle
  obtain ⟨b', more, hb', hts', -⟩ := hw'.tenure h hb hts
  have h' := hw'.reachable h
  obtain ⟨T, hT⟩ := h.recorded
  obtain ⟨T', hT'⟩ := h'.recorded
  obtain ⟨hnodup, hdue⟩ := hT.due_of_fired hb hts hT' hb' hts'
  refine ⟨b', more, hb', hts', hnodup, hdue, fun hgoes => ?_, fun hrest => ?_⟩
  · unfold AtRest at hgoes
    push Not at hgoes
    obtain ⟨b₁, hb₁, x, hx, hcan⟩ := hgoes
    exact Scheduler.canGoOn hx hb₁ (by simpa using hcan)
  obtain ⟨hrun', -⟩ := hT'.precedence hb' hts'
  obtain ⟨closed, launched, post, hsound, -⟩ := hrun'.sound
  have hidle := hsound.idle_of_rest hrun'.frozen (hrest b' hb')
  have hclosed := hsound.ledger.not_open hrun'.depth_pos hrun'.crowded hidle
  have ht' : ({ t with executed := t.executed ++ more } : Tenure α) ∈ w'.tenures :=
    hts' ▸ List.mem_cons_self ..
  refine ⟨fun p hp => hT.fired_of_due hb hts hT' hb' hts' hclosed hp,
    fun a ha => h'.yields_of_rest ht' ha hrest, ?_, hidle⟩
  refine List.eq_nil_iff_forall_not_mem.mpr fun p hp => ?_
  exact hclosed _ (Or.inr (List.mem_map_of_mem hp))

/-! ### The definite schedule -/

theorem Schedule.planned {n : Nat} (h : w.Schedule n w') (i : Nat) :
    ∃ n, w.Schedule n (w'.planned i).1 := by
  unfold World.planned
  split
  · split
    · exact ⟨n, h⟩
    · split
      · next hs => exact ⟨_, h.thread hs⟩
      · exact ⟨n, h⟩
  · split
    · next s hs =>
      unfold Scheduler.stepFirstNotice at hs
      split at hs
      · exact ⟨n, h.notice hs⟩
      · simp at hs
    · exact ⟨n, h⟩

/-- The definite schedule is a schedule. -/
theorem exists_schedule_settle (w : World α) : ∃ n, w.Schedule n w.settle :=
  ThreadStep.settle_induction (P := fun w' => ∃ n, w.Schedule n w')
    (fun _ i ⟨_, h⟩ => h.planned i) _ _ _ ⟨0, .start⟩

/-- In the relay the third run waits for a slot, and gets through nevertheless. Halfway
through, the thread of the sink can go on. -/
theorem no_run_gets_stuck_relay :
    (∃ b, Relay.halfway.scheduler.binding = some b ∧
      Relay.halfway.scheduler.threads.Enabled b) ∧
    ∃ n, (Relay.submitted .stealing).Schedule n (Relay.rested .stealing) ∧
      ∃ b more t ts, (Relay.rested .stealing).scheduler.binding = some b ∧
        (Relay.rested .stealing).tenures = t :: ts ∧ t.executed = more ∧ more.Nodup ∧
        (1, 2) ∈ more ∧ b.table.backlog = [] ∧ b.table.inFlight = 0 := by
  constructor
  · obtain ⟨b, hb⟩ := Option.isSome_iff_exists.mp
      (show Relay.halfway.scheduler.binding.isSome by decide +kernel)
    have hflight : ∀ b ∈ Relay.halfway.scheduler.binding, b.table.inFlight ≠ 0 := by
      decide +kernel
    have hidle : ∀ b ∈ Relay.halfway.scheduler.binding,
        ∀ x ∈ Relay.halfway.scheduler.threads.load, x.isEngaged .dedicated b.graph = false := by
      decide +kernel
    obtain ⟨t, ts, -, henabled, -⟩ := no_run_gets_stuck Relay.reachable_halfway hb
    refine ⟨b, hb, henabled (hflight b hb) fun x hx hmid => ?_⟩
    simp [Execution.IsMidway, hidle b hb x hx] at hmid
  · obtain ⟨n, hn⟩ : ∃ n, (Relay.submitted .stealing).Schedule n (Relay.rested .stealing) :=
      exists_schedule_settle (Relay.submitted .stealing)
    obtain ⟨b, hb⟩ := Option.isSome_iff_exists.mp
      (show (Relay.submitted .stealing).scheduler.binding.isSome by decide +kernel)
    have hwaits : ∀ b ∈ (Relay.submitted .stealing).scheduler.binding,
        2 ∈ b.table.backlog.map (·.objectId) := by
      decide +kernel
    have hbefore : ∀ t ∈ (Relay.submitted .stealing).tenures,
        1 < t.graph.nodes.size ∧ t.executed = [] := by
      decide +kernel
    obtain ⟨t, ts, hts, -, -, hall⟩ := no_run_gets_stuck (Relay.reachable_submitted .stealing) hb
    obtain ⟨hsize, hnone⟩ := hbefore t (hts ▸ List.mem_cons_self ..)
    obtain ⟨b', more, hb', hts', hnodup, -, -, hrest⟩ := hall n _ hn
    obtain ⟨hdue, -, hbacklog, hidle⟩ := hrest (Relay.rested_atRest .stealing)
    exact ⟨n, hn, b', more, _, ts, hb', hts', by simp [hnone], hnodup,
      hdue _ ⟨hsize, Or.inr (hwaits b hb), by simp [hnone]⟩, hbacklog, hidle⟩

end World

end Dataflow
