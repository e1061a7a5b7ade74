import Dataflow.Proofs.Engine.Custody
import Dataflow.Proofs.Scheduler.Definite
import Dataflow.Proofs.Scheduler.History

/-!
# Nobody comes back to a slot

The slot of a run passes to another run the moment the last sink is counted, while threads
that executed other nodes of the run may still be about to leave. Nevertheless all that
they do in a slot for a run is done while the slot is in the hands of that run
(`World.slots_are_used_in_time`): a node that has not made its last access keeps some sink
from finishing.

The checks of the scheduler are there to notice when this goes wrong, and so none of them
fails (`Execution.Unfailing`).
-/

namespace Dataflow

variable {α : Type} [Payload α] {k : Strategy}

/-- **No check fails** in the next operation of an execution. -/
structure Execution.Unfailing (k : Strategy) (b : Binding α) (x : Execution α) : Prop where
  /-- The entry of the run is in the pool. -/
  claim : ∀ {seat taken c cs}, x.stage = .claiming seat taken (c :: cs) →
    ∃ e p, b.graph.entryOf? c seat.run = some (e, p)
  /-- The count of predecessors that have not finished is not zero. -/
  release : ∀ {seat w ws}, x.stage = .releasing seat (w :: ws) →
    ∃ s n, b.table.Holds seat.slot seat.run s ∧ s.remainingDeps[w]? = some (n + 1)
  /-- The count of sinks that have not finished is not zero. -/
  finish : ∀ {seat}, x.stage = .finishing seat →
    ∃ s n, b.table.Holds seat.slot seat.run s ∧ s.remainingSinks = n + 1
  /-- The outcome is there, the count of runs in flight is not zero, and whoever gets the slot
  finds it without a cell. -/
  complete : ∀ {seat}, x.stage = .completing seat →
    ∃ s c t, b.table.Holds seat.slot seat.run s ∧ 0 < b.table.inFlight ∧
      b.table.complete seat.slot = (.ok c, t)
  unbroken : x.canAdvance b = true → ∀ f, (x.advance k b).stage ≠ .broken f

theorem Sound.unfailing {g : Graph α} (hg : g.Frozen) (hsize : 0 < g.nodes.size) {depth : Nat}
    {closed : Bool} {requests : List (Request α)} {launched : Nat}
    {post : ObjectId → NodeId → Post α} {executed : List (NodeId × ObjectId)} {b : Binding α}
    {load : List (Execution α)}
    (h : Sound k g depth closed requests launched post executed b load) {x : Execution α}
    (hx : x ∈ load) : x.Unfailing k b := by
  obtain ⟨rest, h⟩ := h.bring hx
  constructor
  · intro seat taken c cs hst
    obtain ⟨r, σ, s, q, hpost, hs, hq, -, hserves, -⟩ :=
      h.engaged_head (by simp [Execution.isEngaged, hst])
    rw [hst] at hserves
    obtain rfl : seat = ⟨σ, r⟩ := hserves
    obtain ⟨-, -, p, e, p', -, hentry, -⟩ := h.entry_of_claiming hg hpost hs hq hst
    exact ⟨e, p', hentry⟩
  · intro seat w ws hst
    obtain ⟨r, σ, s, q, hpost, hs, hq, -, hserves, -⟩ :=
      h.engaged_head (by simp [Execution.isEngaged, hst])
    rw [hst] at hserves
    obtain rfl : seat = ⟨σ, r⟩ := hserves
    obtain ⟨-, -, -, -, -, n, hn⟩ := (h.books hs hq).waiting_of_releasing hg (hst ▸ hpost)
    exact ⟨s, n, hs, hn⟩
  · intro seat hst
    obtain ⟨r, σ, s, q, hpost, hs, hq, -, hserves, hfits⟩ :=
      h.engaged_head (by simp [Execution.isEngaged, hst])
    rw [hst] at hserves hfits
    obtain rfl : seat = ⟨σ, r⟩ := hserves
    have hb := h.books hs hq
    have hsink : x.node ∈ g.sinks := hg.mem_sinks.mpr ⟨hb.posts.lt_size hpost, hfits⟩
    obtain ⟨n, hn⟩ := hb.counts.unfinished hsink (by rw [hpost, hst]; rfl)
    exact ⟨s, n, hs, hn⟩
  · intro seat hst
    obtain ⟨r, σ, s, q, -, hs, -, hc, hserves, -⟩ :=
      h.engaged_head (by simp [Execution.isEngaged, hst])
    rw [hst] at hserves
    obtain rfl : seat = ⟨σ, r⟩ := hserves
    exact ⟨s, _, _, hs, h.ledger.inFlight_pos ⟨σ, s, hs⟩, h.ledger.complete_eq hs hc⟩
  · intro hcan f hf
    -- whoever has met a fault would be at it still
    obtain ⟨launched', post', hafter⟩ := (h.turn hg hsize hcan).sound
    rw [hf] at hafter
    exact hafter.unbroken (x := ⟨x.node, .broken f⟩) (by simp [Execution.onward]) f rfl

namespace World

variable {w : World α}

/-- **Slots are used in time**, whatever the interleaving. All that is done for a run in a
slot comes after the slot was reset for the run and before the outcome of the run is taken
out of it, and no run gets a slot twice. As a consequence no check of the scheduler
fails. -/
theorem slots_are_used_in_time (h : w.Reachable k) :
    (∃ T, w.Recorded k T) ∧ (∀ T, w.Recorded k T → Conforms (Deed.InTime k) T) ∧
    (∀ b, w.scheduler.binding = some b →
      (∀ x ∈ w.scheduler.threads.load, x.Unfailing k b) ∧
      ∀ σ ∈ b.table.free, ∃ s, b.table.statuses[σ]? = some s ∧ s.cell = none) ∧
    (w.owner = .free → ∀ inputs s f, w.scheduler.run inputs ≠ .broken s f) := by
  refine ⟨h.recorded, fun T hT => hT.trail (stable_custody k) (fun s hs => hs.inTime)
    (conforms_nil _), fun b hb => ?_, fun ho inputs s f => h.orderly.not_burst ho inputs f⟩
  obtain ⟨t, ts, -, hrun, -⟩ := h.orderly.bound hb
  obtain ⟨closed, launched, post, hsound, -⟩ := hrun.sound
  exact ⟨fun x hx => hsound.unfailing hrun.frozen hrun.size hx,
    fun σ hσ => (hsound.ledger.mem_free σ).mp hσ⟩

/-- The relay has two slots and three runs, so one slot is used twice. -/
theorem slots_are_used_in_time_relay :
    (∃ T, (Relay.rested .stealing).Recorded .stealing T ∧
      Conforms (Deed.InTime .stealing) T) ∧
    ∃ b, Relay.halfway.scheduler.binding = some b ∧
      ∀ x ∈ Relay.halfway.scheduler.threads.load, x.Unfailing .dedicated b := by
  constructor
  · obtain ⟨⟨T, hT⟩, hall, -⟩ := slots_are_used_in_time (Relay.reachable_rested .stealing)
    exact ⟨T, hT, hall T hT⟩
  · obtain ⟨b, hb⟩ := Option.isSome_iff_exists.mp
      (show Relay.halfway.scheduler.binding.isSome by decide +kernel)
    obtain ⟨-, -, hbound, -⟩ := slots_are_used_in_time Relay.reachable_halfway
    exact ⟨b, hb, (hbound b hb).1⟩

end World

end Dataflow
