import Dataflow.Proofs.Scheduler.Definite
import Dataflow.Proofs.Scheduler.Reachable

/-!
# What lies in the pools

Every pool holds exactly one entry for each run in flight that its producer has been
executed for and its consumer has not, as long as nobody is in between. An entry is there
from its publication until it is taken, so all that is needed is that the executions of a
node take and publish everything or nothing.

A pool has as many slots as there can be runs in flight, so nobody ever waits for room.
-/

namespace Dataflow

variable {α : Type}

/-- The execution has begun, and has something left to do to what runs share. -/
def Execution.IsMidway (k : Strategy) (g : Graph α) (x : Execution α) : Prop :=
  x.isEngaged k g = true ∧ ∀ slot, x.stage ≠ .opening slot

namespace Binding

/-- **What lies in the pools** when no execution is midway. -/
structure Exact (b : Binding α) (executed : List (NodeId × ObjectId)) : Prop where
  edge : ∀ {u v}, v ∈ b.graph.successors u → ∃ p, b.graph.pool? (.edge u v) = some p ∧
    p.tags.Nodup ∧
    ∀ r, r ∈ p.tags ↔ b.table.InFlight r ∧ (u, r) ∈ executed ∧ (v, r) ∉ executed
  staging : ∀ {v}, v ∈ b.graph.sources → ∃ p, b.graph.pool? (.staging v) = some p ∧
    p.tags.Nodup ∧ ∀ r, r ∈ p.tags ↔ b.table.InFlight r ∧ (v, r) ∉ executed

/-- **There is always room**, and nobody waits for it. -/
structure Roomy (b : Binding α) (load : List (Execution α)) : Prop where
  /-- A node that publishes an entry finds a free slot. -/
  publishing : ∀ {x seat c e rest waiting}, x ∈ load →
    x.stage = .publishing seat ((c, e) :: rest) waiting → waiting = false ∧
    ∃ p p', b.graph.pool? c = some p ∧ p.entries.length < p.capacity ∧
      p.push ⟨seat.run, e⟩ = some (.ok p')
  /-- So does a run that is staged, because it got a slot of the table. -/
  staging : b.table.free ≠ [] → ∀ {c}, b.graph.Carries c →
    ∃ p, b.graph.pool? c = some p ∧ p.entries.length < p.capacity
  starved : ∀ {c p}, b.graph.pool? c = some p → p.starved = 0
  unbroken : ∀ {x}, x ∈ load → ∀ f, x.stage ≠ .broken f
  empty : b.table.inFlight = 0 → ∀ {c p}, b.graph.pool? c = some p → p.entries = []

end Binding

namespace Sound

variable [Payload α] {k : Strategy} {g : Graph α} {depth : Nat} {closed : Bool}
  {requests : List (Request α)} {launched : Nat} {post : ObjectId → NodeId → Post α}
  {executed : List (NodeId × ObjectId)} {b : Binding α} {load : List (Execution α)}

/-- A node that is not midway has not begun, or is done. -/
theorem post_of_not_midway
    (h : Sound k g depth closed requests launched post executed b load)
    (hmid : ∀ x ∈ load, ¬ x.IsMidway k g) (r : ObjectId) (v : NodeId) :
    post r v = .waiting ∨ (∃ slot, post r v = .busy (.opening slot)) ∨ post r v = .done := by
  cases hp : post r v with
  | waiting => exact .inl rfl
  | done => exact .inr (.inr rfl)
  | busy st =>
    obtain ⟨σ, s, q, -, -, -, hb⟩ := h.holds_of_busy hp
    have hnot := hmid _ (h.manned.busy hp)
    cases st with
    | opening slot => exact .inr (.inl ⟨slot, rfl⟩)
    | _ => exact absurd ⟨hb.posts.engaged hp, fun slot he => by cases he⟩ hnot

/-- So it has taken and published everything, or nothing. -/
theorem whole (h : Sound k g depth closed requests launched post executed b load)
    (hmid : ∀ x ∈ load, ¬ x.IsMidway k g) (r : ObjectId) (v : NodeId) (c : Channel) :
    (post r v).progress.published c = (post r v).progress.fired ∧
      (post r v).progress.taken c = (post r v).progress.fired := by
  rcases h.post_of_not_midway hmid r v with hp | ⟨slot, hp⟩ | hp <;> rw [hp] <;>
    exact ⟨rfl, rfl⟩

/-- **An entry of a run is in a pool** exactly while its consumer has not been executed,
though its producer has. -/
theorem mem_tagsAt_iff (hg : g.Frozen)
    (h : Sound k g depth closed requests launched post executed b load)
    (hmid : ∀ x ∈ load, ¬ x.IsMidway k g) {c : Channel} (hc : g.Carries c) (r : ObjectId) :
    r ∈ b.graph.tagsAt c ↔ b.table.InFlight r ∧
      filled (fun v => (post r v).progress) c = true ∧ (c.reader, r) ∉ executed := by
  rw [h.chronicle.mem_iff (hg.reader_lt hc), ← (h.whole hmid r c.reader c).2, Bool.not_eq_true]
  constructor
  · intro hr
    have hflight := h.tag_inFlight hr
    obtain ⟨σ, s, hs⟩ := hflight
    obtain ⟨q, -, -, hb⟩ := h.request_of_holds hs
    exact ⟨⟨σ, s, hs⟩, (hb.flow.present_iff hc).mp (Graph.mem_tagsAt.mp hr)⟩
  · rintro ⟨⟨σ, s, hs⟩, hpresent⟩
    obtain ⟨q, -, -, hb⟩ := h.request_of_holds hs
    exact Graph.mem_tagsAt.mpr ((hb.flow.present_iff hc).mpr hpresent)

theorem exact (hg : g.Frozen)
    (h : Sound k g depth closed requests launched post executed b load)
    (hmid : ∀ x ∈ load, ¬ x.IsMidway k g) : b.Exact executed := by
  have key : ∀ {c}, g.Carries c → ∃ p, b.graph.pool? c = some p ∧ p.tags.Nodup ∧
      ∀ r, r ∈ p.tags ↔ b.table.InFlight r ∧
        filled (fun v => (post r v).progress) c = true ∧ (c.reader, r) ∉ executed := by
    intro c hc
    obtain ⟨p, hp, -⟩ := h.laid.exists_pool (h.alike.carries.mpr hc)
    refine ⟨p, hp, ?_⟩
    rw [← Graph.tagsAt_of_pool hp]
    exact ⟨(h.tags c).imp fun hab => hab.ne, h.mem_tagsAt_iff hg hmid hc⟩
  constructor
  · intro u v hv
    rw [h.alike.successors] at hv
    obtain ⟨p, hp, hnd, hmem⟩ := key (c := .edge u v) hv
    refine ⟨p, hp, hnd, fun r => ?_⟩
    rw [hmem, h.chronicle.mem_iff (Graph.lt_of_mem_successors hv), ← (h.whole hmid r u _).1]
    rfl
  · intro v hv
    rw [h.alike.sources] at hv
    obtain ⟨p, hp, hnd, hmem⟩ := key (c := .staging v) hv
    refine ⟨p, hp, hnd, fun r => ?_⟩
    rw [hmem]
    simp [filled, Channel.reader]

theorem roomy (hg : g.Frozen)
    (h : Sound k g depth closed requests launched post executed b load) : b.Roomy load where
  publishing := by
    intro x seat c e rest waiting hx hst
    have he : x.isEngaged k g = true := by simp [Execution.isEngaged, hst]
    obtain ⟨others, h'⟩ := h.bring hx
    obtain ⟨r, σ, s, q, hpost, hs, hq, -, hserves, hfits⟩ := h'.engaged_head he
    rw [hst] at hserves hfits
    obtain rfl : seat = ⟨σ, r⟩ := hserves
    obtain rfl : waiting = false := hfits.1
    obtain ⟨p, hp, hroom, hpush, -⟩ := h'.publish hg he hpost hs hq hst
    exact ⟨rfl, p, _, hp, hroom, hpush⟩
  staging := by
    intro hfree c hc
    obtain ⟨p, hp, hcap⟩ := h.laid.exists_pool hc
    refine ⟨p, hp, ?_⟩
    have hlt := h.length_lt_of_free hfree c
    rw [Graph.entriesAt_of_pool hp] at hlt
    omega
  starved := h.laid.starved
  unbroken := h.unbroken
  empty := by
    intro hidle c p hp
    have hle := h.length_le c
    rw [hidle, Graph.entriesAt_of_pool hp] at hle
    exact List.eq_nil_of_length_eq_zero (Nat.le_zero.mp hle)

end Sound

namespace World

/-- **Exact pool occupancy.** When no execution is midway, a pool holds one entry for each
run in flight that is due there, and nothing else. So there is always room for an entry
that is published and for a run that is staged, and nothing is left when no run is in
flight. -/
theorem pools_hold_what_is_due [Payload α] {k : Strategy} {w : World α} (h : w.Reachable k)
    {b : Binding α} (hb : w.scheduler.binding = some b) :
    (∃ t ts, w.tenures = t :: ts ∧
      ((∀ x ∈ w.scheduler.threads.load, ¬ x.IsMidway k b.graph) → b.Exact t.executed)) ∧
    b.Roomy w.scheduler.threads.load ∧
    (w.owner = .free → ∀ inputs s f, w.scheduler.run inputs ≠ .broken s f) := by
  obtain ⟨t, ts, hts, hrun, -⟩ := h.orderly.bound hb
  obtain ⟨closed, launched, post, hsound, -⟩ := hrun.sound
  refine ⟨⟨t, ts, hts, fun hmid => hsound.exact hrun.frozen fun x hx hm => hmid x hx ?_⟩,
    hsound.roomy hrun.frozen, fun ho inputs s f => h.orderly.not_burst ho inputs f⟩
  obtain ⟨he, hopening⟩ := hm
  refine ⟨?_, hopening⟩
  unfold Execution.isEngaged at he ⊢
  simpa only [hsound.alike.successors] using he

/-- The source of the relay has handled two runs, which the sink has not. -/
theorem pools_hold_what_is_due_relay :
    ∃ b, Relay.halfway.scheduler.binding = some b ∧
      b.Roomy Relay.halfway.scheduler.threads.load ∧
      ∃ t ∈ Relay.halfway.tenures, b.Exact t.executed := by
  obtain ⟨b, hb⟩ := Option.isSome_iff_exists.mp
    (show Relay.halfway.scheduler.binding.isSome by decide +kernel)
  have hidle : ∀ b ∈ Relay.halfway.scheduler.binding,
      ∀ x ∈ Relay.halfway.scheduler.threads.load, x.isEngaged .dedicated b.graph = false := by
    decide +kernel
  obtain ⟨⟨t, ts, hts, hexact⟩, hroomy, -⟩ :=
    pools_hold_what_is_due Relay.reachable_halfway hb
  refine ⟨b, hb, hroomy, t, hts ▸ List.mem_cons_self .., hexact fun x hx hmid => ?_⟩
  simp [Execution.IsMidway, hidle b hb x hx] at hmid

end World

end Dataflow
