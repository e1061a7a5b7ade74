import Dataflow.Proofs.Graph.Freezing
import Dataflow.Proofs.Scheduler.Lifetime
import Dataflow.Proofs.Scheduler.Occupancy

/-!
# Snapshots tell the truth

What an observer sees of a scheduler is put together from the free slots of the table, from
the bookkeeping of the others, from the backlog and from every pool. All of these go back to
one history: which runs were accepted, which of them got a slot and have come to an end since,
which were cancelled, and which nodes were executed for which of them. `Snapshot.Tells` says
what a snapshot has to show of that, and `World.snapshots_tell_the_history` that it shows it
whenever no execution is midway.
-/

namespace Dataflow

variable {α τ : Type}

/-! ### What there is to tell -/

/-- The run has got a slot, and has not come to its end. -/
def Deed.Underway (T : List (Deed α)) (run : ObjectId) : Prop :=
  run ∈ Deed.launched T ∧ run ∉ Deed.ended T

instance (T : List (Deed α)) : DecidablePred (Deed.Underway T) := fun _ => instDecidableAnd

/-- The number of accepted runs that are under way and such as asked for. -/
def Tenure.underway (t : Tenure α) (T : List (Deed α)) (p : ObjectId → Prop) [DecidablePred p] :
    Nat :=
  t.tickets.countP fun a => Deed.Underway T a.run ∧ p a.run

/-- **What an observer sees of a node** is what has happened at it. -/
structure NodeView.Tells [Payload α] (n : NodeView τ) (t : Tenure α) (T : List (Deed α))
    (depth : Nat) : Prop where
  /-- A run is queued towards a successor that it has not come to. -/
  queueDepths : n.queueDepths = (t.graph.successors n.node).map fun u =>
    t.underway T fun r => (n.node, r) ∈ t.executed ∧ (u, r) ∉ t.executed
  freeSlots : n.freeSlots + n.queueDepths.sum = (t.graph.successors n.node).length * depth
  /-- Inputs are staged at a source for the runs that it has not begun. -/
  stagedInputs : n.stagedInputs = if t.graph.predecessors n.node = [] then
    t.underway T fun r => (n.node, r) ∉ t.executed else 0
  starved : n.starved = 0
  /-- The executions before the graph was bound are counted as well. -/
  runCount : ∀ {count : NodeId → Nat}, t.graph.Life count →
    n.runCount = count n.node + occurrences n.node t.executed

/-- **What an observer sees of a scheduler** is what has happened to it. -/
structure Snapshot.Tells [Payload α] (view : Snapshot τ) (t : Tenure α) (T : List (Deed α))
    (depth : Nat) : Prop where
  ascending : view.runs.Pairwise (·.slot < ·.slot)
  /-- The runs that are under way are listed, each once, -/
  runs : (view.runs.map (·.objectId)).Perm ((t.tickets.map (·.run)).filter (Deed.Underway T ·))
  /-- with the slot that the run was launched into, and the sinks that it still waits for. -/
  run : ∀ e ∈ view.runs, Deed.Held T ⟨e.slot, e.objectId⟩ ∧
    e.remainingSinks = t.graph.sinks.countP fun v => (v, e.objectId) ∉ t.executed
  backlog : view.backlog = t.tickets.countP fun a =>
    a.run ∉ Deed.launched T ∧ a.run ∉ t.cancelled
  nodes : view.nodes.map (·.node) = List.range t.graph.nodes.size
  node : ∀ n ∈ view.nodes, n.Tells t T depth

/-! ### Counting tickets -/

namespace Tenure

variable {t : Tenure α} {l : List ObjectId} {p : ObjectId → Prop} [DecidablePred p]

/-- A list of runs, each once, is what is left of all accepted runs. -/
theorem perm_filter (hn : t.tickets.map (·.run) = List.range t.tickets.length) (hl : l.Nodup)
    (h : ∀ r, r ∈ l ↔ r < t.tickets.length ∧ p r) :
    l.Perm ((t.tickets.map (·.run)).filter (p ·)) := by
  have hnodup : ((t.tickets.map (·.run)).filter (p ·)).Nodup := by
    rw [hn]
    exact List.nodup_range.filter _
  refine (List.perm_ext_iff_of_nodup hl hnodup).mpr fun r => ?_
  rw [List.mem_filter, hn, List.mem_range, decide_eq_true_iff]
  exact h r

theorem length_eq_countP (hn : t.tickets.map (·.run) = List.range t.tickets.length)
    (hl : l.Nodup) (h : ∀ r, r ∈ l ↔ r < t.tickets.length ∧ p r) :
    l.length = t.tickets.countP fun a => p a.run := by
  rw [(perm_filter hn hl h).length_eq, ← List.countP_eq_length_filter, List.countP_map]
  rfl

end Tenure

/-! ### The runs -/

namespace Binding

variable {t : Table α} {e : RunView}

theorem mem_runViews : e ∈ runViews t ↔
    e.slot ∉ t.free ∧ ∃ s, t.statuses[e.slot]? = some s ∧ s.objectId = e.objectId ∧
      s.remainingSinks = e.remainingSinks := by
  obtain ⟨σ, r, n⟩ := e
  simp only [runViews, List.mem_filterMap, List.mem_range, Std.HashSet.contains_ofList,
    List.contains_iff_mem]
  constructor
  · rintro ⟨τ, -, he⟩
    split at he
    · cases he
    · next hfree =>
      obtain ⟨s, hs, hview⟩ := Option.map_eq_some_iff.mp he
      obtain ⟨rfl, rfl, rfl⟩ := RunView.mk.inj hview
      exact ⟨hfree, s, hs, rfl, rfl⟩
  · rintro ⟨hfree, s, hs, rfl, rfl⟩
    refine ⟨σ, (Array.getElem?_eq_some_iff.mp hs).1, ?_⟩
    rw [if_neg hfree, hs]
    rfl

/-- Slots are looked at in ascending order. -/
theorem pairwise_runViews (t : Table α) : (runViews t).Pairwise (·.slot < ·.slot) := by
  refine List.pairwise_filterMap.mpr (List.pairwise_lt_range.imp fun {σ τ} hlt e he e' he' => ?_)
  have hslot : ∀ {ρ : SlotId} {e : RunView}, (if (Std.HashSet.ofList t.free).contains ρ then none
      else (t.statuses[ρ]?).map fun s => ⟨ρ, s.objectId, s.remainingSinks⟩) = some e →
      e.slot = ρ := by
    intro ρ e he
    split at he
    · cases he
    · obtain ⟨s, -, rfl⟩ := Option.map_eq_some_iff.mp he
      rfl
  rw [hslot he, hslot he']
  exact hlt

variable {depth launched : Nat} {requests : List (Request α)}

/-- **The runs that are listed** are those that hold a slot. -/
theorem mem_runViews_iff (h : t.Ledger depth launched requests) : e ∈ runViews t ↔
    ∃ s, t.Holds e.slot e.objectId s ∧ s.remainingSinks = e.remainingSinks := by
  rw [mem_runViews]
  constructor
  · rintro ⟨hfree, s, hs, hid, hsinks⟩
    refine ⟨s, ⟨hs, hid, Option.isSome_iff_ne_none.mpr fun hc => hfree ?_⟩, hsinks⟩
    exact (h.mem_free _).mpr ⟨s, hs, hc⟩
  · rintro ⟨s, hs, hsinks⟩
    exact ⟨h.not_free hs, s, hs.1, hs.2.1, hsinks⟩

theorem mem_map_runViews (h : t.Ledger depth launched requests) {r : ObjectId} :
    r ∈ (runViews t).map (·.objectId) ↔ t.InFlight r := by
  rw [List.mem_map]
  constructor
  · rintro ⟨e, he, rfl⟩
    obtain ⟨s, hs, -⟩ := (mem_runViews_iff h).mp he
    exact ⟨e.slot, s, hs⟩
  · rintro ⟨σ, s, hs⟩
    exact ⟨⟨σ, r, s.remainingSinks⟩, (mem_runViews_iff h).mpr ⟨s, hs, rfl⟩, rfl⟩

/-- A run holds one slot, so it is listed once. -/
theorem nodup_runViews (h : t.Ledger depth launched requests) :
    ((runViews t).map (·.objectId)).Nodup := by
  refine List.pairwise_map.mpr ((pairwise_runViews t).imp_of_mem fun {e e'} he he' hlt hid => ?_)
  obtain ⟨s, hs, -⟩ := (mem_runViews_iff h).mp he
  obtain ⟨s', hs', -⟩ := (mem_runViews_iff h).mp he'
  exact Nat.ne_of_lt hlt (h.slot_unique (hid ▸ hs) hs')

end Binding

/-! ### The pools of a node -/

namespace Pool

theorem total_eq_sum (measure : Pool α → Nat) (ps : List (Pool α)) :
    total measure ps = (ps.map measure).sum := by
  induction ps with
  | nil => rfl
  | cons p ps ih => rw [total, ih, List.map_cons, List.sum_cons]

/-- Of pools of the same size, what is not full is free. -/
theorem total_numFree {ps : List (Pool α)} {depth : Nat} (h : ∀ p ∈ ps, p.capacity = depth) :
    total (·.numFree) ps + (ps.map (·.numFull)).sum = ps.length * depth := by
  have hsum : ps.map (fun p => p.numFree + p.numFull) = List.replicate ps.length depth := by
    rw [← List.map_const']
    refine List.map_congr_left fun p hp => ?_
    rw [Nat.add_comm, p.numFull_add_numFree, h p hp]
  rw [total_eq_sum, ← List.sum_map_add, hsum, List.sum_replicate, smul_eq_mul]

end Pool

namespace Graph

variable {g : Graph α} {v : NodeId} {s : Station α}

/-- If a node has as many pools as successors, they are those of its edges, in order. -/
theorem Linked.map_outgoing (h : g.Linked) (hs : g.stations[v]? = some s)
    (hsize : s.outgoing.size = (g.successors v).length) :
    s.outgoing.toList.map some = (g.successors v).map fun u => g.pool? (.edge v u) := by
  refine List.ext_getElem (by simpa using hsize) fun i hi hi' => ?_
  rw [List.length_map] at hi hi'
  have hbranch : Node.branchAt g.nodes v (g.successors v)[i] = i :=
    (h.nodup_successors v).idxOf_getElem i hi'
  simp only [List.getElem_map, pool?, hs, Option.bind_some, hbranch, Array.getElem_toList]
  exact (Array.getElem?_eq_getElem _).symm

/-- A number that is read off the pools of a node is read off each edge. -/
theorem map_of_map_outgoing {β : Type} {ps : List (Pool (Entry α))} {us : List NodeId}
    (hps : ps.map some = us.map fun u => g.pool? (.edge v u)) {f : Pool (Entry α) → β}
    {f' : NodeId → β} (h : ∀ u ∈ us, ∀ p, g.pool? (.edge v u) = some p → f p = f' u) :
    ps.map f = us.map f' := by
  induction us generalizing ps with
  | nil => rw [List.map_eq_nil_iff.mp hps]; rfl
  | cons u us ih =>
    obtain ⟨p, ps, rfl, hp, hps⟩ := List.map_eq_cons_iff.mp hps
    rw [List.map_cons, List.map_cons, ih hps fun u' hu' => h u' (List.mem_cons_of_mem _ hu'),
      h u (List.mem_cons_self ..) p hp.symm]

/-- They are as large as all pools that carry runs, and nobody has ever waited there. -/
theorem Laid.of_map_outgoing {depth : Nat} {closed : Bool} (h : g.Laid depth closed)
    {ps : List (Pool (Entry α))}
    (hps : ps.map some = (g.successors v).map fun u => g.pool? (.edge v u))
    {p : Pool (Entry α)} (hp : p ∈ ps) : p.capacity = depth ∧ p.starved = 0 := by
  have hmem : some p ∈ (g.successors v).map fun u => g.pool? (.edge v u) :=
    hps ▸ List.mem_map_of_mem hp
  obtain ⟨u, hu, hpool⟩ := List.mem_map.mp hmem
  obtain ⟨p', hp', hcap⟩ := h.exists_pool (c := .edge v u) hu
  obtain rfl : p = p' := Option.some.inj (hpool.symm.trans hp')
  exact ⟨hcap, h.starved hpool⟩

theorem mem_nodeViews {n : NodeView Nat} : n ∈ g.nodeViews ↔
    ∃ m s, g.nodes[n.node]? = some m ∧ g.stations[n.node]? = some s ∧
      n = g.nodeView n.node m s := by
  simp only [nodeViews, List.mem_filterMap, List.mem_range]
  constructor
  · rintro ⟨v, -, hn⟩
    unfold nodeView? at hn
    split at hn
    · next m s hm hs =>
      obtain rfl := Option.some.inj hn
      exact ⟨m, s, hm, hs, rfl⟩
    · cases hn
  · rintro ⟨m, s, hm, hs, hn⟩
    refine ⟨n.node, (Array.getElem?_eq_some_iff.mp hm).1, ?_⟩
    rw [nodeView?, hm, hs, hn]
    rfl

end Graph

/-! ### What the invariant says of them -/

variable [Payload α] {k : Strategy}

omit [Payload α] in
/-- Graphs that are read alike let the same executions be midway. -/
theorem Graph.Alike.isMidway {g g' : Graph α} (h : g.Alike g') (x : Execution α) :
    x.IsMidway k g' ↔ x.IsMidway k g := by
  unfold Execution.IsMidway Execution.isEngaged
  simp only [h.successors]

namespace Sound

variable {g : Graph α} {depth : Nat} {closed : Bool} {requests : List (Request α)}
  {launched : Nat} {post : ObjectId → NodeId → Post α} {executed : List (NodeId × ObjectId)}
  {b : Binding α} {load : List (Execution α)}

/-- **A run waits for the sinks** that have not been executed for it. -/
theorem remainingSinks_eq (hg : g.Frozen)
    (h : Sound k g depth closed requests launched post executed b load)
    (hmid : ∀ x ∈ load, ¬ x.IsMidway k g) {σ : SlotId} {r : ObjectId} {s : RunStatus α}
    (hs : b.table.Holds σ r s) :
    s.remainingSinks = g.sinks.countP fun v => (v, r) ∉ executed := by
  obtain ⟨q, -, -, hb⟩ := h.request_of_holds hs
  rw [hb.counts.sinks_eq]
  refine List.countP_congr fun v hv => ?_
  have hfinished : (post r v).progress.finished = (post r v).progress.fired := by
    rcases h.post_of_not_midway hmid r v with hp | ⟨slot, hp⟩ | hp <;> rw [hp] <;> rfl
  rw [decide_eq_true_iff, h.chronicle.mem_iff (hg.mem_sinks.mp hv).1, hfinished]
  simp

end Sound

namespace World

variable {w : World α} {b : Binding α} {t : Tenure α} {ts : List (Tenure α)} {T : List (Deed α)}

/-- A run is under way, as its history has it, exactly if it holds a slot. -/
theorem Recorded.underway_iff (h : w.Recorded k T) (hb : w.scheduler.binding = some b)
    (hts : w.tenures = t :: ts) {r : ObjectId} : Deed.Underway T r ↔ b.table.InFlight r := by
  obtain ⟨-, hc, hr, -⟩ := h.precedence hb hts
  have hended : r ∈ Deed.ended T ↔ r ∈ Deed.launched T ∧ ¬ b.table.InFlight r := hr.ended_iff
  have hlaunched : b.table.InFlight r → r ∈ Deed.launched T := hc.launched_of_inFlight
  rw [Deed.Underway, hended]
  tauto

/-- Only accepted runs are in flight. -/
theorem Recorded.lt_of_inFlight (h : w.Recorded k T) (hb : w.scheduler.binding = some b)
    (hts : w.tenures = t :: ts) {r : ObjectId} (hr : b.table.InFlight r) :
    r < t.tickets.length :=
  ((h.mem_launched hb hts).mp ((h.underway_iff hb hts).mpr hr).1).1

/-- A pool holds as many entries as there are runs in flight that are due there. -/
theorem Recorded.numFull_eq (h : w.Recorded k T) (hb : w.scheduler.binding = some b)
    (hts : w.tenures = t :: ts) {q : Pool (Entry α)} (hnodup : q.tags.Nodup) {p : ObjectId → Prop}
    [DecidablePred p] (hq : ∀ r, r ∈ q.tags ↔ b.table.InFlight r ∧ p r) :
    q.numFull = t.underway T p := by
  rw [← q.length_entries, ← List.length_map (·.objectId)]
  refine Tenure.length_eq_countP (p := fun r => Deed.Underway T r ∧ p r)
    (h.reachable.orderly.running hb hts).numbers hnodup fun r => ?_
  rw [h.underway_iff hb hts]
  exact (hq r).trans ⟨fun hr => ⟨h.lt_of_inFlight hb hts hr.1, hr⟩, fun hr => hr.2⟩

/-- A node of a bound graph has as many pools as successors. -/
theorem Reachable.size_outgoing (h : w.Reachable k) (hb : w.scheduler.binding = some b)
    (hts : w.tenures = t :: ts) {v : NodeId} {s : Station α}
    (hs : b.graph.stations[v]? = some s) :
    s.outgoing.size = (t.graph.successors v).length := by
  obtain ⟨⟨g, depth, hg, hfreeze⟩, hused⟩ := h.used hb hts
  rcases g.freeze_cases depth with ⟨e, he⟩ | ⟨order, levels, -, -, -, he⟩
  · rw [hfreeze] at he
    cases he
  have hgraph : t.graph = g.prepare depth order levels := (Prod.mk.inj (hfreeze.symm.trans he)).2
  have hbranches := hused.branches v
  have hlt : v < g.nodes.size := by
    have hlt := (Array.getElem?_eq_some_iff.mp hs).1
    rw [hused.frame.size, (h.framed hb hts).1.linked.size_stations, hgraph] at hlt
    exact hlt
  obtain ⟨s', hs', -, hout⟩ := hg.linked.station_prepare depth order levels hlt
  rw [hs, hgraph, hs', Option.map_some, Option.map_some, Option.some.injEq, hout,
    Array.size_replicate] at hbranches
  rw [hbranches, hgraph]
  rfl

/-- Staged inputs wait at a source for the runs that it has not begun, and nowhere else. -/
theorem Recorded.numFull_staging (h : w.Recorded k T) (hb : w.scheduler.binding = some b)
    (hts : w.tenures = t :: ts) (hmid : ∀ x ∈ w.scheduler.threads.load, ¬ x.IsMidway k t.graph)
    {v : NodeId} (hv : v < t.graph.nodes.size) {q : Pool (Entry α)}
    (hq : b.graph.pool? (.staging v) = some q) :
    q.numFull = if t.graph.predecessors v = [] then
      t.underway T fun r => (v, r) ∉ t.executed else 0 := by
  have hrun := h.reachable.orderly.running hb hts
  obtain ⟨closed, launched, post, hsound, -⟩ := hrun.sound
  have hsources : v ∈ b.graph.sources ↔ t.graph.predecessors v = [] := by
    rw [hsound.alike.sources, hrun.frozen.mem_sources, and_iff_right hv]
  split
  · next hsource =>
    obtain ⟨p, hp, hnodup, hmem⟩ := (hsound.exact hrun.frozen hmid).staging (hsources.mpr hsource)
    obtain rfl : q = p := Option.some.inj (hq.symm.trans hp)
    exact h.numFull_eq hb hts hnodup hmem
  · next hsource =>
    have hempty := hsound.laid.unused (c := .staging v) fun hc => hsource (hsources.mp hc)
    rw [Graph.entriesAt_of_pool hq] at hempty
    rw [← q.length_entries, hempty]
    rfl

/-- **A node is seen as it is.** -/
theorem Recorded.tells_node (h : w.Recorded k T) (hb : w.scheduler.binding = some b)
    (hts : w.tenures = t :: ts) (hmid : ∀ x ∈ w.scheduler.threads.load, ¬ x.IsMidway k t.graph)
    {n : NodeView Nat} (hn : n ∈ b.graph.nodeViews) :
    n.Tells t T w.scheduler.settings.pipelineDepth := by
  have hrun := h.reachable.orderly.running hb hts
  obtain ⟨closed, launched, post, hsound, -⟩ := hrun.sound
  obtain ⟨hbuilt, hframe⟩ := h.reachable.framed hb hts
  obtain ⟨m, s, hm, hs, hview⟩ := Graph.mem_nodeViews.mp hn
  have hv : n.node < t.graph.nodes.size := hframe.nodes ▸ (Array.getElem?_eq_some_iff.mp hm).1
  have hsucc : b.graph.successors n.node = t.graph.successors n.node :=
    hsound.alike.successors n.node
  -- the pools of the node are those of its edges
  have hsize := h.reachable.size_outgoing hb hts hs
  have hpools := (hframe.built hbuilt).linked.map_outgoing hs (hsucc ▸ hsize)
  have hlaid := fun p => hsound.laid.of_map_outgoing hpools (p := p)
  rw [hsucc] at hpools
  rw [hview]
  constructor
  · refine Graph.map_of_map_outgoing hpools fun u hu p hp => ?_
    obtain ⟨p', hp', hnodup, hmem⟩ := (hsound.exact hrun.frozen hmid).edge (hsucc ▸ hu)
    obtain rfl : p = p' := Option.some.inj (hp.symm.trans hp')
    exact h.numFull_eq hb hts hnodup hmem
  · refine (Pool.total_numFree fun p hp => (hlaid p hp).1).trans ?_
    rw [Array.length_toList, hsize]
    rfl
  · exact h.numFull_staging hb hts hmid hv (by rw [Graph.pool?, hs]; rfl)
  · refine (Pool.total_eq_sum ..).trans (List.sum_eq_zero fun x hx => ?_)
    obtain ⟨p, hp, rfl⟩ := List.mem_map.mp hx
    exact (hlaid p hp).2
  · intro count hlife
    have hruns := h.runs hb hts n.node
    rw [hlife.runs hv, Graph.runsOf, Graph.tally, hs] at hruns
    exact Option.some.inj hruns

/-- The runs that wait have not got a slot, and were not cancelled. -/
theorem Recorded.length_backlog (h : w.Recorded k T) (hb : w.scheduler.binding = some b)
    (hts : w.tenures = t :: ts) : b.table.backlog.length =
      t.tickets.countP fun a => a.run ∉ Deed.launched T ∧ a.run ∉ t.cancelled := by
  have hrun := h.reachable.orderly.running hb hts
  obtain ⟨closed, launched, post, hsound, -⟩ := hrun.sound
  have hids := hsound.ledger.backlog_ids
  have hnodup : (b.table.backlog.map (·.objectId)).Nodup := by
    rw [hids]
    exact List.nodup_range'
  rw [← List.length_map (·.objectId)]
  refine Tenure.length_eq_countP (p := fun r => r ∉ Deed.launched T ∧ r ∉ t.cancelled)
    hrun.numbers hnodup fun r => ?_
  have hlaunched := h.mem_launched hb hts (r := r)
  have hlt : r ∈ b.table.backlog.map (·.objectId) → r < t.tickets.length := fun hr => by
    have hlt := hsound.ledger.lt_length_of_open (.inr hr)
    rwa [Tenure.requests, List.length_map] at hlt
  have hopen : r ∈ b.table.backlog.map (·.objectId) → r ∉ t.cancelled := fun hr hc =>
    hrun.docket.not_open hc (.inr hr)
  tauto

/-- **Snapshots tell the truth.** Whenever no execution is midway, what an observer sees of the
slots, of the backlog and of every node is what the history since the graph was bound comes to;
and a node counts its executions from the time that it was added. -/
theorem snapshots_tell_the_history (h : w.Reachable k) (hb : w.scheduler.binding = some b)
    (hmid : ∀ x ∈ w.scheduler.threads.load, ¬ x.IsMidway k b.graph) :
    (∃ T, w.Recorded k T) ∧ ∃ view t ts, w.scheduler.snapshot? = some view ∧
      w.tenures = t :: ts ∧ ∀ T, w.Recorded k T →
        view.Tells t T w.scheduler.settings.pipelineDepth := by
  obtain ⟨t, ts, hts, hrun, -⟩ := h.orderly.bound hb
  obtain ⟨closed, launched, post, hsound, -⟩ := hrun.sound
  refine ⟨h.recorded, b.snapshot, t, ts, by rw [Scheduler.snapshot?, hb]; rfl, hts,
    fun T hT => ?_⟩
  replace hmid : ∀ x ∈ w.scheduler.threads.load, ¬ x.IsMidway k t.graph := fun x hx hm =>
    hmid x hx ((hsound.alike.isMidway x).mpr hm)
  have hledger := hsound.ledger
  obtain ⟨hbuilt, hframe⟩ := h.framed hb hts
  obtain ⟨-, hc, -, -⟩ := hT.precedence hb hts
  constructor
  · exact Binding.pairwise_runViews b.table
  · refine Tenure.perm_filter hrun.numbers (Binding.nodup_runViews hledger) fun r => ?_
    rw [hT.underway_iff hb hts, and_iff_right_of_imp (hT.lt_of_inFlight hb hts)]
    exact Binding.mem_map_runViews hledger
  · intro e he
    obtain ⟨s, hs, hsinks⟩ := (Binding.mem_runViews_iff hledger).mp he
    exact ⟨hc.held_iff.mpr ⟨s, hs⟩, hsinks ▸ hsound.remainingSinks_eq hrun.frozen hmid hs⟩
  · exact hT.length_backlog hb hts
  · rw [← hframe.nodes]
    exact Graph.map_node_nodeViews (hframe.built hbuilt).linked.size_stations
  · exact fun n hn => hT.tells_node hb hts hmid hn

/-- The source of the relay has been executed for two runs, which the sink has not, and the
third run waits for a slot. -/
theorem snapshots_tell_the_history_relay :
    ∃ T view t, Relay.halfway.Recorded .dedicated T ∧
      Relay.halfway.scheduler.snapshot? = some view ∧ t ∈ Relay.halfway.tenures ∧
      view.Tells t T 2 ∧ (t.graph.Life fun _ => 0) ∧ view.backlog = 1 ∧
      view.nodes.map (fun n => (n.queueDepths, n.freeSlots, n.stagedInputs, n.runCount)) =
        [([2], 0, 0, 2), ([], 0, 0, 0)] := by
  obtain ⟨b, hb⟩ := Option.isSome_iff_exists.mp
    (show Relay.halfway.scheduler.binding.isSome by decide +kernel)
  have hidle : ∀ b ∈ Relay.halfway.scheduler.binding,
      ∀ x ∈ Relay.halfway.scheduler.threads.load, x.isEngaged .dedicated b.graph = false := by
    decide +kernel
  have hseen : ∀ b ∈ Relay.halfway.scheduler.binding, b.snapshot.backlog = 1 ∧
      b.snapshot.nodes.map (fun n => (n.queueDepths, n.freeSlots, n.stagedInputs, n.runCount)) =
        [([2], 0, 0, 2), ([], 0, 0, 0)] := by
    decide +kernel
  have hgraphs : Relay.halfway.tenures.map (·.graph) = [Relay.bound] := by cbv
  have hdepth : Relay.halfway.scheduler.settings.pipelineDepth = 2 := by decide +kernel
  obtain ⟨⟨T, hT⟩, view, t, ts, hview, hts, htells⟩ :=
    snapshots_tell_the_history Relay.reachable_halfway hb fun x hx hmid => by
      simp [Execution.IsMidway, hidle b hb x hx] at hmid
  obtain rfl : b.snapshot = view := by
    rw [Scheduler.snapshot?, hb] at hview
    exact Option.some.inj hview
  have hgraph : t.graph = Relay.bound := by
    rw [hts] at hgraphs
    exact (List.cons.inj hgraphs).1
  exact ⟨T, b.snapshot, t, hT, hview, hts ▸ List.mem_cons_self .., hdepth ▸ htells T hT,
    hgraph ▸ Relay.life_bound, hseen b hb⟩

end World

end Dataflow
