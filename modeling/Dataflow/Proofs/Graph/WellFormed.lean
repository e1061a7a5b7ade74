import Dataflow.Graph.Fire
import Dataflow.Proofs.Graph.Acyclic
import Dataflow.Proofs.Graph.Channels
import Dataflow.Snapshot.Basic

/-!
# Graphs are well-formed

A graph says many things twice: names are listed by node and nodes by name, an edge is
written into both of its ends, a frozen graph remembers what it has computed from its nodes,
and its pools have to fit its edges. `Graph.WellFormed` says that all of it agrees.

Every call either is refused, and then leaves the graph alone, or does one definite thing,
as `Graph.add_cases`, `Graph.precede_cases` and `Graph.freeze_cases` have it. So it is enough
to look at these few things to see that all graphs stay well-formed whatever is done to them,
`Graph.Raised.wellFormed`. What is done by hand to the entries of a graph does not matter,
because no pool changes its size.
-/

namespace Dataflow

variable {α : Type}

/-! ### No pool changes its size -/

namespace Pool

theorem capacity_store (p : Pool α) (x : Tagged α) : (p.store x).capacity = p.capacity := by
  unfold store
  split
  · next hs => exact Slots.size_of_fill hs
  · rfl

theorem capacity_push {p p' : Pool α} {x : Tagged α} (h : p.push x = some (.ok p')) :
    p'.capacity = p.capacity := by
  unfold push at h
  split at h
  · cases h
  have hpush : p.tryPush x = .ok p' := Option.some.inj h
  unfold tryPush at hpush
  split at hpush
  · cases hpush
  split at hpush
  · cases hpush
  split at hpush
  · cases hpush
  · obtain rfl := Except.ok.inj hpush
    exact p.capacity_store x

theorem capacity_takeTagged {p p' : Pool α} {id : ObjectId} {x : Tagged α}
    (h : p.takeTagged id = some (x, p')) : p'.capacity = p.capacity := by
  unfold takeTagged at h
  split at h
  · exact (takeAt_eq_some h).2.2.1
  · cases h

theorem capacity_popData (p : Pool (Entry α)) : p.popData.2.capacity = p.capacity := by
  have key : ∀ fuel (p : Pool (Entry α)), (popData.go fuel p).2.capacity = p.capacity := by
    intro fuel
    induction fuel with
    | zero => exact fun _ => rfl
    | succ fuel ih =>
      intro p
      unfold popData.go
      split
      · rfl
      · next hp => exact (takeAt_eq_some hp).2.2.1
      · next hp => exact (ih _).trans (takeAt_eq_some hp).2.2.1
  exact key p.numFull p

end Pool

/-! ### Well-formed graphs -/

/-- The numbers of slots that the pools of a node have: for staging, and for each branch. -/
def Station.sizes (p : Station α) : Nat × List Nat :=
  (p.staging.capacity, p.outgoing.toList.map (·.capacity))

namespace Graph

/-- The numbers of slots that a node calls for: none before the graph is frozen, and then
as many as runs may be in flight, for each successor, and for staging at a source. -/
def demand (g : Graph α) (n : Node α) : Nat × List Nat :=
  match g.plan with
  | none => (0, [])
  | some plan => (if n.isSource then plan.depth else 0,
      List.replicate n.successors.length plan.depth)

/-- **A graph that does not contradict itself.** -/
structure WellFormed (g : Graph α) : Prop where
  size_le : g.nodes.size ≤ sizeLimit
  /-- A node is known by its position. -/
  ids : g.nodeViews.map (·.node) = List.range g.nodes.size
  named : ∀ {name id}, g.byName? name = some id ↔ ∃ n, g.nodes[id]? = some n ∧ n.name = name
  linked : g.Linked
  known : ∀ {u v}, v ∈ g.successors u → u < g.nodes.size ∧ v < g.nodes.size
  acyclic : g.Acyclic
  /-- What a frozen graph remembers is what it would compute again. -/
  planned : ∀ {plan}, g.plan = some plan → ∃ levels,
    sortNodes g.nodes = .sorted plan.order levels ∧ plan.levels = levels.map (·.getD 0) ∧
      0 < plan.depth ∧ plan.depth ≤ sizeLimit
  sources : g.sources = g.collect (·.isSource)
  sinks : g.sinks = g.collect (·.isSink)
  furnished : g.stations.map (·.sizes) = g.nodes.map g.demand

/-- **What can be done to a graph**: it is built, frozen and thawed, and while it is used
entries come into pools and go out of them, pools are closed, and executions are counted.
Unlike `Graph.Built` this keeps an eye on the pools: none is replaced by one of another
size. -/
inductive Raised : Graph α → Prop where
  | empty : Raised .empty
  | add {g : Graph α} (h : Raised g) (name : String) (work : Option (Work α)) :
      Raised (g.add name work).2
  | precede {g : Graph α} (h : Raised g) (source target : NodeId) :
      Raised (g.precede source target).2
  | freeze {g : Graph α} (h : Raised g) (depth : Nat) : Raised (g.freeze depth).2
  | thaw {g : Graph α} (h : Raised g) : Raised g.thaw
  | setPool {g : Graph α} (h : Raised g) {c : Channel} {p p' : Pool (Entry α)}
      (hp : g.pool? c = some p) (hc : p'.capacity = p.capacity) : Raised (g.setPool c p')
  | closePools {g : Graph α} (h : Raised g) : Raised g.closePools
  | countRun {g : Graph α} (h : Raised g) (id : NodeId) : Raised (g.countRun id)
  | countCall {g : Graph α} (h : Raised g) (id : NodeId) : Raised (g.countCall id)

variable {g g' : Graph α}

/-- Such graphs are among those that a scheduler may meet. -/
theorem Raised.built (h : g.Raised) : g.Built := by
  induction h with
  | empty => exact .empty
  | add _ name work ih => exact ih.add name work
  | precede _ source target ih => exact ih.precede source target
  | freeze _ depth ih => exact ih.freeze depth
  | thaw _ ih => exact ih.thaw
  | @setPool g _ c p p' _ _ ih =>
    cases c with
    | staging id => exact ih.use (size_stations_setPool g (.staging id) p')
    | edge u v => exact ih.use (size_stations_setPool g (.edge u v) p')
  | closePools _ ih => exact ih.use (Array.size_map ..)
  | countRun _ id ih => exact ih.use (Array.size_modify ..)
  | countCall _ id ih => exact ih.use (Array.size_modify ..)

/-! ### What each call comes to -/

/-- The graph with one more node. -/
def extend (g : Graph α) (name : String) (work : Option (Work α)) : Graph α :=
  { g with
    nodes := g.nodes.push { name, work }
    names := g.names.insert name g.nodes.size
    stations := g.stations.push {} }

/-- A node is refused, or is added under the next number. -/
theorem add_cases (g : Graph α) (name : String) (work : Option (Work α)) :
    (∃ e, g.add name work = (.error e, g)) ∨
      g.plan = none ∧ g.byName? name = none ∧ g.nodes.size < sizeLimit ∧
        g.add name work = (.ok g.nodes.size, g.extend name work) := by
  unfold add
  split
  · exact Or.inl ⟨_, rfl⟩
  next hfrozen =>
  split
  · exact Or.inl ⟨_, rfl⟩
  next hname =>
  split
  · exact Or.inl ⟨_, rfl⟩
  next hsize =>
  refine Or.inr ⟨by simpa [isFrozen] using hfrozen, ?_, Nat.not_le.mp hsize, rfl⟩
  simpa [byName?] using hname

/-- A fresh name is refused only by a full graph. -/
theorem add_of_new {name : String} (work : Option (Work α)) (hp : g.plan = none)
    (hn : g.byName? name = none) (hle : g.nodes.size ≤ sizeLimit) : (g.add name work).1 =
      if g.nodes.size = sizeLimit then .error .tooManyNodes else .ok g.nodes.size := by
  have hname : ¬ g.names.contains name = true := by
    rw [byName?] at hn
    simpa using hn
  have hfrozen : ¬ g.isFrozen = true := by simp [isFrozen, hp]
  have hfull : sizeLimit ≤ g.nodes.size ↔ g.nodes.size = sizeLimit :=
    ⟨fun h => Nat.le_antisymm hle h, fun h => h.ge⟩
  rw [add, if_neg hfrozen, if_neg hname]
  simp only [hfull]
  split <;> rfl

/-- Freezing is refused, or gives the graph the plan that the sort of its nodes yields. -/
theorem freeze_cases (g : Graph α) (depth : Nat) :
    (∃ e, g.freeze depth = (.error e, g)) ∨
      ∃ order levels, sortNodes g.nodes = .sorted order levels ∧ 0 < depth ∧ depth ≤ sizeLimit ∧
        g.freeze depth = (.ok (), g.prepare depth order levels) := by
  unfold freeze
  split
  · exact Or.inl ⟨_, rfl⟩
  next hdepth =>
  split
  · exact Or.inl ⟨_, rfl⟩
  split
  · exact Or.inl ⟨_, rfl⟩
  split
  · next order levels hs =>
    simp only [Bool.or_eq_true, decide_eq_true_eq, not_or, Nat.not_lt] at hdepth
    exact Or.inr ⟨order, levels, hs, Nat.pos_of_ne_zero hdepth.1, hdepth.2, rfl⟩
  · exact Or.inl ⟨_, rfl⟩

/-! ### What keeps a graph well-formed -/

theorem demand_of_plan (h : g'.plan = g.plan) (n : Node α) : g'.demand n = g.demand n := by
  simp only [demand, h]

/-- A station for each node is enough for the numbers to be those of the nodes. -/
theorem map_node_nodeViews (h : g.stations.size = g.nodes.size) :
    g.nodeViews.map (·.node) = List.range g.nodes.size := by
  unfold nodeViews
  rw [List.map_filterMap]
  refine (List.filterMap_congr fun id hid => ?_).trans List.filterMap_some
  have hlt := List.mem_range.mp hid
  have hlt' : id < g.stations.size := h ▸ hlt
  simp [nodeView?, hlt, hlt', nodeView]

/-- A graph without a plan has nothing to remember, so only its nodes, its names and its
pools count. -/
theorem WellFormed.of_unfrozen (hp : g.plan = none) (size_le : g.nodes.size ≤ sizeLimit)
    (named : ∀ {name id}, g.byName? name = some id ↔ ∃ n, g.nodes[id]? = some n ∧ n.name = name)
    (linked : g.Linked) (acyclic : g.Acyclic)
    (bare : ∀ p ∈ g.stations, p.sizes = (0, [])) : g.WellFormed where
  size_le := size_le
  ids := map_node_nodeViews linked.size_stations
  named := named
  linked := linked
  known := fun hv => ⟨lt_of_mem_successors hv, linked.target_lt hv⟩
  acyclic := acyclic
  planned := by simp [hp]
  sources := by simp [Graph.sources, hp]
  sinks := by simp [Graph.sinks, hp]
  furnished := by
    have hdemand : ∀ n ∈ g.nodes, g.demand n = (0, []) := fun n _ => by simp [demand, hp]
    rw [Array.map_congr_left bare, Array.map_congr_left hdemand, Array.map_const',
      Array.map_const', linked.size_stations]

/-- The pools of a graph without a plan have no slots. -/
theorem WellFormed.bare (h : g.WellFormed) (hp : g.plan = none) {p : Station α}
    (hm : p ∈ g.stations) : p.sizes = (0, []) := by
  have hs : p.sizes ∈ g.nodes.map g.demand := h.furnished ▸ Array.mem_map_of_mem hm
  obtain ⟨n, -, hn⟩ := Array.mem_map.mp hs
  rw [← hn, demand, hp]

theorem wellFormed_empty : (empty : Graph α).WellFormed :=
  .of_unfrozen rfl (Nat.zero_le _) (by simp [byName?, empty]) linked_empty acyclic_empty
    (by simp [empty])

/-- A fresh name may be given to a new node. -/
theorem WellFormed.extend (h : g.WellFormed) (name : String) (work : Option (Work α))
    (hp : g.plan = none) (hnew : g.byName? name = none) (hsize : g.nodes.size < sizeLimit) :
    (g.extend name work).WellFormed := by
  refine .of_unfrozen hp ?_ ?_ (h.linked.push name work _) ?_ ?_
  · simp only [Graph.extend, Array.size_push]
    exact hsize
  · intro s id
    have hfree : ∀ {i : NodeId} {n : Node α}, g.nodes[i]? = some n → n.name ≠ name := by
      intro i n hn he
      have hi := h.named.mpr ⟨n, hn, he⟩
      rw [hnew] at hi
      cases hi
    simp only [byName?, Graph.extend, Std.HashMap.getElem?_insert, beq_iff_eq, Array.getElem?_push]
    by_cases hs : name = s <;> by_cases hid : id = g.nodes.size
    · simp [hs, hid]
    · refine iff_of_false (by simpa [hs] using Ne.symm hid) ?_
      rintro ⟨n, hn, rfl⟩
      rw [if_neg hid] at hn
      exact hfree hn hs.symm
    · refine iff_of_false ?_ (by simp [hid, hs])
      rw [if_neg hs]
      intro hi
      obtain ⟨n, hn, -⟩ := h.named.mp hi
      exact absurd (Array.getElem?_eq_some_iff.mp hn).1 (by simp [hid])
    · rw [if_neg hs, if_neg hid]
      exact h.named
  · exact h.acyclic.of_successors fun u => successorsAt_push g.nodes name work u
  · intro p hm
    rcases Array.mem_push.mp hm with hm | rfl
    · exact h.bare hp hm
    · rfl

/-- Writing an edge renames nobody. -/
theorem name_link (g : Graph α) (source target id : NodeId) :
    (g.link source target).nodes[id]?.map (·.name) = g.nodes[id]?.map (·.name) := by
  simp only [link, Array.getElem?_modify]
  split <;> split <;> cases g.nodes[id]? <;> rfl

/-- An edge may be added that is new and closes no cycle. -/
theorem WellFormed.link (h : g.WellFormed) {source target : NodeId} (hp : g.plan = none)
    (hs : source < g.nodes.size) (ht : target < g.nodes.size) (hno : ¬ g.Leads target source)
    (hnew : target ∉ g.successors source) : (g.link source target).WellFormed := by
  refine .of_unfrozen hp ?_ ?_ (h.linked.link hs ht hnew) (h.acyclic.link hs hno) ?_
  · simpa [Graph.link] using h.size_le
  · intro name id
    have hname := name_link g source target id
    refine h.named.trans ?_
    rw [← Option.map_eq_some_iff, ← Option.map_eq_some_iff, hname]
  · intro p hm
    exact h.bare hp hm

/-- Fresh pools are as many and as large as a node calls for. -/
theorem sizes_allocate (p : Station α) (n : Node α) (depth : Nat) :
    (p.allocate n (.new depth)).sizes =
      (if n.isSource then depth else 0, List.replicate n.successors.length depth) := by
  simp only [Station.allocate, Station.sizes, Array.toList_replicate, List.map_replicate,
    Pool.capacity_new]
  split <;> rw [Pool.capacity_new]

/-- A graph may be frozen along an order of its nodes. -/
theorem WellFormed.prepare (h : g.WellFormed) {depth : Nat} {order : Array NodeId}
    {levels : Array (Option Nat)} (hs : sortNodes g.nodes = .sorted order levels) (hd : 0 < depth)
    (hle : depth ≤ sizeLimit) : (g.prepare depth order levels).WellFormed where
  size_le := h.size_le
  ids := map_node_nodeViews (by simp [Graph.prepare, h.linked.size_stations])
  named := h.named
  linked := h.linked.of_nodes rfl (by simp [Graph.prepare, h.linked.size_stations])
  known := h.known
  acyclic := h.acyclic.of_successors fun _ => rfl
  planned := by
    intro plan hp
    obtain rfl := Option.some.inj hp
    exact ⟨levels, hs, rfl, hd, hle⟩
  sources := rfl
  sinks := rfl
  furnished := by
    refine Array.ext_getElem? fun id => ?_
    have hsize := h.linked.size_stations
    simp only [Graph.prepare, Array.getElem?_map, Array.getElem?_mapIdx]
    cases hp : g.stations[id]? with
    | none =>
      have hlt : g.nodes.size ≤ id := hsize ▸ Array.getElem?_eq_none_iff.mp hp
      simp [Array.getElem?_eq_none hlt]
    | some p =>
      obtain ⟨n, hn⟩ := node_of_lt (hsize ▸ (Array.getElem?_eq_some_iff.mp hp).1)
      simp [hn, sizes_allocate, demand]

/-- Thawing takes the plan back and the pools with it. -/
theorem WellFormed.thaw (h : g.WellFormed) : g.thaw.WellFormed := by
  refine .of_unfrozen rfl h.size_le h.named (h.linked.of_nodes rfl ?_)
    (h.acyclic.of_successors fun _ => rfl) ?_
  · simp [Graph.thaw, h.linked.size_stations]
  · intro p hm
    obtain ⟨q, -, rfl⟩ := Array.mem_map.mp hm
    simp [Station.release, Station.sizes]

/-- **Whoever has the same nodes, names and plan**, and pools of the same sizes, is as
well-formed. -/
theorem WellFormed.of_same (h : g.WellFormed) (hnodes : g'.nodes = g.nodes)
    (hnames : g'.names = g.names) (hplan : g'.plan = g.plan)
    (hsizes : g'.stations.map (·.sizes) = g.stations.map (·.sizes)) : g'.WellFormed := by
  have ha : g.Alike g' := ⟨hnodes, hplan⟩
  have hs : g'.stations.size = g'.nodes.size := by
    have := congrArg Array.size hsizes
    simpa [hnodes, h.linked.size_stations] using this
  exact {
    size_le := hnodes ▸ h.size_le
    ids := map_node_nodeViews hs
    named := by
      intro name id
      rw [byName?, hnames, hnodes]
      exact h.named
    linked := h.linked.of_nodes hnodes hs
    known := by
      intro u v hv
      rw [hnodes]
      exact h.known (ha.successors u ▸ hv)
    acyclic := h.acyclic.of_successors ha.successors
    planned := by
      intro plan hp
      rw [hnodes]
      exact h.planned (hplan ▸ hp)
    sources := by
      rw [ha.sources, h.sources]
      simp only [collect, hnodes]
    sinks := by
      rw [ha.sinks, h.sinks]
      simp only [collect, hnodes]
    furnished := by
      rw [hsizes, h.furnished, hnodes]
      exact congrArg (Array.map · g.nodes) (funext fun n => (demand_of_plan hplan n).symm) }

/-- What changes at a station is free, but for the sizes of its pools. -/
theorem WellFormed.modify (h : g.WellFormed) (id : NodeId) {f : Station α → Station α}
    (hf : ∀ p, g.stations[id]? = some p → (f p).sizes = p.sizes) :
    ({ g with stations := g.stations.modify id f } : Graph α).WellFormed := by
  refine h.of_same rfl rfl rfl (Array.ext_getElem? fun i => ?_)
  simp only [Array.getElem?_map, Array.getElem?_modify]
  split
  · next hi =>
    cases hp : g.stations[i]? with
    | none => rfl
    | some p => exact congrArg some (hf p (hi ▸ hp))
  · rfl

/-- A pool may be replaced by one of the same size. -/
theorem WellFormed.setPool (h : g.WellFormed) {c : Channel} {p p' : Pool (Entry α)}
    (hp : g.pool? c = some p) (hc : p'.capacity = p.capacity) : (g.setPool c p').WellFormed := by
  cases c with
  | staging id =>
    refine h.modify id fun q hq => ?_
    obtain rfl : q.staging = p := by simpa [pool?, hq] using hp
    simp only [Station.sizes, hc]
  | edge u v =>
    refine h.modify u fun q hq => ?_
    have hpool : q.outgoing[Node.branchAt g.nodes u v]? = some p := by simpa [pool?, hq] using hp
    have hset : (q.outgoing.setIfInBounds (Node.branchAt g.nodes u v) p').map (·.capacity) =
        q.outgoing.map (·.capacity) := by
      refine Array.ext_getElem? fun i => ?_
      simp only [Array.getElem?_map, Array.getElem?_setIfInBounds]
      split
      · next hi =>
        subst hi
        rw [if_pos (Array.getElem?_eq_some_iff.mp hpool).1, hpool]
        exact congrArg some hc
      · rfl
    have hlist := congrArg Array.toList hset
    simp only [Array.toList_map] at hlist
    simp only [Station.sizes, hlist]

/-- **All graphs are well-formed.** -/
theorem Raised.wellFormed (h : g.Raised) : g.WellFormed := by
  induction h with
  | empty => exact wellFormed_empty
  | @add g _ name work ih =>
    rcases g.add_cases name work with ⟨e, he⟩ | ⟨hp, hnew, hsize, he⟩
    · rwa [he]
    · rw [he]
      exact ih.extend name work hp hnew hsize
  | @precede g _ source target ih =>
    rcases g.precede_cases source target with ⟨e, he⟩ | ⟨hp, hs, ht, hno, hnew, he⟩
    · rwa [he]
    · rw [he]
      exact ih.link hp hs ht hno hnew
  | @freeze g _ depth ih =>
    rcases g.freeze_cases depth with ⟨e, he⟩ | ⟨order, levels, hs, hd, hle, he⟩
    · rwa [he]
    · rw [he]
      exact ih.prepare hs hd hle
  | thaw _ ih => exact ih.thaw
  | setPool _ hp hc ih => exact ih.setPool hp hc
  | @closePools g _ ih =>
    refine ih.of_same rfl rfl rfl (Array.map_map.trans ?_)
    refine Array.map_congr_left fun p _ => ?_
    simp [Station.close, Station.sizes, Pool.close, Pool.capacity, Function.comp_def]
  | countRun _ id ih => exact ih.modify id fun _ _ => rfl
  | countCall _ id ih => exact ih.modify id fun _ _ => rfl

/-! ### Using a graph by hand -/

/-- Entries are taken by replacing a pool by one of the same size. -/
theorem Raised.take (h : g.Raised) {c : Channel} {run : ObjectId} {e : Entry α}
    {p : Pool (Entry α)} (he : g.entryOf? c run = some (e, p)) : (g.setPool c p).Raised := by
  unfold entryOf? at he
  split at he
  · next x p' hx =>
    obtain ⟨q, hq, hx⟩ := Option.bind_eq_some_iff.mp hx
    obtain ⟨-, rfl⟩ : x.payload = e ∧ p' = p := by simpa using he
    exact h.setPool hq (Pool.capacity_takeTagged hx)
  · cases he

theorem Raised.takeInputs (h : g.Raised) (run : ObjectId) (taken : List (Entry α))
    (cs : List Channel) : (g.takeInputs run taken cs).2.Raised := by
  induction cs generalizing g taken with
  | nil => exact h
  | cons c cs ih =>
    unfold Graph.takeInputs
    split
    · next he => exact ih (h.take he) _
    · exact h

theorem Raised.deliver (h : g.Raised) (run : ObjectId) (ds : Deliveries α) :
    (g.deliver run ds).1.Raised := by
  induction ds generalizing g with
  | nil => exact h
  | cons d ds ih =>
    unfold Graph.deliver
    split
    · exact ih h
    next p hp =>
    split
    · exact h
    · next hpush => exact ih (h.setPool hp (Pool.capacity_push hpush))
    · exact ih h

theorem Raised.launch [Payload α] (h : g.Raised) (id : NodeId) (run : ObjectId) :
    (g.launch id run).2.Raised := by
  unfold Graph.launch
  split
  · exact h
  split
  · exact h
  next n hn =>
  have ht := h.takeInputs run [] (g.inlets id)
  split
  · next hr => rwa [hr] at ht
  · next hr =>
    rw [hr] at ht
    dsimp only
    split
    · exact (ht.countCall id).countRun id
    · exact ht.countRun id

theorem Raised.fire [Payload α] (h : g.Raised) (id : NodeId) (run : ObjectId) :
    (g.fire id run).2.Raised :=
  (h.launch id run).deliver run _

theorem Raised.stage (h : g.Raised) {id : NodeId} {x : Tagged α}
    (hs : g.stage id x = some (.ok g')) : g'.Raised := by
  unfold Graph.stage at hs
  split at hs
  · cases hs
  next p hp =>
  split at hs
  · cases hs
  · next hpush =>
    obtain rfl := Except.ok.inj (Option.some.inj hs)
    exact h.setPool hp (Pool.capacity_push hpush)
  · cases hs

theorem Raised.pushAll (h : g.Raised) (run : ObjectId) (ds : Deliveries α) :
    (g.pushAll run ds).2.Raised := by
  induction ds generalizing g with
  | nil => exact h
  | cons d ds ih =>
    unfold Graph.pushAll
    split
    · next hpush =>
      obtain ⟨p, hp, hpush⟩ := Option.bind_eq_some_iff.mp hpush
      exact ih (h.setPool hp (Pool.capacity_push hpush))
    · exact h

theorem Raised.pushOutput [Payload α] (h : g.Raised) (id : NodeId) (n : Node α) (x : Tagged α) :
    (g.pushOutput id n x).2.Raised := by
  unfold Graph.pushOutput
  split
  · exact h
  split
  · exact h
  · exact h.pushAll ..

theorem Raised.popOutput (h : g.Raised) (id : NodeId) (branch : Nat) :
    (g.popOutput id branch).2.Raised := by
  unfold Graph.popOutput
  split
  · exact h
  split
  · exact h
  · next hp => exact h.setPool hp (Pool.capacity_popData _)

/-! ### Refusals -/

/-- **What is refused for the sake of the graph leaves it as it was**, with its pools and
what they hold. -/
structure Unharmed [Payload α] (g : Graph α) : Prop where
  add : ∀ {name work e}, (g.add name work).1 = .error e → (g.add name work).2 = g
  precede : ∀ {source target e}, (g.precede source target).1 = .error e →
    (g.precede source target).2 = g
  freeze : ∀ {depth e}, (g.freeze depth).1 = .error e → (g.freeze depth).2 = g
  fire : ∀ {id run e}, (g.fire id run).1 = .error (.graph e) → (g.fire id run).2 = g
  pushOutput : ∀ {id n x e}, (g.pushOutput id n x).1 = .error (.graph e) →
    (g.pushOutput id n x).2 = g

/-- An execution that the graph refuses has taken nothing. -/
theorem launch_of_refused [Payload α] {id : NodeId} {run : ObjectId} {e : GraphError}
    (h : (g.launch id run).1.answer = .error (.graph e)) :
    g.launch id run = (.refused (.graph e), g) := by
  unfold launch at h ⊢
  split
  · simp_all [Launch.refused, Launch.answer]
  next hfrozen =>
  rw [if_neg hfrozen] at h
  split at h
  · simp_all [Launch.refused, Launch.answer]
  next n hn =>
  split at h
  · simp [Launch.refused, Launch.answer] at h
  · simp only [Launch.answer] at h
    split at h <;> cases h

/-- Publishing fails for the graph only if it is not frozen. -/
theorem pushAll_ne_graph (g : Graph α) (run : ObjectId) (ds : Deliveries α) (e : GraphError) :
    (g.pushAll run ds).1 ≠ .error (.graph e) := by
  induction ds generalizing g with
  | nil => simp [pushAll]
  | cons d ds ih =>
    unfold pushAll
    split
    · exact ih _
    · simp

theorem unharmed [Payload α] (g : Graph α) : g.Unharmed where
  add := by
    intro name work e h
    rcases g.add_cases name work with ⟨e, he⟩ | ⟨-, -, -, he⟩
    · rw [he]
    · rw [he] at h
      cases h
  precede := by
    intro source target e h
    rcases g.precede_cases source target with ⟨e, he⟩ | ⟨-, -, -, -, -, he⟩
    · rw [he]
    · rw [he] at h
      cases h
  freeze := by
    intro depth e h
    rcases g.freeze_cases depth with ⟨e, he⟩ | ⟨_, _, -, -, -, he⟩
    · rw [he]
    · rw [he] at h
      cases h
  fire := by
    intro id run e h
    have hl : g.launch id run = (.refused (.graph e), g) := launch_of_refused h
    simp only [fire, hl, Launch.refused, Launch.deliveries, deliver]
  pushOutput := by
    intro id n x e h
    unfold pushOutput at h ⊢
    split
    · rfl
    next hsize =>
    rw [if_neg hsize] at h
    split
    · rfl
    · next hfan =>
      rw [hfan] at h
      exact (pushAll_ne_graph _ _ _ _ h).elim

/-! ### What there is to know about a graph -/

/-- What a well-formed graph has computed is what frozen graphs are known to be. -/
theorem WellFormed.frozen (h : g.WellFormed) (hf : g.isFrozen = true) : g.Frozen := by
  obtain ⟨plan, hp⟩ := Option.isSome_iff_exists.mp hf
  obtain ⟨levels, hs, -⟩ := h.planned hp
  have horder : g.order = plan.order := by simp only [order, hp]
  obtain ⟨hperm, hbefore⟩ := sortNodes_spec hs
  refine ⟨h.linked, hf, h.sources, h.sinks, horder ▸ hperm, ?_⟩
  intro l r v he
  exact hbefore l v r (horder ▸ he)

/-- **Whatever is done to a graph**, it does not contradict itself, its order is one of all
its nodes along the edges once it is frozen, a fresh name is refused by a full graph alone,
and a refusal leaves everything as it was. -/
theorem Raised.coherent [Payload α] (h : g.Raised) :
    g.WellFormed ∧ (g.isFrozen = true → g.Frozen) ∧
      (∀ name work, g.isFrozen = false → g.byName? name = none → (g.add name work).1 =
        if g.nodes.size = sizeLimit then .error .tooManyNodes else .ok g.nodes.size) ∧
      g.Unharmed := by
  have hw := h.wellFormed
  refine ⟨hw, hw.frozen, fun name work hf hn => ?_, g.unharmed⟩
  exact add_of_new work (by simpa [isFrozen] using hf) hn hw.size_le

/-- Such a graph has two nodes and an edge, and was frozen for two runs. -/
theorem coherent_pair :
    let g : Graph Nat :=
      ((((Graph.empty.add "a" none).2.add "b" none).2.precede 0 1).2.freeze 2).2
    g.Raised ∧ g.WellFormed ∧ (g.isFrozen = true → g.Frozen) ∧
      (∀ name work, g.isFrozen = false → g.byName? name = none → (g.add name work).1 =
        if g.nodes.size = sizeLimit then .error .tooManyNodes else .ok g.nodes.size) ∧
      g.Unharmed := by
  intro g
  have h : g.Raised := (((Raised.empty.add "a" none).add "b" none).precede 0 1).freeze 2
  exact ⟨h, Raised.coherent h⟩

example :
    let g : Graph Nat :=
      ((((Graph.empty.add "a" none).2.add "b" none).2.precede 0 1).2.freeze 2).2
    g.order = #[0, 1] ∧ g.byName? "b" = some 1 ∧
      (g.precede 1 0).1 = .error .frozen ∧ (g.thaw.precede 1 0).1 = .error .cycleDetected := by
  cbv

end Graph

end Dataflow
