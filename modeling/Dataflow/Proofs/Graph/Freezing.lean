import Dataflow.Proofs.Graph.Edges
import Dataflow.Proofs.Graph.Placing
import Dataflow.Proofs.Graph.WellFormed

/-!
# When freezing is successful, and what it makes

No edge was accepted that closes a cycle, so the sort of the nodes of a graph is always
successful, and freezing has nothing to object to but what can be seen without it:
`Graph.freezeErrors`. What it makes of a graph does not depend on what the pools of the graph
held before, `Graph.Furnished`.
-/

namespace Dataflow

/-- Objections that do not apply may be left out of consideration. -/
theorem FirstError.after {ε β : Type} {x : β} {before rest : List (Prop × ε)}
    {answer : Except ε β} (hbefore : ∀ o ∈ before, ¬ o.1) (h : FirstError x rest answer) :
    FirstError x (before ++ rest) answer := by
  induction before with
  | nil => exact h
  | cons o before ih =>
    rw [List.forall_mem_cons] at hbefore
    exact .next hbefore.1 (ih hbefore.2)

/-- An error is due to an objection that applies. -/
theorem FirstError.of_error {ε β : Type} {x : β} {objections : List (Prop × ε)}
    {answer : Except ε β} (h : FirstError x objections answer) {e : ε} (he : answer = .error e) :
    ∃ p, (p, e) ∈ objections ∧ p := by
  induction h with
  | accepted => cases he
  | @rejected p e' rest hp =>
    obtain rfl : e' = e := Except.error.inj he
    exact ⟨p, List.mem_cons_self .., hp⟩
  | next _ _ ih =>
    obtain ⟨p, hmem, hp⟩ := ih he
    exact ⟨p, List.mem_cons_of_mem _ hmem, hp⟩

namespace Pool

variable {α : Type}

/-- An open pool of so many slots that holds nothing. -/
structure Vacant (p : Pool α) (capacity : Nat) : Prop where
  capacity_eq : p.capacity = capacity
  entries_eq : p.entries = []
  isOpen : p.isClosed = false

theorem vacant_new (n : Nat) : (new n : Pool α).Vacant n :=
  ⟨capacity_new n, rfl, rfl⟩

end Pool

namespace Graph

variable {α : Type} {g g' : Graph α} {depth : Nat}

/-! ### The sort is always successful -/

/-- The neighbour lists of a graph mirror each other. -/
theorem Linked.mirrored (h : g.Linked) : Node.Mirrored g.nodes :=
  ⟨h.mem_predecessors, h.nodup_predecessors, h.nodup_successors⟩

/-- No graph has more nodes than numbers go round. -/
theorem Built.size_le (h : g.Built) : g.nodes.size ≤ sizeLimit := by
  induction h with
  | empty => exact Nat.zero_le _
  | @add g _ name work ih =>
    rcases g.add_cases name work with ⟨e, he⟩ | ⟨-, -, hsize, he⟩
    · rwa [he]
    · rw [he]
      simpa [extend] using hsize
  | @precede g _ source target ih =>
    rcases g.precede_cases source target with ⟨e, he⟩ | ⟨-, -, -, -, -, he⟩
    · rwa [he]
    · rw [he]
      simpa [link] using ih
  | freeze _ depth ih => rwa [nodes_freeze]
  | thaw _ ih => exact ih
  | use _ _ ih => exact ih

/-- **The nodes of every graph can be arranged.** -/
theorem Built.sorted (h : g.Built) : ∃ order levels,
    sortNodes g.nodes = .sorted order levels ∧ Node.Arranged g.nodes order levels := by
  rcases sortNodes_cases h.linked.mirrored h.size_le with ⟨-, v, hv⟩ | hsorted
  · exact absurd hv (h.acyclic v)
  · exact hsorted

/-! ### Objections -/

/-- A node without callback that would have to forward several inputs at once. -/
def Ambiguous (g : Graph α) (id : NodeId) : Prop :=
  ∃ n, g.nodes[id]? = some n ∧ n.work = none ∧ 2 ≤ n.predecessors.length

/-- **The objections to freezing**, in the order in which they are looked into. -/
def freezeErrors (g : Graph α) (depth : Nat) : List (Prop × GraphError) :=
  (depth = 0 ∨ sizeLimit < depth, .invalidPipelineDepth depth) :: (g.nodes.size = 0, .emptyGraph) ::
    (List.range g.nodes.size).map fun id => (g.Ambiguous id, .ambiguousPassThrough id)

theorem ambiguous_iff {n : Node α} {id : NodeId} (hn : g.nodes[id]? = some n) :
    g.Ambiguous id ↔ n.isAmbiguous = true := by
  simp only [Ambiguous, hn, Option.some.injEq, exists_eq_left', Node.isAmbiguous, Node.hasWork,
    Bool.and_eq_true, Bool.not_eq_true', Option.isSome_eq_false_iff, Option.isNone_iff_eq_none,
    decide_eq_true_eq]
  rfl

/-- The node that is reported is the first ambiguous one. -/
theorem ambiguous?_eq_some {id : NodeId} (h : g.ambiguous? = some id) :
    id < g.nodes.size ∧ g.Ambiguous id ∧ ∀ v < id, ¬ g.Ambiguous v := by
  obtain ⟨hlt, hid, hbefore⟩ := Array.findIdx?_eq_some_iff_getElem.mp h
  refine ⟨hlt, (ambiguous_iff (Array.getElem?_eq_getElem hlt)).mpr hid, fun v hv => ?_⟩
  rw [ambiguous_iff (Array.getElem?_eq_getElem (hv.trans hlt))]
  exact hbefore v hv

theorem ambiguous?_eq_none (h : g.ambiguous? = none) (v : NodeId) : ¬ g.Ambiguous v := by
  rintro ⟨n, hn, hv⟩
  refine absurd ((ambiguous_iff hn).mp ⟨n, hn, hv⟩) ?_
  rw [Array.findIdx?_eq_none_iff.mp h n (Array.mem_of_getElem? hn)]
  decide

/-- **Freezing answers with the first objection**, and there is no other. -/
theorem Built.freeze_firstError (h : g.Built) (depth : Nat) :
    FirstError () (g.freezeErrors depth) (g.freeze depth).1 := by
  obtain ⟨order, levels, hs, -⟩ := h.sorted
  unfold Graph.freeze freezeErrors
  split
  · next hdepth =>
    rw [Bool.or_eq_true, decide_eq_true_eq, decide_eq_true_eq] at hdepth
    exact .rejected hdepth
  next hdepth =>
  rw [Bool.or_eq_true, decide_eq_true_eq, decide_eq_true_eq] at hdepth
  refine .next hdepth ?_
  split
  · next hempty => exact .rejected (Array.isEmpty_iff_size_eq_zero.mp hempty)
  next hempty =>
  refine .next (fun hsize => hempty (Array.isEmpty_iff_size_eq_zero.mpr hsize)) ?_
  split
  · next id hid =>
    obtain ⟨hlt, hambiguous, hfirst⟩ := ambiguous?_eq_some hid
    obtain ⟨l, r, he⟩ := List.append_of_mem (List.mem_range.mpr hlt)
    have hbefore : ∀ v ∈ l, v < id := by
      have hsorted := List.pairwise_lt_range (n := g.nodes.size)
      rw [he, List.pairwise_append] at hsorted
      exact fun v hv => hsorted.2.2 v hv id (List.mem_cons_self ..)
    rw [he, List.map_append, List.map_cons]
    refine .after (fun o ho => ?_) (.rejected hambiguous)
    obtain ⟨v, hv, rfl⟩ := List.mem_map.mp ho
    exact hfirst v (hbefore v hv)
  · next hnone =>
    rw [hs, ← List.append_nil (List.map _ _)]
    refine .after (fun o ho => ?_) .accepted
    obtain ⟨v, -, rfl⟩ := List.mem_map.mp ho
    exact ambiguous?_eq_none hnone v

/-! ### What freezing makes -/

/-- **What freezing makes of a graph**: nodes, names and counts are as before, the order is
one along the edges, and all pools are open and empty, those of the edges and those for the
inputs of the sources with as many slots as runs may be in flight. -/
structure Furnished (g : Graph α) (depth : Nat) (g' : Graph α) : Prop where
  nodes : g'.nodes = g.nodes
  names : g'.names = g.names
  counts : g'.stations.map (fun p => (p.runs, p.timed)) =
    g.stations.map fun p => (p.runs, p.timed)
  depth_eq : g'.depth? = some depth
  arranged : ∃ levels, Node.Arranged g.nodes g'.order levels ∧
    ∀ v < g.nodes.size, levels[v]? = some (some (g'.level v))
  source : ∀ {v}, v < g.nodes.size → g.predecessors v = [] →
    ∃ p, g'.pool? (.staging v) = some p ∧ p.Vacant depth
  inner : ∀ {v}, g.predecessors v ≠ [] → ∃ p, g'.pool? (.staging v) = some p ∧ p.Vacant 0
  /-- The pool towards a successor stands where the successor stands among all of them. -/
  edge : ∀ {u v i : Nat}, (g.successors u)[i]? = some v → ∃ station p,
    g'.stations[u]? = some station ∧ station.outgoing.size = (g.successors u).length ∧
      station.outgoing[i]? = some p ∧ g'.pool? (.edge u v) = some p ∧ p.Vacant depth

/-- A node of a prepared graph has a station with fresh pools. -/
theorem Linked.station_prepare (hg : g.Linked) (depth : Nat) (order : Array NodeId)
    (levels : Array (Option Nat)) {v : NodeId} (hv : v < g.nodes.size) :
    ∃ station, (g.prepare depth order levels).stations[v]? = some station ∧
      station.staging = .new (if g.predecessors v = [] then depth else 0) ∧
      station.outgoing = Array.replicate (g.successors v).length (.new depth) := by
  obtain ⟨n, hn⟩ := node_of_lt hv
  have hlt : v < g.stations.size := hg.size_stations.symm ▸ hv
  refine ⟨(g.stations[v]).allocate n (.new depth), by simp [prepare, hlt, hn], ?_, ?_⟩
  · rw [predecessors_of_node hn]
    simp only [Station.allocate, Node.isSource, List.isEmpty_iff]
    split <;> rfl
  · rw [successors_of_node hn]
    rfl

theorem Linked.furnished (hg : g.Linked) {order : Array NodeId} {levels : Array (Option Nat)}
    (h : Node.Arranged g.nodes order levels) :
    g.Furnished depth (g.prepare depth order levels) where
  nodes := rfl
  names := rfl
  counts := by
    refine Array.ext_getElem? fun v => ?_
    simp only [prepare, Array.getElem?_map, Array.getElem?_mapIdx, Option.map_map]
    refine Option.map_congr fun p _ => ?_
    simp only [Function.comp]
    split <;> rfl
  depth_eq := rfl
  arranged := by
    refine ⟨levels, h, fun v hv => ?_⟩
    obtain ⟨n, hn, -⟩ := h.level v hv
    simp [level, prepare, hn]
  source := fun {v} hv hsource => by
    obtain ⟨station, hstation, hstaging, -⟩ := hg.station_prepare depth order levels hv
    rw [if_pos hsource] at hstaging
    exact ⟨.new depth, by simp [pool?, hstation, hstaging], Pool.vacant_new depth⟩
  inner := fun {v} hinner => by
    obtain ⟨u, hu⟩ := List.exists_mem_of_ne_nil _ hinner
    obtain ⟨station, hstation, hstaging, -⟩ :=
      hg.station_prepare depth order levels (lt_of_mem_predecessors hu)
    rw [if_neg hinner] at hstaging
    exact ⟨.new 0, by simp [pool?, hstation, hstaging], Pool.vacant_new 0⟩
  edge := fun {u v i} hv => by
    obtain ⟨hi, rfl⟩ := List.getElem?_eq_some_iff.mp hv
    obtain ⟨station, hstation, -, houtgoing⟩ := hg.station_prepare depth order levels
      (lt_of_mem_successors (List.getElem_mem hi))
    -- the successor is listed once, so this is where it is found
    have hbranch : Node.branchAt g.nodes u (g.successors u)[i] = i :=
      (hg.nodup_successors u).idxOf_getElem i hi
    have hpool : station.outgoing[i]? = some (.new depth) := by
      rw [houtgoing, Array.getElem?_replicate, if_pos hi]
    refine ⟨station, .new depth, hstation, by rw [houtgoing, Array.size_replicate], hpool, ?_,
      Pool.vacant_new depth⟩
    show ((g.prepare depth order levels).stations[u]?.bind fun p =>
      p.outgoing[Node.branchAt g.nodes u (g.successors u)[i]]?) = _
    rw [hstation, hbranch]
    exact hpool

/-- **Freezing succeeds exactly when it should and prepares every node**: there has to be a
node, the depth has to be a possible one, and no node may have to forward several inputs at
once. Otherwise the answer is the first objection, which is never a cycle, and the graph is
left alone. -/
theorem freeze_furnishes (h : g.Built) (depth : Nat) :
    ((g.freeze depth).1 = .ok () ↔
      1 ≤ depth ∧ depth ≤ sizeLimit ∧ 0 < g.nodes.size ∧ ∀ id, ¬ g.Ambiguous id) ∧
    (g.freeze depth).1 ≠ .error .cycleDetected ∧
    FirstError () (g.freezeErrors depth) (g.freeze depth).1 ∧
    (∀ e, (g.freeze depth).1 = .error e → (g.freeze depth).2 = g) ∧
    ((g.freeze depth).1 = .ok () → g.Furnished depth (g.freeze depth).2) := by
  have hfirst := h.freeze_firstError depth
  refine ⟨?_, fun hcycle => ?_, hfirst, fun e he => ?_, fun hok => ?_⟩
  · rw [hfirst.ok_iff, freezeErrors, List.forall_mem_cons, List.forall_mem_cons,
      List.forall_mem_map]
    simp only [not_or, Nat.not_lt, List.mem_range]
    constructor
    · rintro ⟨⟨hpos, hle⟩, hsize, hno⟩
      refine ⟨Nat.pos_of_ne_zero hpos, hle, Nat.pos_of_ne_zero hsize, fun id hambiguous => ?_⟩
      have ⟨n, hn, _⟩ := hambiguous
      exact hno id (Array.getElem?_eq_some_iff.mp hn).1 hambiguous
    · rintro ⟨hpos, hle, hsize, hno⟩
      exact ⟨⟨Nat.ne_of_gt hpos, hle⟩, hsize.ne', fun id _ => hno id⟩
  · obtain ⟨p, hp, -⟩ := hfirst.of_error hcycle
    simp [freezeErrors] at hp
  · rcases g.freeze_cases depth with ⟨_, hfreeze⟩ | ⟨_, _, -, -, -, hfreeze⟩
    · rw [hfreeze]
    · rw [hfreeze] at he
      cases he
  · obtain ⟨order, levels, hs, harranged⟩ := h.sorted
    rcases g.freeze_cases depth with ⟨_, hfreeze⟩ | ⟨order', levels', hs', -, -, hfreeze⟩
    · rw [hfreeze] at hok
      cases hok
    · obtain ⟨rfl, rfl⟩ : order = order' ∧ levels = levels' := by simpa [hs] using hs'
      rw [hfreeze]
      exact h.linked.furnished harranged

/-- A path that is frozen again with room for other runs is furnished anew. -/
theorem freeze_furnishes_path : path.Built ∧ path.Furnished 2 (path.freeze 2).2 ∧
    (path.freeze 2).2.Furnished 5 ((path.freeze 2).2.freeze 5).2 := by
  obtain ⟨-, -, -, -, hfurnished⟩ := freeze_furnishes built_path 2
  obtain ⟨-, -, -, -, hagain⟩ := freeze_furnishes (built_path.freeze 2) 5
  exact ⟨built_path, hfurnished (by cbv), hagain (by cbv)⟩

end Graph

end Dataflow
