import Mathlib.Data.List.Nodup
import Dataflow.Graph.Edge
import Dataflow.Graph.Freeze

/-!
# Graphs that calls can lead to

The neighbour lists of a graph are redundant: an edge is written into both of its
ends. `Graph.Linked` says that the two ends agree and that no edge is written twice,
and `Graph.Built` are the graphs that can be made by calls at all. Every one of them
is linked, `Graph.Built.linked`, so a scheduler never meets any other graph.

Using a graph by hand, be it frozen or not, changes nothing but what its stations
hold; `Graph.Built.use` allows for any such change.
-/

namespace Dataflow

namespace Graph

variable {α : Type}

/-- The neighbour lists of both ends of every edge agree, and list it once. -/
structure Linked (g : Graph α) : Prop where
  mem_predecessors : ∀ {u v : NodeId}, u ∈ g.predecessors v ↔ v ∈ g.successors u
  nodup_predecessors : ∀ v, (g.predecessors v).Nodup
  nodup_successors : ∀ u, (g.successors u).Nodup
  /-- Every node has a station. -/
  size_stations : g.stations.size = g.nodes.size

/-- **The graphs that calls can lead to.** -/
inductive Built : Graph α → Prop where
  | empty : Built .empty
  | add {g : Graph α} (h : Built g) (name : String) (work : Option (Work α)) :
      Built (g.add name work).2
  | precede {g : Graph α} (h : Built g) (source target : NodeId) :
      Built (g.precede source target).2
  | freeze {g : Graph α} (h : Built g) (depth : Nat) : Built (g.freeze depth).2
  | thaw {g : Graph α} (h : Built g) : Built g.thaw
  /-- Pools are filled, emptied and closed, and executions are counted, by hand. -/
  | use {g : Graph α} (h : Built g) {stations : Array (Station α)}
      (hs : stations.size = g.stations.size) : Built { g with stations }

/-! ### Reading neighbour lists -/

theorem lt_of_mem_successors {g : Graph α} {u v : NodeId} (h : v ∈ g.successors u) :
    u < g.nodes.size := by
  by_contra hu
  rw [successors, Node.successorsAt, Array.getElem?_eq_none (Nat.not_lt.mp hu)] at h
  simp at h

theorem lt_of_mem_predecessors {g : Graph α} {u v : NodeId} (h : u ∈ g.predecessors v) :
    v < g.nodes.size := by
  by_contra hv
  rw [predecessors, Node.predecessorsAt, Array.getElem?_eq_none (Nat.not_lt.mp hv)] at h
  simp at h

theorem Linked.target_lt {g : Graph α} (h : g.Linked) {u v : NodeId} (hv : v ∈ g.successors u) :
    v < g.nodes.size :=
  lt_of_mem_predecessors (h.mem_predecessors.mpr hv)

theorem Linked.source_lt {g : Graph α} (h : g.Linked) {u v : NodeId} (hu : u ∈ g.predecessors v) :
    u < g.nodes.size :=
  lt_of_mem_successors (h.mem_predecessors.mp hu)

/-- The lists do not depend on anything but the nodes. -/
theorem Linked.of_nodes {g g' : Graph α} (h : g.Linked) (hn : g'.nodes = g.nodes)
    (hs : g'.stations.size = g'.nodes.size) : g'.Linked where
  mem_predecessors := by
    intro u v
    simpa only [predecessors, successors, hn] using h.mem_predecessors
  nodup_predecessors := by
    intro v
    simpa only [predecessors, hn] using h.nodup_predecessors v
  nodup_successors := by
    intro u
    simpa only [successors, hn] using h.nodup_successors u
  size_stations := hs

/-! ### What each call does to the lists -/

theorem linked_empty : (empty : Graph α).Linked where
  mem_predecessors := by simp [predecessors, successors, Node.predecessorsAt,
    Node.successorsAt, empty]
  nodup_predecessors := by simp [predecessors, Node.predecessorsAt, empty]
  nodup_successors := by simp [successors, Node.successorsAt, empty]
  size_stations := rfl

/-- A new node has no successors. -/
theorem successorsAt_push (nodes : Array (Node α)) (name : String) (work : Option (Work α))
    (u : NodeId) : Node.successorsAt (nodes.push { name, work }) u = Node.successorsAt nodes u := by
  unfold Node.successorsAt
  rw [Array.getElem?_push]
  split
  · next hu => simp [hu]
  · rfl

/-- A new node has no predecessors. -/
theorem predecessorsAt_push (nodes : Array (Node α)) (name : String) (work : Option (Work α))
    (v : NodeId) :
    Node.predecessorsAt (nodes.push { name, work }) v = Node.predecessorsAt nodes v := by
  unfold Node.predecessorsAt
  rw [Array.getElem?_push]
  split
  · next hv => simp [hv]
  · rfl

/-- A new node has no neighbours, and no node has it as a neighbour. -/
theorem Linked.push {g : Graph α} (h : g.Linked) (name : String) (work : Option (Work α))
    (names : Std.HashMap String NodeId) :
    ({ g with
      nodes := g.nodes.push { name, work }
      names
      stations := g.stations.push {} } : Graph α).Linked where
  mem_predecessors := by
    intro u v
    simpa only [predecessors, successors, successorsAt_push, predecessorsAt_push] using
      h.mem_predecessors
  nodup_predecessors := by
    intro v
    simpa only [predecessors, predecessorsAt_push] using h.nodup_predecessors v
  nodup_successors := by
    intro u
    simpa only [successors, successorsAt_push] using h.nodup_successors u
  size_stations := by simp [h.size_stations]

theorem Linked.add {g : Graph α} (h : g.Linked) (name : String) (work : Option (Work α)) :
    (g.add name work).2.Linked := by
  unfold Graph.add
  split
  · exact h
  · split
    · exact h
    · split
      · exact h
      · exact h.push name work _

theorem successors_link (g : Graph α) (source target u : NodeId) (hs : source < g.nodes.size) :
    (g.link source target).successors u =
      if u = source then g.successors u ++ [target] else g.successors u := by
  simp only [successors, Node.successorsAt, link, Array.getElem?_modify]
  by_cases hu : u = source
  · subst hu
    by_cases ht : target = u
    · simp [ht, hs]
    · simp [ht, hs]
  · have hus : ¬ source = u := fun h => hu h.symm
    by_cases ht : target = u
    · simp only [ht, hus, hu, if_true, if_false]
      cases g.nodes[u]? <;> rfl
    · simp [ht, hus, hu]

theorem predecessors_link (g : Graph α) (source target v : NodeId) (ht : target < g.nodes.size) :
    (g.link source target).predecessors v =
      if v = target then g.predecessors v ++ [source] else g.predecessors v := by
  simp only [predecessors, Node.predecessorsAt, link, Array.getElem?_modify]
  by_cases hv : v = target
  · subst hv
    by_cases hs : source = v
    · simp [hs, ht]
    · simp [hs, ht]
  · have hvt : ¬ target = v := fun h => hv h.symm
    by_cases hs : source = v
    · simp only [hs, hvt, hv, if_true, if_false]
      cases g.nodes[v]? <;> rfl
    · simp [hs, hvt, hv]

/-- A new edge between known nodes keeps a graph linked. -/
theorem Linked.link {g : Graph α} (h : g.Linked) {source target : NodeId}
    (hs : source < g.nodes.size) (ht : target < g.nodes.size)
    (hnew : target ∉ g.successors source) : (g.link source target).Linked where
  mem_predecessors := by
    intro u v
    rw [successors_link g source target u hs, predecessors_link g source target v ht]
    have hm := h.mem_predecessors (u := u) (v := v)
    by_cases hu : u = source <;> by_cases hv : v = target <;> simp [hu, hv] at hm ⊢ <;> simp [hm]
  nodup_predecessors := by
    intro v
    rw [predecessors_link g source target v ht]
    split
    · next hv =>
      refine List.nodup_append.mpr ⟨h.nodup_predecessors v, List.nodup_singleton _, ?_⟩
      intro u hu w hw huw
      rw [List.mem_singleton] at hw
      rw [huw, hw, hv] at hu
      exact hnew (h.mem_predecessors.mp hu)
    · exact h.nodup_predecessors v
  nodup_successors := by
    intro u
    rw [successors_link g source target u hs]
    split
    · next hu =>
      refine List.nodup_append.mpr ⟨h.nodup_successors u, List.nodup_singleton _, ?_⟩
      intro v hv w hw hvw
      rw [List.mem_singleton] at hw
      rw [hvw, hw, hu] at hv
      exact hnew hv
    · exact h.nodup_successors u
  size_stations := by simp [Graph.link, h.size_stations]

theorem Linked.precede {g : Graph α} (h : g.Linked) (source target : NodeId) :
    (g.precede source target).2.Linked := by
  unfold Graph.precede
  split
  · exact h
  · split
    · exact h
    · next hs =>
      split
      · exact h
      · next ht =>
        split
        · exact h
        · split
          · exact h
          · next hnew =>
            refine h.link (Nat.not_le.mp hs) (Nat.not_le.mp ht) fun hmem => hnew ?_
            simpa using hmem

theorem nodes_freeze (g : Graph α) (depth : Nat) : (g.freeze depth).2.nodes = g.nodes := by
  unfold freeze
  split
  · rfl
  · split
    · rfl
    · split
      · rfl
      · split <;> rfl

theorem size_stations_freeze (g : Graph α) (depth : Nat) :
    (g.freeze depth).2.stations.size = g.stations.size := by
  unfold freeze
  split
  · rfl
  · split
    · rfl
    · split
      · rfl
      · split <;> simp [prepare]

theorem Linked.freeze {g : Graph α} (h : g.Linked) (depth : Nat) : (g.freeze depth).2.Linked :=
  h.of_nodes (nodes_freeze g depth) (by
    rw [size_stations_freeze, nodes_freeze, h.size_stations])

/-- **Every graph that calls can lead to is linked.** -/
theorem Built.linked {g : Graph α} (h : g.Built) : g.Linked := by
  induction h with
  | empty => exact linked_empty
  | add _ name work ih => exact ih.add name work
  | precede _ source target ih => exact ih.precede source target
  | freeze _ depth ih => exact ih.freeze depth
  | thaw _ ih => exact ih.of_nodes rfl (by simp [Graph.thaw, ih.size_stations])
  | use _ hs ih => exact ih.of_nodes rfl (by simp [hs, ih.size_stations])

end Graph

end Dataflow
