import Dataflow.Graph.Basic

/-!
# Edges

An edge is added only if both ends are known, the edge is new, and its target
does not lead back to its source. Whether one node leads to another is found by
a depth-first search with an explicit stack: a node may lie on the stack several
times, and is marked when it is taken off. The search ends because each node is
marked once and each node off the stack leaves it shorter.
-/

namespace Dataflow

namespace Graph

variable {α : Type}

theorem count_false_setIfInBounds {marked : Array Bool} {id : Nat}
    (h : marked[id]? = some false) :
    (marked.setIfInBounds id true).count false < marked.count false := by
  obtain ⟨hlt, hget⟩ := Array.getElem?_eq_some_iff.mp h
  have hpos : 0 < marked.count false :=
    Array.count_pos_iff.mpr (hget ▸ Array.getElem_mem hlt)
  rw [Array.setIfInBounds_def, dif_pos hlt, Array.count_set, hget]
  show marked.count false - 1 + 0 < marked.count false
  omega

/-- Whether the search meets `target` from the nodes on the stack without going
through a marked one. -/
def search (g : Graph α) (target : NodeId) (marked : Array Bool) : List NodeId → Bool
  | [] => false
  | id :: stack =>
    if id = target then true
    else
      match _h : marked[id]? with
      | some false =>
        search g target (marked.setIfInBounds id true) (g.successors id ++ stack)
      | _ => search g target marked stack
termination_by stack => (marked.count false, stack.length)
decreasing_by
  · exact Prod.Lex.left _ _ (count_false_setIfInBounds _h)
  · exact Prod.Lex.right _ (Nat.lt_succ_self _)

/-- Whether `target` can be reached from `start` along edges. A sink leads to nothing but
itself, which is known without a search. -/
def reaches (g : Graph α) (start target : NodeId) : Bool :=
  if (g.successors start).isEmpty then start == target
  else g.search target (Array.replicate g.nodes.size false) [start]

theorem search_nil (g : Graph α) (target : NodeId) (marked : Array Bool) :
    g.search target marked [] = false := by
  rw [search]

/-- The search of a sink agrees with what is known about it. -/
theorem reaches_eq_search (g : Graph α) (start target : NodeId) :
    g.reaches start target = g.search target (Array.replicate g.nodes.size false) [start] := by
  unfold reaches
  split
  · rename_i h
    have hs : g.successors start = [] := List.isEmpty_iff.mp h
    rw [search]
    by_cases hst : start = target
    · simp [hst]
    · rw [if_neg hst]
      split <;> simp [hs, hst, search_nil]
  · rfl

/-- Writes an edge into both of its ends. -/
def link (g : Graph α) (source target : NodeId) : Graph α :=
  { g with
    nodes := (g.nodes.modify source fun n => { n with successors := n.successors ++ [target] })
      |>.modify target fun n => { n with predecessors := n.predecessors ++ [source] } }

/-- Adds the edge from `source` to `target`, so that the output of the one becomes
the next input of the other. -/
def precede (g : Graph α) (source target : NodeId) : Except GraphError Unit × Graph α :=
  if g.isFrozen then (.error .frozen, g)
  else if g.nodes.size ≤ source then (.error (.unknownNode source), g)
  else if g.nodes.size ≤ target then (.error (.unknownNode target), g)
  else if source = target || g.reaches target source then (.error .cycleDetected, g)
  else if (g.successors source).contains target then
    (.error (.duplicateEdge source target), g)
  else (.ok (), g.link source target)

end Graph

end Dataflow
