import Dataflow.Graph.Order

/-!
# Freezing

Freezing prepares a graph for execution: it fixes an order and levels, gives each
source a staging pool and each edge a pool with as many slots as runs may be in
flight, and refuses later changes. A frozen graph can be frozen again, which
replaces its pools. Thawing takes all of that back and leaves nodes, edges and
counts alone. In between the pools can be closed, all of them at once.
-/

namespace Dataflow

namespace Station

variable {α : Type}

/-- Fresh pools of the given depth: one for each successor, and one for staging
if the node is a source. -/
def allocate (p : Station α) (n : Node α) (fresh : Pool (Entry α)) : Station α :=
  { p with
    staging := if n.isSource then fresh else .new 0
    outgoing := Array.replicate n.successors.length fresh }

/-- No pools but a staging pool without slots. -/
def release (p : Station α) : Station α :=
  { p with staging := .new 0, outgoing := #[] }

/-- Every pool closed. -/
def close (p : Station α) : Station α :=
  { p with staging := p.staging.close, outgoing := p.outgoing.map (·.close) }

end Station

namespace Graph

variable {α : Type}

/-- The first node that would have to forward several inputs at once. -/
def ambiguous? (g : Graph α) : Option NodeId :=
  g.nodes.findIdx? (·.isAmbiguous)

/-- The graph with a plan and fresh pools. -/
def prepare (g : Graph α) (depth : Nat) (order : Array NodeId) (levels : Array (Option Nat)) :
    Graph α :=
  let fresh : Pool (Entry α) := .new depth
  { g with
    stations := g.stations.mapIdx fun id p =>
      match g.nodes[id]? with
      | some n => p.allocate n fresh
      | none => p
    plan := some {
      depth
      order
      levels := levels.map (·.getD 0)
      sources := g.collect (·.isSource)
      sinks := g.collect (·.isSink) } }

/-- Prepares the graph for `depth` runs in flight. Nodes that cannot be ordered
are reported as a cycle. -/
def freeze (g : Graph α) (depth : Nat) : Except GraphError Unit × Graph α :=
  if depth = 0 || sizeLimit < depth then (.error (.invalidPipelineDepth depth), g)
  else if g.nodes.isEmpty then (.error .emptyGraph, g)
  else
    match g.ambiguous? with
    | some id => (.error (.ambiguousPassThrough id), g)
    | none =>
      match sortNodes g.nodes with
      | .sorted order levels => (.ok (), g.prepare depth order levels)
      | _ => (.error .cycleDetected, g)

/-- Closes every pool. -/
def closePools (g : Graph α) : Graph α :=
  { g with stations := g.stations.map (·.close) }

/-- Takes back what freezing did. -/
def thaw (g : Graph α) : Graph α :=
  { g with stations := g.stations.map (·.release), plan := none }

end Graph

end Dataflow
