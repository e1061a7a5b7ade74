import Std.Data.HashMap
import Dataflow.Error
import Dataflow.Graph.Work
import Dataflow.Pool.Basic

/-!
# Graphs

A graph is an array of nodes, each with a name, a callback or none, and the lists
of its neighbours in the order in which the edges were added. Beside its nodes a
graph keeps what changes while it is used: for each node a pool of staged inputs,
one pool for each successor, and counts of its executions.

A graph that is frozen carries a `Plan`: the pipeline depth, a topological order
and the levels that go with it, and the lists of sources and sinks. An entry of a
pool is an `Entry`; an absent value marks a run that produced no data there.

Pools are addressed by `Channel`, the staging area of a node or an edge.
-/

namespace Dataflow

/-- What a pool stores for one run: a value, or the mark that there is none. -/
abbrev Entry (α : Type) : Type :=
  Option α

/-- What does not change while a graph is used. -/
structure Node (α : Type) where
  name : String
  work : Option (Work α)
  predecessors : List NodeId := []
  successors : List NodeId := []

namespace Node

variable {α : Type}

/-- A node without predecessors. -/
def isSource (n : Node α) : Bool := n.predecessors.isEmpty

/-- A node without successors. -/
def isSink (n : Node α) : Bool := n.successors.isEmpty

/-- A node with a callback. -/
def hasWork (n : Node α) : Bool := n.work.isSome

/-- A node that would have to forward several inputs at once. -/
def isAmbiguous (n : Node α) : Bool := !n.hasWork && decide (1 < n.predecessors.length)

/-- The predecessors of the node at a position, in the order of the edges. -/
def predecessorsAt (nodes : Array (Node α)) (id : NodeId) : List NodeId :=
  (nodes[id]?.map (·.predecessors)).getD []

/-- The successors of the node at a position, in the order of the edges. -/
def successorsAt (nodes : Array (Node α)) (id : NodeId) : List NodeId :=
  (nodes[id]?.map (·.successors)).getD []

/-- The position of an edge among those that leave its source. -/
def branchAt (nodes : Array (Node α)) (source target : NodeId) : Nat :=
  (successorsAt nodes source).idxOf target

end Node

/-- What changes at a node: its pools, the number of its executions, and the
number of callback calls that came to an end. -/
structure Station (α : Type) where
  staging : Pool (Entry α) := .new 0
  outgoing : Array (Pool (Entry α)) := #[]
  runs : Nat := 0
  timed : Nat := 0

/-- What freezing computes. -/
structure Plan where
  depth : Nat
  order : Array NodeId
  levels : Array Nat
  sources : List NodeId
  sinks : List NodeId
deriving Repr

/-- A place that holds entries. -/
inductive Channel where
  /-- The inputs given to a source from outside. -/
  | staging (node : NodeId)
  | edge (source target : NodeId)
deriving DecidableEq, Repr

/-- A graph of nodes with their pools. -/
structure Graph (α : Type) where
  nodes : Array (Node α) := #[]
  names : Std.HashMap String NodeId := ∅
  stations : Array (Station α) := #[]
  plan : Option Plan := none

namespace Graph

variable {α : Type}

/-- The graph without nodes. -/
def empty : Graph α := {}

/-! ### Reading a graph -/

def isFrozen (g : Graph α) : Bool := g.plan.isSome

def size (g : Graph α) : Nat := g.nodes.size

/-- The pipeline depth of a frozen graph. -/
def depth? (g : Graph α) : Option Nat := g.plan.map (·.depth)

/-- The node with the given name. -/
def byName? (g : Graph α) (name : String) : Option NodeId := g.names[name]?

def predecessors (g : Graph α) (id : NodeId) : List NodeId :=
  Node.predecessorsAt g.nodes id

def successors (g : Graph α) (id : NodeId) : List NodeId :=
  Node.successorsAt g.nodes id

/-- The nodes that satisfy a test, in ascending order. -/
def collect (g : Graph α) (test : Node α → Bool) : List NodeId :=
  (List.range g.nodes.size).filter fun id => g.nodes[id]?.any test

/-- The nodes without predecessors; a frozen graph has them listed. -/
def sources (g : Graph α) : List NodeId :=
  match g.plan with
  | some plan => plan.sources
  | none => g.collect (·.isSource)

/-- The nodes without successors; a frozen graph has them listed. -/
def sinks (g : Graph α) : List NodeId :=
  match g.plan with
  | some plan => plan.sinks
  | none => g.collect (·.isSink)

/-- The topological order of a frozen graph. -/
def order (g : Graph α) : Array NodeId :=
  match g.plan with
  | some plan => plan.order
  | none => #[]

/-- The length of a longest path from a source, zero until the graph is frozen. -/
def level (g : Graph α) (id : NodeId) : Nat :=
  match g.plan with
  | some plan => plan.levels[id]?.getD 0
  | none => 0

/-! ### Pools -/

/-- The pool at a channel. -/
def pool? (g : Graph α) : Channel → Option (Pool (Entry α))
  | .staging id => g.stations[id]?.map (·.staging)
  | .edge source target =>
    g.stations[source]?.bind fun p => p.outgoing[Node.branchAt g.nodes source target]?

/-- Replaces the pool at a channel. -/
def setPool (g : Graph α) (c : Channel) (p : Pool (Entry α)) : Graph α :=
  match c with
  | .staging id => { g with stations := g.stations.modify id fun q => { q with staging := p } }
  | .edge source target =>
    let branch := Node.branchAt g.nodes source target
    { g with
      stations := g.stations.modify source fun q =>
        { q with outgoing := q.outgoing.setIfInBounds branch p } }

/-- The channels that a node takes its inputs from: the edges from its
predecessors in order, or the staging area if it has none. -/
def inlets (g : Graph α) (id : NodeId) : List Channel :=
  match g.predecessors id with
  | [] => [.staging id]
  | preds => preds.map (.edge · id)

/-- The channels that a node puts its output into, in order. -/
def outlets (g : Graph α) (id : NodeId) : List Channel :=
  (g.successors id).map (.edge id)

/-- The number of entries in all pools. -/
def entryCount (g : Graph α) : Nat :=
  g.stations.foldl
    (fun sum p => sum + p.staging.numFull + Pool.total (·.numFull) p.outgoing.toList) 0

/-- Counts an execution of a node. -/
def countRun (g : Graph α) (id : NodeId) : Graph α :=
  { g with stations := g.stations.modify id fun q => { q with runs := q.runs + 1 } }

/-- Counts a callback call that came to an end. -/
def countCall (g : Graph α) (id : NodeId) : Graph α :=
  { g with stations := g.stations.modify id fun q => { q with timed := q.timed + 1 } }

/-! ### Building a graph

A call that changes a graph returns what it comes to and the graph afterwards; after
an error that is the graph as it was. -/

/-- Adds a node under a fresh name; without a callback it forwards its input. -/
def add (g : Graph α) (name : String) (work : Option (Work α)) :
    Except GraphError NodeId × Graph α :=
  if g.isFrozen then (.error .frozen, g)
  else if g.names.contains name then (.error (.duplicateName name), g)
  else if sizeLimit ≤ g.nodes.size then (.error .tooManyNodes, g)
  else
    let id := g.nodes.size
    (.ok id, { g with
      nodes := g.nodes.push { name, work }
      names := g.names.insert name id
      stations := g.stations.push {} })

end Graph

end Dataflow
