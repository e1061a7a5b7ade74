import Dataflow.Graph.Basic

/-!
# Snapshots

A snapshot is what an observer sees of a graph and of its runs at one moment: for
each node how full its pools are and how often it was executed, for each run in
flight the slot it holds and how many sinks it still waits for, and the length of
the backlog. How callback times are reported is a parameter: a graph counts calls
and nothing else, a monitor may know durations.
-/

namespace Dataflow

/-- What an observer sees of a node. -/
structure NodeView (τ : Type) where
  node : NodeId
  name : String
  level : Nat
  queueDepths : List Nat
  freeSlots : Nat
  stagedInputs : Nat
  starved : Nat
  runCount : Nat
  timing : Option τ
deriving Repr

/-- What an observer sees of a run in flight. -/
structure RunView where
  slot : SlotId
  objectId : ObjectId
  remainingSinks : Nat
deriving DecidableEq, Repr

/-- One line about a run in flight. -/
def RunView.text (r : RunView) : String :=
  "run " ++ toString r.objectId ++ " in slot " ++ toString r.slot ++ ": " ++
    toString r.remainingSinks ++ " sink(s) left"

/-- What an observer sees of a graph and its runs. -/
structure Snapshot (τ : Type) where
  nodes : List (NodeView τ)
  runs : List RunView
  backlog : Nat
deriving Repr

namespace Graph

variable {α : Type}

/-- The state of one node; the callback calls are counted, if there were any. -/
def nodeView (g : Graph α) (id : NodeId) (n : Node α) (p : Station α) : NodeView Nat where
  node := id
  name := n.name
  level := g.level id
  queueDepths := p.outgoing.toList.map (·.numFull)
  freeSlots := Pool.total (·.numFree) p.outgoing.toList
  stagedInputs := p.staging.numFull
  starved := Pool.total (·.starved) p.outgoing.toList
  runCount := p.runs
  timing := if p.timed = 0 then none else some p.timed

/-- The state of the node with the given id. -/
def nodeView? (g : Graph α) (id : NodeId) : Option (NodeView Nat) :=
  match g.nodes[id]?, g.stations[id]? with
  | some n, some p => some (g.nodeView id n p)
  | _, _ => none

/-- The state of every node in ascending order. -/
def nodeViews (g : Graph α) : List (NodeView Nat) :=
  (List.range g.nodes.size).filterMap g.nodeView?

end Graph

end Dataflow
