import Dataflow.Graph.Firing
import Dataflow.Graph.Staging

/-!
# Evaluation

What a run of a frozen graph comes to, told without pools, slots and threads: the
nodes are evaluated one by one in topological order. A source gets its staged payload
or nothing, any other node gets one value from each predecessor in the order of the
edges. A node hands its output to its first successor and a copy of it to each of the
others. A node that fails cuts off all that depends on it.

However the executions of a run are scheduled, this is what its callers may expect.
-/

namespace Dataflow

/-- How a node fares in a run. -/
inductive Fate (α : Type) where
  /-- A sink has computed its output. -/
  | output (x : α)
  /-- A node has one value for each successor. -/
  | shared (xs : List α)
  | failed (e : ExecutionError)
  /-- Some ancestor has failed. -/
  | cutOff

namespace Fate

variable {α : Type}

/-- What the node hands to its successor number `k`. -/
def branch? (k : Nat) : Fate α → Option α
  | shared xs => xs[k]?
  | _ => none

/-- The output of a sink. -/
def output? : Fate α → Option α
  | output x => some x
  | _ => none

/-- The error of a node that fails by itself. -/
def error? : Fate α → Option ExecutionError
  | failed e => some e
  | _ => none

end Fate

namespace Node

variable {α : Type}

/-- How a node fares that has computed its output: it needs a copy for each successor
after the first. -/
def share [Payload α] (n : Node α) (id : NodeId) (x : α) : Fate α :=
  if n.isSink then .output x
  else
    match Payload.copies (n.successors.length - 1) x with
    | (.ok copies, x) => .shared (x :: copies)
    | (.error e, _) => .failed (.copyFailed id e.report)

/-- How a node fares on its inputs; it has none if some ancestor has failed. -/
def fate [Payload α] (n : Node α) (id : NodeId) : Option (List α) → Fate α
  | none => .cutOff
  | some xs =>
    match n.invoke id xs with
    | .ok x => n.share id x
    | .error e => .failed e

end Node

/-- The fates of the nodes evaluated so far. -/
abbrev Evaluation (α : Type) : Type :=
  NodeId → Option (Fate α)

namespace Graph

variable {α : Type}

/-- The inputs of a node, unless some predecessor hands it nothing. -/
def received (g : Graph α) (staged : Staged α) (v : Evaluation α) (id : NodeId) :
    Option (List α) :=
  match g.predecessors id with
  | [] => some (staged.entry? id).join.toList
  | preds => preds.mapM fun p => (v p).bind (·.branch? ((g.successors p).idxOf id))

/-- Evaluates one node after its predecessors. -/
def evaluateNode [Payload α] (g : Graph α) (staged : Staged α) (v : Evaluation α)
    (id : NodeId) : Evaluation α :=
  match g.nodes[id]? with
  | none => v
  | some n => fun i => if i = id then some (n.fate id (g.received staged v id)) else v i

/-- **The evaluation of a run**: every node once, in topological order. -/
def evaluate [Payload α] (g : Graph α) (staged : Staged α) : Evaluation α :=
  g.order.foldl (g.evaluateNode staged) fun _ => none

/-- The errors of the nodes that fail by themselves, in topological order. -/
def failures (g : Graph α) (v : Evaluation α) : List ExecutionError :=
  g.order.toList.filterMap fun id => (v id).bind (·.error?)

/-- The outputs of the sinks in ascending order. -/
def outputs (g : Graph α) (v : Evaluation α) : List (NodeId × α) :=
  g.sinks.filterMap fun id => ((v id).bind (·.output?)).map fun x => (id, x)

end Graph

end Dataflow
