import Std.Data.HashSet
import Dataflow.Graph.Freeze
import Dataflow.Run.Table
import Dataflow.Snapshot.Basic

/-!
# Bound graphs

A graph is bound by freezing it and making a table for its runs. What the threads
of a scheduler share while they execute runs is a `Binding`: the frozen graph with
its pools, and the table.

A run that gets a slot is started by putting its staged inputs into the staging
pools of the sources, in one step with the admission.
-/

namespace Dataflow

/-- How node executions find their way to threads. -/
inductive Strategy where
  /-- Workers pick ready nodes; a node is ready for a run when the last of its
  predecessors has finished for it. -/
  | stealing
  /-- Every node has its own thread, which waits for entries in its pools. -/
  | dedicated
deriving DecidableEq, Repr

/-- A frozen graph with the runs in flight on it. -/
structure Binding (α : Type) where
  graph : Graph α
  table : Table α

/-- One node to be executed for the run in a slot. -/
structure Task where
  node : NodeId
  slot : SlotId
deriving DecidableEq, Repr

namespace Binding

variable {α : Type}

/-- Freezes a graph and makes the table for its runs. -/
def new (g : Graph α) (depth backlogCapacity : Nat) : Except GraphError (Binding α) :=
  match g.freeze depth with
  | (.error e, _) => .error e
  | (.ok (), g) =>
    .ok ⟨g, .new depth (g.nodes.map (·.predecessors.length)) g.sinks.length backlogCapacity⟩

/-- Changes the graph. -/
def modifyGraph (b : Binding α) (f : Graph α → Graph α) : Binding α :=
  { b with graph := f b.graph }

/-- Changes the bookkeeping of a slot. -/
def modifyStatus (b : Binding α) (slot : SlotId) (f : RunStatus α → RunStatus α) : Binding α :=
  { b with table := b.table.modifyStatus slot f }

/-- Puts the staged inputs of a run into the staging pools, up to the first pool that
refuses its entry. -/
def stageEntries (g : Graph α) (run : ObjectId) : Staged α → Except Fault Unit × Graph α
  | [] => (.ok (), g)
  | (id, entry) :: inputs =>
    match g.pool? (.staging id) with
    | none => (.error .outOfRange, g)
    | some p =>
      match p.tryPush ⟨run, entry⟩ with
      | .error _ => (.error .stagingRefused, g)
      | .ok p => stageEntries (g.setPool (.staging id) p) run inputs

/-- Starts an admitted run; returns the source nodes as tasks. -/
def start (b : Binding α) (a : Admitted α) : Except Fault (List Task) × Binding α :=
  match stageEntries b.graph a.objectId a.inputs with
  | (.error f, graph) => (.error f, { b with graph })
  | (.ok (), graph) => (.ok (b.graph.sources.map (⟨·, a.slot⟩)), { b with graph })

/-- What the submission of a run comes to. -/
inductive Accepted (α : Type) where
  | refused (e : Error)
  /-- The run has its number; the tasks are those that are ready at once. -/
  | accepted (binding : Binding α) (run : ObjectId) (tasks : List Task)
  /-- The run may hold a slot, but it is not started. -/
  | broken (binding : Binding α) (fault : Fault)

/-- Validates the inputs of a run, admits it, and starts it if it holds a slot. -/
def submit (b : Binding α) (inputs : List (NodeId × α)) (cell : CellId) : Accepted α :=
  match b.graph.stageInputs inputs with
  | .error e => .refused e
  | .ok staged =>
    match b.table.submit staged cell with
    | .refused e => .refused e
    | .queued table run => .accepted { b with table } run []
    | .broken table f => .broken { b with table } f
    | .admitted table a =>
      match { b with table }.start a with
      | (.error f, b) => .broken b f
      | (.ok tasks, b) => .accepted b a.objectId tasks

/-- The runs that hold a slot, in ascending order of the slots. -/
def runViews (t : Table α) : List RunView :=
  let free := Std.HashSet.ofList t.free
  (List.range t.statuses.size).filterMap fun slot =>
    if free.contains slot then none
    else (t.statuses[slot]?).map fun s => ⟨slot, s.objectId, s.remainingSinks⟩

/-- The state of the graph and its runs. -/
def snapshot (b : Binding α) : Snapshot Nat where
  nodes := b.graph.nodeViews
  runs := runViews b.table
  backlog := b.table.backlog.length

end Binding

end Dataflow
