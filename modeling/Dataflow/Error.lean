import Dataflow.Ident

/-!
# Errors

The ways in which a call is refused or a run fails, one inductive type for each
layer: building and freezing a graph, submitting and scheduling runs, executing
a node, and validating settings. Each type has one function `message` that gives
its wording.
-/

namespace Dataflow

/-- Why a graph refuses to be changed, frozen or used. -/
inductive GraphError where
  /-- The edge would close a cycle, or the graph holds one. -/
  | cycleDetected
  /-- A frozen graph does not change. -/
  | frozen
  /-- The call needs a frozen graph. -/
  | notFrozen
  | unknownNode (id : NodeId)
  | duplicateEdge (source target : NodeId)
  | duplicateName (name : String)
  | tooManyNodes
  | emptyGraph
  /-- A node without a callback has nothing to combine several inputs with. -/
  | ambiguousPassThrough (id : NodeId)
  | invalidPipelineDepth (depth : Nat)
deriving DecidableEq, Repr

/-- The largest number of nodes of a graph and of runs in flight. -/
def sizeLimit : Nat := 65535

/-- Counts and sizes are words of 64 bits, all of them below this number. -/
def wordLimit : Nat := 18446744073709551616

namespace GraphError

/-- The wording of the error. -/
def message : GraphError → String
  | cycleDetected => "graph contains cycle(s)"
  | frozen => "graph is frozen"
  | notFrozen => "graph is not frozen"
  | unknownNode id => "unknown node " ++ id.text
  | duplicateEdge source target =>
    "edge " ++ source.text ++ " -> " ++ target.text ++ " already exists"
  | duplicateName name => "node name `" ++ name ++ "` is already taken"
  | tooManyNodes => "graph cannot hold more than " ++ toString sizeLimit ++ " nodes"
  | emptyGraph => "graph has no nodes"
  | ambiguousPassThrough id =>
    "node " ++ id.text ++ " has no callback but more than one predecessor"
  | invalidPipelineDepth depth => "invalid pipeline depth " ++ toString depth

end GraphError

/-- Why a scheduler refuses a call, or why a run never started. -/
inductive SchedulingError where
  | shutDown
  /-- The run was still in the backlog when the scheduler shut down. -/
  | cancelled
  /-- No slot is free and the backlog is full. -/
  | backlogFull (capacity : Nat)
  | notBound
  | alreadyBound
  /-- A source without a callback was given no payload. -/
  | missingInput (id : NodeId)
  /-- A payload was given to a node with predecessors. -/
  | unexpectedInput (id : NodeId)
  /-- A source was given two payloads. -/
  | duplicateInput (id : NodeId)
deriving DecidableEq, Repr

namespace SchedulingError

/-- The wording of the error. -/
def message : SchedulingError → String
  | shutDown => "executor is shut down"
  | cancelled => "run was cancelled before it started"
  | backlogFull capacity => "run backlog is full (" ++ toString capacity ++ " pending runs)"
  | notBound => "no graph is bound to the executor"
  | alreadyBound => "a graph is already bound to the executor"
  | missingInput id =>
    "input node " ++ id.text ++ " has no callback and received no payload"
  | unexpectedInput id => "node " ++ id.text ++ " is not an input node"
  | duplicateInput id => "input node " ++ id.text ++ " received more than one payload"

end SchedulingError

/-- Why a payload could not be copied. -/
structure CopyError where
  reason : String
deriving DecidableEq, Repr

/-- The wording of the error. -/
def CopyError.message (e : CopyError) : String :=
  "payload copy failed: " ++ e.reason

/-- Why the execution of a node failed its run. -/
inductive ExecutionError where
  /-- The callback answered with an error. -/
  | workFailed (node : NodeId) (report : String)
  | workPanicked (node : NodeId) (report : String)
  /-- The output could not be copied for every successor. -/
  | copyFailed (node : NodeId) (source : CopyError)
  /-- A node without a callback had nothing to forward. -/
  | noInput (node : NodeId)
deriving DecidableEq, Repr

namespace ExecutionError

/-- The wording of the error. -/
def message : ExecutionError → String
  | workFailed node report => "node " ++ node.text ++ " failed: " ++ report
  | workPanicked node report => "node " ++ node.text ++ " panicked: " ++ report
  | copyFailed node source =>
    "node " ++ node.text ++ " could not copy its output: " ++ source.message
  | noInput node => "pass-through node " ++ node.text ++ " received no input"

/-- The cause behind the error, if it has one. -/
def source? : ExecutionError → Option CopyError
  | copyFailed _ source => some source
  | _ => none

end ExecutionError

/-- Why settings are not usable. -/
inductive SettingsError where
  | zeroWorkers
  | zeroPipelineDepth
  | pipelineDepthTooLarge (depth : Nat)
deriving DecidableEq, Repr

namespace SettingsError

/-- The wording of the error. -/
def message : SettingsError → String
  | zeroWorkers => "worker count must be at least 1"
  | zeroPipelineDepth => "pipeline depth must be at least 1"
  | pipelineDepthTooLarge depth =>
    "pipeline depth " ++ toString depth ++ " exceeds " ++ toString sizeLimit

end SettingsError

/-- Any error of the library. -/
inductive Error where
  | graph (e : GraphError)
  | scheduling (e : SchedulingError)
  | execution (e : ExecutionError)
  | settings (e : SettingsError)
deriving DecidableEq, Repr

namespace Error

instance : Coe GraphError Error := ⟨graph⟩
instance : Coe SchedulingError Error := ⟨scheduling⟩
instance : Coe ExecutionError Error := ⟨execution⟩
instance : Coe SettingsError Error := ⟨settings⟩

/-- The wording of the error. -/
def message : Error → String
  | graph e => e.message
  | scheduling e => e.message
  | execution e => e.message
  | settings e => e.message

end Error

end Dataflow
