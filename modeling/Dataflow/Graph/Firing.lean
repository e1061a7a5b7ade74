import Dataflow.Graph.Basic
import Dataflow.Payload

/-!
# Firing a node

An execution of a node takes one entry from each inlet. If one of them is a mark
that there is no data, or the run is known to have failed, the callback is skipped.
Otherwise the node computes its output from the inputs. The result is one entry
for each successor: the output itself for the first and copies of it for the
others, or nothing but marks if there is no output or some copy could not be made.
A node without successors keeps its output for the result of the run.
-/

namespace Dataflow

/-- The entry of an inlet as a list of inputs: what was staged for a source may be
nothing at all, and an edge always gives one entry. -/
def Channel.inputs {α : Type} : Channel → Entry α → List (Entry α)
  | staging _, none => []
  | staging _, some x => [some x]
  | edge _ _, e => [e]

/-- The node that should have filled the channel. -/
def Channel.producer : Channel → NodeId
  | staging id => id
  | edge source _ => source

/-- What an execution leaves behind: the output of a sink, an error, and one entry
for each successor. -/
structure Firing (α : Type) where
  output : Option α
  error : Option ExecutionError
  outgoing : List (Entry α)

/-- The inputs of an execution, unless it has to be skipped. -/
def gather {α : Type} (inputs : List (Entry α)) (poisoned : Bool) : Option (List α) :=
  if poisoned then none else inputs.mapM id

/-- How the verdict of a callback counts. -/
def Verdict.judge {α : Type} (id : NodeId) : Verdict α → Except ExecutionError α
  | value x => .ok x
  | failure report => .error (.workFailed id report)
  | panic p => .error (.workPanicked id p.describe)

/-- A node without a callback passes on its first input. -/
def forward {α : Type} (id : NodeId) : List α → Except ExecutionError α
  | x :: _ => .ok x
  | [] => .error (.noInput id)

namespace Node

variable {α : Type}

/-- What the node computes from its inputs. -/
def invoke (n : Node α) (id : NodeId) (inputs : List α) : Except ExecutionError α :=
  match n.work with
  | none => forward id inputs
  | some work => (work inputs).verdict.judge id

/-- As many marks as there are successors. -/
def marks (n : Node α) : List (Entry α) :=
  List.replicate n.successors.length none

/-- One entry for each successor: all of them carry data, or none does. -/
def fanOut [Payload α] (n : Node α) (id : NodeId) : Option α →
    Except ExecutionError (List (Entry α))
  | none => .ok n.marks
  | some x =>
    match Payload.copies (n.successors.length - 1) x with
    | (.ok copies, x) => .ok (some x :: copies.map some)
    | (.error e, _) => .error (.copyFailed id e.report)

/-- What an execution with this result leaves behind; none stands for a skipped
one. -/
def conclude [Payload α] (n : Node α) (id : NodeId)
    (result : Option (Except ExecutionError α)) : Firing α :=
  let output := match result with
    | some (.ok x) => some x
    | _ => none
  let error := match result with
    | some (.error e) => some e
    | _ => none
  if n.isSink then ⟨output, error, []⟩
  else
    match n.fanOut id output with
    | .ok outgoing => ⟨none, error, outgoing⟩
    | .error e => ⟨none, some e, n.marks⟩

/-- A whole execution on the given entries. -/
def fire [Payload α] (n : Node α) (id : NodeId) (inputs : List (Entry α)) (poisoned : Bool) :
    Firing α :=
  n.conclude id ((gather inputs poisoned).map (n.invoke id))

end Node

end Dataflow
