import Dataflow.Graph.Basic

/-!
# Staged inputs

The inputs of a run are a list of nodes and payloads. Matching them to the sources
of a graph gives one entry per source, in the order of the sources: the payload,
or none for a source that computes without one. The first element of the list that
does not fit is the error; a source that needs a payload and has none is one only
if every element fits.
-/

namespace Dataflow

/-- One entry per source. -/
abbrev Staged (α : Type) : Type :=
  List (NodeId × Entry α)

namespace Staged

variable {α : Type}

/-- The entry of a source, if the node is one of the sources. -/
def entry? (s : Staged α) (id : NodeId) : Option (Entry α) :=
  s.lookup id

/-- Gives a source its payload. -/
def put (s : Staged α) (id : NodeId) (payload : α) : Staged α :=
  s.map fun (source, entry) => if source = id then (source, some payload) else (source, entry)

end Staged

namespace Graph

variable {α : Type}

/-- Matches one input to its source. -/
def stageOne (g : Graph α) (staged : Staged α) (id : NodeId) (payload : α) :
    Except Error (Staged α) :=
  match g.nodes[id]? with
  | none => .error (.graph (.unknownNode id))
  | some n =>
    if !n.isSource then .error (.scheduling (.unexpectedInput id))
    else if (staged.entry? id).join.isSome then .error (.scheduling (.duplicateInput id))
    else .ok (staged.put id payload)

/-- Matches the inputs one after another. -/
def stageAll (g : Graph α) (staged : Staged α) : List (NodeId × α) → Except Error (Staged α)
  | [] => .ok staged
  | (id, payload) :: inputs =>
    match g.stageOne staged id payload with
    | .error e => .error e
    | .ok staged => g.stageAll staged inputs

/-- The first source that has no payload and no callback to do without. -/
def starving? (g : Graph α) (staged : Staged α) : Option NodeId :=
  (staged.find? fun (id, entry) => entry.isNone && !(g.nodes[id]?.any (·.hasWork))).map (·.1)

/-- Matches the inputs of a run to the sources. -/
def stageInputs (g : Graph α) (inputs : List (NodeId × α)) : Except Error (Staged α) :=
  match g.stageAll (g.sources.map fun id => (id, none)) inputs with
  | .error e => .error e
  | .ok staged =>
    match g.starving? staged with
    | some id => .error (.scheduling (.missingInput id))
    | none => .ok staged

end Graph

end Dataflow
