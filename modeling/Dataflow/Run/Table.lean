import Dataflow.Graph.Staging
import Dataflow.Run.Cell
import Dataflow.Run.Fault

/-!
# The table of runs

A run in flight holds one of a fixed number of slots. The slot counts, for each
node, the predecessors that have not finished for this run, and the sinks that
have not finished; it collects the outputs of the sinks and the first error. A count
is a word: counting down from zero is a fault, and leaves the greatest word behind.

A run that finds no free slot waits in a bounded backlog, first come first served.
The completion of a run hands its slot to the oldest run of the backlog, or frees
it. Runs are numbered in the order in which they are accepted.
-/

namespace Dataflow

/-- The number that a slot shows before its first run, the greatest of all. -/
def noRun : ObjectId := wordLimit - 1

/-- Counts a word down; below zero it starts again from the greatest. -/
def countDown (greatest : Nat) : Nat → Nat
  | 0 => greatest
  | n + 1 => n

/-- The bookkeeping of one slot. It shows its last run until the next one, and has a
cell as long as its run is not over. The outputs are listed last first. -/
structure RunStatus (α : Type) where
  objectId : ObjectId := noRun
  remainingDeps : Array Nat
  remainingSinks : Nat := 0
  failed : Bool := false
  error : Option ExecutionError := none
  outputs : List (NodeId × α) := []
  cell : Option CellId := none

namespace RunStatus

variable {α : Type}

/-- Prepares the slot for a run; the last one must be over. -/
def reset (s : RunStatus α) (objectId : ObjectId) (inDegrees : Array Nat) (sinkCount : Nat)
    (cell : CellId) : Except Fault (RunStatus α) :=
  match s.cell with
  | some _ => .error .slotBusy
  | none => .ok {
      objectId
      remainingDeps := inDegrees
      remainingSinks := sinkCount
      cell := some cell }

/-- Whether the next finished predecessor of a node will be the last. -/
def dependencyVerdict (s : RunStatus α) (id : NodeId) : Except Fault Bool :=
  match s.remainingDeps[id]? with
  | none => .error .outOfRange
  | some 0 => .error .dependencyReleased
  | some (n + 1) => .ok (n == 0)

/-- Counts one finished predecessor of a node. -/
def releaseDependency (s : RunStatus α) (id : NodeId) : RunStatus α :=
  { s with remainingDeps := s.remainingDeps.modify id (countDown sizeLimit) }

/-- Stores what an execution produced; of several errors the first one stays. -/
def record (s : RunStatus α) (id : NodeId) (output : Option α) (error : Option ExecutionError) :
    RunStatus α :=
  let s := match error with
    | some e => { s with failed := true, error := s.error.or (some e) }
    | none => s
  match output with
  | some x => { s with outputs := (id, x) :: s.outputs }
  | none => s

/-- Whether the next finished sink will be the last. -/
def sinkVerdict (s : RunStatus α) : Except Fault Bool :=
  match s.remainingSinks with
  | 0 => .error .sinkFinished
  | n + 1 => .ok (n == 0)

/-- Counts one finished sink. -/
def finishSink (s : RunStatus α) : RunStatus α :=
  { s with remainingSinks := countDown (wordLimit - 1) s.remainingSinks }

/-- Takes the outcome of the run and the cell to resolve with it. -/
def takeOutcome (s : RunStatus α) : Except Fault (RunOutcome α × CellId × RunStatus α) :=
  match s.cell with
  | some cell =>
    let outcome := match s.error with
      | some e => .error (.execution e)
      | none => .ok (.ofOutputs s.objectId s.outputs.reverse)
    .ok (outcome, cell, { s with error := none, outputs := [], cell := none })
  | none => .error .outcomeTaken

end RunStatus

/-- A run that waits for a slot. -/
structure Pending (α : Type) where
  objectId : ObjectId
  inputs : Staged α
  cell : CellId

/-- A run that has just got a slot and is to be started. -/
structure Admitted (α : Type) where
  slot : SlotId
  objectId : ObjectId
  inputs : Staged α

/-- Slots, the stack of free ones, the backlog, and the counters of admission. -/
structure Table (α : Type) where
  statuses : Array (RunStatus α)
  inDegrees : Array Nat
  sinkCount : Nat
  backlogCapacity : Nat
  free : List SlotId
  backlog : List (Pending α) := []
  nextId : ObjectId := 0
  inFlight : Nat := 0
  isClosed : Bool := false

/-- What a submission comes to. -/
inductive Submission (α : Type) where
  | refused (e : SchedulingError)
  /-- The run holds a slot and is to be started. -/
  | admitted (table : Table α) (run : Admitted α)
  /-- The run waits in the backlog. -/
  | queued (table : Table α) (objectId : ObjectId)
  | broken (table : Table α) (fault : Fault)

/-- What the completion of a run comes to: the outcome, the cell to resolve with
it, and the run from the backlog that got the slot. -/
structure Completed (α : Type) where
  outcome : RunOutcome α
  cell : CellId
  next : Option (Admitted α)

namespace Table

variable {α : Type}

/-- A table of `depth` free slots; the first is handed out first. -/
def new (depth : Nat) (inDegrees : Array Nat) (sinkCount backlogCapacity : Nat) : Table α where
  statuses := Array.replicate depth { remainingDeps := Array.replicate inDegrees.size 0 }
  inDegrees
  sinkCount
  backlogCapacity
  free := List.range depth

/-- Whether the next finished predecessor of a node will be the last for the run in a
slot. -/
def dependencyVerdict (t : Table α) (slot : SlotId) (id : NodeId) : Except Fault Bool :=
  match t.statuses[slot]? with
  | some s => s.dependencyVerdict id
  | none => .error .outOfRange

/-- Whether the next finished sink will be the last for the run in a slot. -/
def sinkVerdict (t : Table α) (slot : SlotId) : Except Fault Bool :=
  match t.statuses[slot]? with
  | some s => s.sinkVerdict
  | none => .error .outOfRange

/-- Changes the bookkeeping of a slot. -/
def modifyStatus (t : Table α) (slot : SlotId) (f : RunStatus α → RunStatus α) : Table α :=
  { t with statuses := t.statuses.modify slot f }

/-- The first slot that shows the run with the given number. -/
def slotOf? (t : Table α) (run : ObjectId) : Option SlotId :=
  t.statuses.findIdx? fun s => s.objectId == run

/-- Resets a slot for a run that is launched into it. -/
def launch (t : Table α) (slot : SlotId) (run : ObjectId) (cell : CellId) :
    Except Fault (Table α) :=
  match t.statuses[slot]? with
  | none => .error .outOfRange
  | some s =>
    match s.reset run t.inDegrees t.sinkCount cell with
    | .error f => .error f
    | .ok s =>
      .ok { t with
        statuses := t.statuses.setIfInBounds slot s
        inFlight := t.inFlight + 1 }

/-- Accepts a run into a free slot or the backlog, or refuses it. -/
def submit (t : Table α) (inputs : Staged α) (cell : CellId) : Submission α :=
  if t.isClosed then .refused .shutDown
  else
    match t.free with
    | [] =>
      if t.backlogCapacity ≤ t.backlog.length then .refused (.backlogFull t.backlogCapacity)
      else .queued { t with
        backlog := t.backlog ++ [⟨t.nextId, inputs, cell⟩]
        nextId := t.nextId + 1 } t.nextId
    | slot :: free =>
      let run := t.nextId
      let t := { t with free, nextId := t.nextId + 1 }
      match t.launch slot run cell with
      | .error f => .broken t f
      | .ok t => .admitted t ⟨slot, run, inputs⟩

/-- Ends the run in a slot: takes its outcome and passes the slot on. -/
def complete (t : Table α) (slot : SlotId) : Except Fault (Completed α) × Table α :=
  match t.statuses[slot]? with
  | none => (.error .outOfRange, t)
  | some s =>
    match s.takeOutcome with
    | .error f => (.error f, t)
    | .ok (outcome, cell, s) =>
      let t := { t with statuses := t.statuses.setIfInBounds slot s }
      match t.inFlight with
      | 0 => (.error .nothingInFlight, t)
      | inFlight + 1 =>
        match t.backlog with
        | [] => (.ok ⟨outcome, cell, none⟩, { t with inFlight, free := slot :: t.free })
        | next :: backlog =>
          let t := { t with inFlight, backlog }
          match t.launch slot next.objectId next.cell with
          | .error f => (.error f, t)
          | .ok t => (.ok ⟨outcome, cell, some ⟨slot, next.objectId, next.inputs⟩⟩, t)

/-- Refuses later runs and empties the backlog; returns the cells of the runs that
are cancelled, oldest first. -/
def close (t : Table α) : Table α × List CellId :=
  ({ t with isClosed := true, backlog := [] }, t.backlog.map (·.cell))

/-- Whether no run holds a slot. -/
def isIdle (t : Table α) : Bool := t.inFlight == 0

end Table

end Dataflow
