import Dataflow.Engine.Binding
import Dataflow.Graph.Fire

/-!
# Executions

The execution of a node for a run is a sequence of single operations on what the
threads share: it finds out which run it works for, takes its inputs one inlet
after another, reads whether the run has failed, calls the callback, records what
came of it, publishes one entry after another, and at last releases its successors
or counts itself as a finished sink. The last sink completes the run, and resolves
its cell when the slot is already in other hands.

`Stage` says which operation comes next, and `Execution.advance` performs it unless
it has to wait, so that executions on any number of threads can be interleaved between
any two of their operations. The two strategies differ in how inputs are found, and in that
only workers are told which nodes have become ready.
-/

namespace Dataflow

/-- The slot and the number of a run. -/
structure Seat where
  slot : SlotId
  run : ObjectId
deriving DecidableEq, Repr

/-- What an execution does next. -/
inductive Stage (α : Type) where
  /-- Read which run holds the slot. -/
  | opening (slot : SlotId)
  /-- Take the entry of the run from each of the remaining inlets. -/
  | claiming (seat : Seat) (taken : List (Entry α)) (rest : List Channel)
  /-- Wait for the oldest entry of each of the remaining inlets. -/
  | awaiting (run : Option ObjectId) (taken : List (Entry α)) (rest : List Channel)
  /-- Look for the slot of the run. -/
  | locating (run : ObjectId) (taken : List (Entry α))
  /-- Read whether the run has failed, and call the callback or skip it. -/
  | entering (seat : Seat) (inputs : List (Entry α))
  /-- Let the callback go on. -/
  | working (seat : Seat) (inputs : List α) (rest : Computation α)
  /-- Store the output of a sink and the error. -/
  | recording (seat : Seat) (firing : Firing α)
  /-- Publish the remaining entries; `waiting` tells that the wait for the first of
  them was counted. -/
  | publishing (seat : Seat) (rest : Deliveries α) (waiting : Bool)
  /-- Count the node as a finished predecessor of the remaining nodes. -/
  | releasing (seat : Seat) (rest : List NodeId)
  /-- Count the node as a finished sink. -/
  | finishing (seat : Seat)
  /-- End the run and pass its slot on. -/
  | completing (seat : Seat)
  /-- Resolve the cell of the run that was ended. -/
  | resolving (cell : CellId) (outcome : RunOutcome α)
  /-- The execution is over. -/
  | over
  /-- A pool it reads from is closed and empty. -/
  | stopped
  | broken (fault : Fault)

/-- A node at some stage of its execution. -/
structure Execution (α : Type) where
  node : NodeId
  stage : Stage α

/-- What one operation brings about: the shared state and the next stage, the tasks
that became ready, and the cell to resolve. -/
structure Advance (α : Type) where
  binding : Binding α
  stage : Stage α
  ready : List Task := []
  resolved : Option (CellId × RunOutcome α) := none

namespace Execution

variable {α : Type}

/-- The execution of a task by a worker. -/
def ofTask (t : Task) : Execution α :=
  ⟨t.node, .opening t.slot⟩

/-- The next execution of a node by its own thread. -/
def await (g : Graph α) (id : NodeId) : Execution α :=
  ⟨id, .awaiting none [] (g.inlets id)⟩

/-- The state after the callback was skipped, or came to an end. -/
def conclude [Payload α] (b : Binding α) (id : NodeId) (n : Node α) (seat : Seat)
    (called : Bool) (result : Option (Except ExecutionError α)) : Advance α where
  binding := b.modifyGraph fun g => (if called then g.countCall id else g).countRun id
  stage := .recording seat (n.conclude id result)

/-- What comes after the last entry is published. -/
def afterPublishing (strategy : Strategy) (g : Graph α) (id : NodeId) (seat : Seat) : Stage α :=
  match g.successors id, strategy with
  | [], _ => .finishing seat
  | succs, .stealing => .releasing seat succs
  | _, .dedicated => .over

/-- Publishes one entry. A refused one is dropped; a producer that has to wait is
counted once. -/
def publish (b : Binding α) (seat : Seat) (c : Channel) (e : Entry α) (rest : Deliveries α)
    (waiting : Bool) : Advance α :=
  match b.graph.pool? c with
  | none => { binding := b, stage := .broken .outOfRange }
  | some p =>
    match p.push ⟨seat.run, e⟩ with
    | none =>
      if waiting then { binding := b, stage := .publishing seat ((c, e) :: rest) true }
      else {
        binding := b.modifyGraph (·.setPool c p.countStarved)
        stage := .publishing seat ((c, e) :: rest) true }
    | some (.ok p) => {
        binding := b.modifyGraph (·.setPool c p)
        stage := .publishing seat rest false }
    | some (.error _) => { binding := b, stage := .publishing seat rest false }

/-- Takes the oldest entry of an inlet, waiting while there is none. All entries of
one execution belong to one run. -/
def awaitOne (b : Binding α) (run : Option ObjectId) (taken : List (Entry α)) (c : Channel)
    (rest : List Channel) : Advance α :=
  match b.graph.pool? c with
  | none => { binding := b, stage := .broken .outOfRange }
  | some p =>
    match p.pop with
    | none => { binding := b, stage := .awaiting run taken (c :: rest) }
    | some (none, _) => { binding := b, stage := .stopped }
    | some (some x, p) => {
        binding := b.modifyGraph (·.setPool c p)
        stage :=
          if run.all (· == x.objectId) then
            .awaiting (some x.objectId) (taken ++ c.inputs x.payload) rest
          else .broken .runsMixed }

/-- Ends the run in a slot and starts the run that gets the slot. -/
def complete (strategy : Strategy) (b : Binding α) (slot : SlotId) : Advance α :=
  match b.table.complete slot with
  | (.error f, table) => { binding := { b with table }, stage := .broken f }
  | (.ok c, table) =>
    let b := { b with table }
    match c.next with
    | none => { binding := b, stage := .resolving c.cell c.outcome }
    | some a =>
      match b.start a with
      | (.error f, b) => { binding := b, stage := .broken f }
      | (.ok tasks, b) => {
          binding := b
          stage := .resolving c.cell c.outcome
          ready := if strategy = .stealing then tasks else [] }

/-- Whether the next operation can be performed: there is one, and it does not have to
wait. -/
def canAdvance (b : Binding α) (x : Execution α) : Bool :=
  match x.stage with
  | .awaiting _ _ (c :: _) => (b.graph.pool? c).all fun p => !p.popWaits
  | .publishing _ ((c, _) :: _) true => (b.graph.pool? c).all fun p => !p.pushWaits
  | .over => false
  | .stopped => false
  | .broken _ => false
  | _ => true

/-- Performs the next operation of an execution. An operation that has to wait leaves
everything as it is. -/
def advance [Payload α] (strategy : Strategy) (b : Binding α) (x : Execution α) : Advance α :=
  match x.stage with
  | .opening slot =>
    match b.table.statuses[slot]? with
    | some s =>
      { binding := b, stage := .claiming ⟨slot, s.objectId⟩ [] (b.graph.inlets x.node) }
    | none => { binding := b, stage := .broken .outOfRange }
  | .claiming seat taken [] => { binding := b, stage := .entering seat taken }
  | .claiming seat taken (c :: rest) =>
    match b.graph.entryOf? c seat.run with
    | some (e, p) => {
        binding := b.modifyGraph (·.setPool c p)
        stage := .claiming seat (taken ++ c.inputs e) rest }
    | none => { binding := b, stage := .broken .inputMissing }
  | .awaiting (some run) taken [] => { binding := b, stage := .locating run taken }
  | .awaiting none _ [] => { binding := b, stage := .broken .inputMissing }
  | .awaiting run taken (c :: rest) => awaitOne b run taken c rest
  | .locating run taken =>
    match b.table.slotOf? run with
    | some slot => { binding := b, stage := .entering ⟨slot, run⟩ taken }
    | none => { binding := b, stage := .broken .runUnknown }
  | .entering seat inputs =>
    match b.table.statuses[seat.slot]?, b.graph.nodes[x.node]? with
    | some s, some n =>
      match gather inputs s.failed, n.work with
      | none, _ => conclude b x.node n seat false none
      | some xs, none => conclude b x.node n seat false (some (forward x.node xs))
      | some xs, some work => { binding := b, stage := .working seat xs (work xs) }
    | _, _ => { binding := b, stage := .broken .outOfRange }
  | .working seat xs (.hold _ rest) => { binding := b, stage := .working seat xs rest }
  | .working seat _ (.done v) =>
    match b.graph.nodes[x.node]? with
    | some n => conclude b x.node n seat true (some (v.judge x.node))
    | none => { binding := b, stage := .broken .outOfRange }
  | .recording seat firing =>
    let deliveries := (b.graph.outlets x.node).zip firing.outgoing
    { binding := b.modifyStatus seat.slot (·.record x.node firing.output firing.error)
      stage := .publishing seat deliveries false }
  | .publishing seat [] _ =>
    { binding := b, stage := afterPublishing strategy b.graph x.node seat }
  | .publishing seat ((c, e) :: rest) waiting => publish b seat c e rest waiting
  | .releasing _ [] => { binding := b, stage := .over }
  | .releasing seat (succ :: rest) =>
    match b.table.dependencyVerdict seat.slot succ with
    | .error f =>
      { binding := b.modifyStatus seat.slot (·.releaseDependency succ), stage := .broken f }
    | .ok last => {
        binding := b.modifyStatus seat.slot (·.releaseDependency succ)
        stage := .releasing seat rest
        ready := if last then [⟨succ, seat.slot⟩] else [] }
  | .finishing seat =>
    match b.table.sinkVerdict seat.slot with
    | .error f => { binding := b.modifyStatus seat.slot (·.finishSink), stage := .broken f }
    | .ok last => {
        binding := b.modifyStatus seat.slot (·.finishSink)
        stage := if last then .completing seat else .over }
  | .completing seat => complete strategy b seat.slot
  | .resolving cell outcome =>
    { binding := b, stage := .over, resolved := some (cell, outcome) }
  | stage => { binding := b, stage }

/-- The barrier that the callback is waiting at. -/
def barrier? (x : Execution α) : Option String :=
  match x.stage with
  | .working _ _ (.hold b _) => some b
  | _ => none

/-- The inputs that the callback was called with, while it works. -/
def inputs? (x : Execution α) : Option (List α) :=
  match x.stage with
  | .working _ xs _ => some xs
  | _ => none

/-- Whether the thread that is at the execution does not go on any more. -/
def hasEnded (x : Execution α) : Bool :=
  match x.stage with
  | .stopped => true
  | .broken _ => true
  | _ => false

end Execution

end Dataflow
