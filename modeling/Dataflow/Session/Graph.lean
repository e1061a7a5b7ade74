import Dataflow.Graph.Edge
import Dataflow.Graph.Freeze
import Dataflow.Graph.Fire
import Dataflow.Session.Pool
import Dataflow.Snapshot.Basic
import Dataflow.Workload.Callback
import Dataflow.Workload.Gates

/-!
# Sessions with a graph

A session builds a graph of workbench callbacks, freezes it and drives it by hand. It
keeps a journal of the callbacks that were entered, and the gates that they go through.

A node can be fired by a second thread. Where that has to wait for a full pool the
session goes on with other steps; after each of them the waiting thread publishes
what it can.
-/

namespace Dataflow.Session

open Workload

/-- A step of a session with a graph. -/
inductive GraphStep where
  | node (name : String) (work : Option Callback)
  /-- Adds nodes with numbered names up to the first error. -/
  | nodes (stem : String) (count : Nat) (work : Option Callback)
  | edge (source target : NodeId)
  /-- Adds the edges of a path up to the first error. -/
  | chain (first last : NodeId)
  | freeze (depth : Nat)
  | overview
  | size
  | info (id : NodeId)
  | byName (name : String)
  | pushInput (id : NodeId) (x : Tagged Value)
  | fire (id : NodeId) (run : ObjectId)
  /-- Fires every node in topological order. -/
  | fireAll (run : ObjectId)
  /-- Fires a node on a second thread, and makes steps meanwhile. -/
  | fireWhile (id : NodeId) (run : ObjectId) (meanwhile : List GraphStep)
  | stage (id : NodeId) (x : Tagged Value)
  | pushOutput (id : NodeId) (x : Tagged Value)
  | popOutput (id : NodeId) (branch : Nat)
  /-- A step with the pool of a branch, or with the staging pool. -/
  | pool (id : NodeId) (branch : Option Nat) (step : PoolStep (Entry Value))

namespace GraphStep

/-- Whether the step leaves nodes and edges alone. -/
def isReading : GraphStep → Bool
  | node .. | nodes .. | edge .. | chain .. | freeze .. => false
  | _ => true

end GraphStep

/-- The whole of a graph. -/
structure Overview where
  size : Nat
  isFrozen : Bool
  depth : Option Nat
  sources : List NodeId
  sinks : List NodeId
  order : List NodeId
  levels : List Nat
  edges : List (List NodeId)
deriving Repr

/-- The whole of a graph in numbers. -/
structure Summary where
  size : Nat
  depth : Option Nat
  sources : Nat
  sinks : Nat
  orderLength : Nat
  orderSum : Nat
  topLevel : Option Nat
deriving Repr

/-- The whole of a node. -/
structure NodeInfo where
  predecessors : List NodeId
  successors : List NodeId
  hasWork : Bool
  staging : PoolState
  pools : List PoolState
  view : NodeView Nat
deriving Repr

/-- The answer to a step. -/
inductive GraphAnswer where
  | done
  | failed (e : Error)
  | added (id : NodeId)
  | addedMany (result : Except GraphError Nat) (size : Nat)
  | overview (o : Overview)
  | summary (s : Summary)
  | info (i : NodeInfo)
  | found (id : Option NodeId)
  | wouldWait
  | fired (output : Option Value)
  | firedAll (answers : List (NodeId × GraphAnswer))
  | firedWhile (waited : Bool) (meanwhile : List GraphAnswer) (waiter : GraphAnswer)
  | rejected (r : Rejected (Entry Value))
  | popped (x : Option (Tagged Value))
  | pool (answer : PoolAnswer (Entry Value)) (state : PoolState)
  | noSuchNode
  | noSuchPool

/-- A firing on another thread: its run and what it still has to publish. -/
structure Waiting where
  run : ObjectId
  rest : Deliveries Value

/-- A graph at hand, with the firings that wait, the journal and the gates. -/
structure Bench where
  graph : Graph Value := .empty
  waiting : List Waiting := []
  journal : Array String := #[]
  gates : Gates := {}

namespace Bench

/-! ### Looking at the graph -/

def overview (g : Graph Value) : Overview where
  size := g.size
  isFrozen := g.isFrozen
  depth := g.depth?
  sources := g.sources
  sinks := g.sinks
  order := g.order.toList
  levels := (List.range g.size).map g.level
  edges := g.nodes.toList.map (·.successors)

def summary (g : Graph Value) : Summary where
  size := g.size
  depth := g.depth?
  sources := g.sources.length
  sinks := g.sinks.length
  orderLength := g.order.size
  orderSum := g.order.toList.zipIdx.foldl (fun sum (id, position) => sum + position * id) 0
  topLevel := ((List.range g.size).map g.level).max?

def info (g : Graph Value) (id : NodeId) (n : Node Value) (p : Station Value) : NodeInfo where
  predecessors := n.predecessors
  successors := n.successors
  hasWork := n.hasWork
  staging := .of p.staging
  pools := p.outgoing.toList.map .of
  view := g.nodeView id n p

/-- Executions, staged entries, full slots of each branch, and waits of a node. -/
structure NodeState where
  runs : Nat
  staged : Nat
  branches : List Nat
  starved : Nat
deriving Repr

/-- The state of every node of a frozen graph of moderate size. -/
def state? (g : Graph Value) : Option (List NodeState) :=
  if g.isFrozen && decide (g.size ≤ 16) then
    some (g.stations.toList.map fun p =>
      ⟨p.runs, p.staging.numFull, p.outgoing.toList.map (·.numFull),
        Pool.total (·.starved) p.outgoing.toList⟩)
  else none

/-! ### Building the graph -/

/-- The answer to a call that changes nodes or edges. -/
def changeAnswer : Except GraphError Unit → GraphAnswer
  | .ok () => .done
  | .error e => .failed (.graph e)

/-- Adds `count` nodes from a number on, up to the first error. -/
def addMany (g : Graph Value) (stem : String) (work : Option (Work Value)) (first : Nat) :
    Nat → Except GraphError Unit × Graph Value
  | 0 => (.ok (), g)
  | count + 1 =>
    match g.add (stem ++ toString first) work with
    | (.ok _, g) => addMany g stem work (first + 1) count
    | (.error e, g) => (.error e, g)

/-- Adds `count` edges of a path from a node on, up to the first error. -/
def addPath (g : Graph Value) (first : NodeId) : Nat → Except GraphError Unit × Graph Value
  | 0 => (.ok (), g)
  | count + 1 =>
    match g.precede first (first + 1) with
    | (.ok (), g) => addPath g (first + 1) count
    | (.error e, g) => (.error e, g)

/-! ### Driving the graph -/

/-- Notes the entering of a callback of a node, and lets it through its gates. -/
def enter (b : Bench) (n : Node Value) (inputs : List Value) : Bench :=
  let barriers := (n.work.map fun work => (work inputs).barriers).getD []
  { b with
    journal := b.journal.push (journalEntry n.name inputs)
    gates := barriers.foldl (fun gates barrier =>
      ((gates.arrive barrier).pass barrier).getD (gates.arrive barrier)) b.gates }

/-- Executes a node and publishes until an entry has to wait; returns the entries that
are left, and the answer to the caller. -/
def execute (b : Bench) (id : NodeId) (run : ObjectId) :
    Bench × Deliveries Value × Except Error (Option Value) :=
  match b with
  | ⟨graph, waiting, journal, gates⟩ =>
    let node := graph.nodes[id]?
    let (l, graph) := graph.launch id run
    let (graph, rest) := graph.deliver run (l.deliveries (graph.outlets id))
    let b : Bench := ⟨graph, waiting, journal, gates⟩
    match node, l.called with
    | some n, some inputs => (b.enter n inputs, rest, l.answer)
    | _, _ => (b, rest, l.answer)

/-- The answer to a firing. -/
def firingAnswer : Except Error (Option Value) → GraphAnswer
  | .ok output => .fired output
  | .error e => .failed e

/-- Fires a node that would not have to wait. -/
def fire (b : Bench) (id : NodeId) (run : ObjectId) : Bench × GraphAnswer :=
  if b.graph.publicationWaits id then (b, .wouldWait)
  else
    let (b, _, answer) := b.execute id run
    (b, firingAnswer answer)

/-- Fires nodes one after another. -/
def fireEach (b : Bench) (run : ObjectId) (ids : List NodeId) :
    Bench × Array (NodeId × GraphAnswer) :=
  ids.foldl
    (fun (b, answers) id =>
      let (b, answer) := b.fire id run
      (b, answers.push (id, answer)))
    (b, #[])

/-- A waiting firing publishes what it can. If it has to wait again it is counted
again. -/
def push (g : Graph Value) (w : Waiting) : Graph Value × Waiting :=
  let (g, rest) := g.deliver w.run w.rest
  let g := if rest.length < w.rest.length then g.countStarved rest else g
  (g, { w with rest })

/-- Waiting firings publish what they can, the oldest first. -/
def pushEach (g : Graph Value) : List Waiting → Graph Value × List Waiting
  | [] => (g, [])
  | w :: ws =>
    let (g, w) := push g w
    let (g, ws) := pushEach g ws
    (g, w :: ws)

/-- Every waiting firing publishes what it can. -/
def advanceWaiting (b : Bench) : Bench :=
  let (graph, waiting) := pushEach b.graph b.waiting
  { b with graph, waiting }

/-- Starts a firing on another thread; says whether it waits, and what its answer will
be. -/
def beginFiring (b : Bench) (id : NodeId) (run : ObjectId) :
    Bench × Bool × Except Error (Option Value) :=
  let (b, rest, answer) := b.execute id run
  ({ b with
      graph := b.graph.countStarved rest
      waiting := b.waiting ++ [⟨run, rest⟩] }, !rest.isEmpty, answer)

/-- The end of a firing on another thread. -/
def joinFiring (b : Bench) : Bench :=
  { b with waiting := b.waiting.dropLast }

/-- What a node is asked for, if it is there. -/
def atNode (b : Bench) (id : NodeId) (f : Node Value → Station Value → Bench × GraphAnswer) :
    Bench × GraphAnswer :=
  match b.graph.nodes[id]?, b.graph.stations[id]? with
  | some n, some p => f n p
  | _, _ => (b, .noSuchNode)

/-- Stages a payload at a source. -/
def pushInput (b : Bench) (id : NodeId) (x : Tagged Value) : Bench × GraphAnswer :=
  match b.graph.pushInput id x with
  | none => (b, .wouldWait)
  | some (.ok graph) => ({ b with graph }, .done)
  | some (.error e) => (b, .failed e)

/-- Puts a payload into the staging pool of a node. -/
def stage (b : Bench) (id : NodeId) (x : Tagged Value) : Bench × GraphAnswer :=
  b.atNode id fun _ _ =>
    match b.graph.stage id x with
    | none => (b, .wouldWait)
    | some (.ok graph) => ({ b with graph }, .done)
    | some (.error r) => (b, .rejected r)

/-- Publishes a value at a node. -/
def pushOutput (b : Bench) (id : NodeId) (x : Tagged Value) : Bench × GraphAnswer :=
  b.atNode id fun n _ =>
    if b.graph.outputWaits id then (b, .wouldWait)
    else
      match b.graph.pushOutput id n x with
      | (.ok (), graph) => ({ b with graph }, .done)
      | (.error e, graph) => ({ b with graph }, .failed e)

/-- Reads a value at a node. -/
def popOutput (b : Bench) (id : NodeId) (branch : Nat) : Bench × GraphAnswer :=
  b.atNode id fun _ _ =>
    let (x, graph) := b.graph.popOutput id branch
    ({ b with graph }, .popped x)

/-- A step with a pool of a node. -/
def poolStep (b : Bench) (id : NodeId) (branch : Option Nat) (step : PoolStep (Entry Value)) :
    Bench × GraphAnswer :=
  b.atNode id fun _ _ =>
    let channel := match branch with
      | none => some (Channel.staging id)
      | some k => b.graph.branch? id k
    match channel.bind fun c => (b.graph.pool? c).map fun p => (c, p) with
    | none => (b, .noSuchPool)
    | some (c, p) =>
      let (p, answer) := performPool p step
      ({ b with graph := b.graph.setPool c p }, .pool answer (.of p))

mutual

/-- Performs a step. -/
def perform (b : Bench) : GraphStep → Bench × GraphAnswer
  | .node name work =>
    match b.graph.add name (work.map (·.work)) with
    | (.ok id, graph) => ({ b with graph }, .added id)
    | (.error e, graph) => ({ b with graph }, .failed (.graph e))
  | .nodes stem count work =>
    let before := b.graph.size
    let (r, graph) := addMany b.graph stem (work.map (·.work)) 0 count
    let size := graph.size
    let result := match r with
      | .ok () => .ok (size - before)
      | .error e => .error e
    ({ b with graph }, .addedMany result size)
  | .edge source target =>
    let (r, graph) := b.graph.precede source target
    ({ b with graph }, changeAnswer r)
  | .chain first last =>
    let (r, graph) := addPath b.graph first (last - first)
    ({ b with graph }, changeAnswer r)
  | .freeze depth =>
    let (r, graph) := b.graph.freeze depth
    ({ b with graph }, changeAnswer r)
  | .overview => (b, .overview (overview b.graph))
  | .size => (b, .summary (summary b.graph))
  | .info id => b.atNode id fun n p => (b, .info (info b.graph id n p))
  | .byName name => (b, .found (b.graph.byName? name))
  | .pushInput id x => b.pushInput id x
  | .fire id run => b.fire id run
  | .fireAll run =>
    let (b, answers) := b.fireEach run b.graph.order.toList
    (b, .firedAll answers.toList)
  | .fireWhile id run meanwhile =>
    let (b, waited, answer) := b.beginFiring id run
    let (b, answers) := b.performEach meanwhile
    (b.joinFiring, .firedWhile waited answers (firingAnswer answer))
  | .stage id x => b.stage id x
  | .pushOutput id x => b.pushOutput id x
  | .popOutput id branch => b.popOutput id branch
  | .pool id branch step => b.poolStep id branch step

/-- Performs steps one after another; firings that wait go on after each. -/
def performEach (b : Bench) : List GraphStep → Bench × List GraphAnswer
  | [] => (b, [])
  | step :: steps =>
    let (b, answer) := b.perform step
    let (b, answers) := b.advanceWaiting.performEach steps
    (b, answer :: answers)

end

end Bench

end Dataflow.Session
