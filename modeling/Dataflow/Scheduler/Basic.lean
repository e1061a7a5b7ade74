import Dataflow.Capacity
import Dataflow.Crew.Basic
import Dataflow.Engine.Execution
import Dataflow.Run.Futures
import Dataflow.Scheduler.Naming

/-!
# Schedulers

A scheduler binds one graph at a time and executes runs of it, on a crew of workers
that steal tasks from each other or on one thread for each node. This file holds the
state of a scheduler, what its threads do, and the calls of its owner.

Calls that wait are described by the moment at which they come back. `unbind` and a
shutdown wait first until no run holds a slot. Then the threads of nodes are
dismissed: their pools are closed, and a thread ends when a pool that it reads from
is empty. Both calls are over when no thread uses the graph any more.
-/

namespace Dataflow

/-- The threads of a scheduler: workers, or one execution for each node. -/
inductive Threads (α : Type) where
  | crew (c : Crew Task (Execution α))
  | nodes (executions : Array (Execution α))

/-- Why a scheduler is not made or a graph is not bound: an error, or the panic of an
attempt to start a thread. -/
inductive Failure where
  | error (e : Error)
  | panic (p : Panic)
deriving DecidableEq, Repr

/-- A scheduler: its settings and threads, the bound graph, the futures of all accepted
runs, and whether it was shut down. -/
structure Scheduler (α : Type) where
  settings : Settings
  threads : Threads α
  binding : Option (Binding α) := none
  futures : Futures α := {}
  isShutDown : Bool := false

namespace Threads

variable {α : Type}

/-- The strategy that the threads follow. -/
def strategy : Threads α → Strategy
  | crew _ => .stealing
  | nodes _ => .dedicated

/-- The number of threads. -/
def size : Threads α → Nat
  | crew c => c.workers.size
  | nodes xs => xs.size

/-- What a thread is executing. -/
def execution? (ts : Threads α) (i : Nat) : Option (Execution α) :=
  match ts with
  | crew c => c.execution? i
  | nodes xs => xs[i]?

/-- All that is being executed. -/
def executions : Threads α → List (Execution α)
  | crew c => c.executions
  | nodes xs => xs.toList

/-- Hands out tasks from outside; threads of nodes need none. -/
def inject (ts : Threads α) (tasks : List Task) : Threads α :=
  match ts with
  | crew c => crew (c.inject tasks)
  | nodes xs => nodes xs

end Threads

namespace Scheduler

variable {α : Type}

/-- The bytes that are set aside for a worker: where its deque is, where the tasks of the
deque lie and how many fit there, and from which end it takes them. -/
def workerBytes : Nat := 32

/-- The panic of an attempt to start so many workers. Room is made for all of them before
the first thread is started. -/
def crewPanic? (settings : Settings) (workers : Nat) : Option Panic :=
  match capacityPanic? workerBytes workers with
  | some p => some p
  | none => (List.range workers).findSome? fun i => ThreadName.panic? (settings.workerName i)

/-- A scheduler without a graph, if the settings are valid. Workers are started at
once, the threads of nodes when a graph is bound. -/
def new (strategy : Strategy) (settings : Settings) (processors : Nat) :
    Except Failure (Scheduler α) :=
  match settings.validate with
  | .error e => .error (.error (.settings e))
  | .ok () =>
    match strategy with
    | .dedicated => .ok { settings, threads := .nodes #[] }
    | .stealing =>
      let workers := settings.workers processors
      match crewPanic? settings workers with
      | some p => .error (.panic p)
      | none => .ok { settings, threads := .crew (.new workers) }

/-- The bound graph. -/
def graph? (s : Scheduler α) : Option (Graph α) :=
  s.binding.map (·.graph)

/-- What an observer sees of the bound graph and its runs. -/
def snapshot? (s : Scheduler α) : Option (Snapshot Nat) :=
  s.binding.map (·.snapshot)

/-! ### Threads -/

/-- The futures after an operation of an execution, and the stage that the execution
goes on with. -/
def absorb (f : Futures α) (a : Advance α) : Futures α × Stage α :=
  match a.resolved with
  | none => (f, a.stage)
  | some (cell, outcome) =>
    match f.resolve cell outcome with
    | some f => (f, a.stage)
    | none => (f, .broken .resolvedTwice)

/-- A worker after an operation of its execution: it keeps the tasks that became
ready, and is free for the next one when the execution is over. -/
def keep (c : Crew Task (Execution α)) (i : Nat) (x : Execution α) (ready : List Task) :
    Stage α → Crew Task (Execution α)
  | .over => (c.push i ready).finish i
  | stage => (c.push i ready).proceed i { x with stage }

/-- The thread of a node after an operation: it awaits the next run when the
execution is over. -/
def resume (g : Graph α) (x : Execution α) : Stage α → Execution α
  | .over => .await g x.node
  | stage => { x with stage }

/-- Lets a thread perform its next operation, and says whether it did. It does not if it
has to wait, has ended, or the choice does not fit; then the scheduler stays as it is. -/
def attempt [Payload α] (s : Scheduler α) (i : Nat) (choice : Choice) : Scheduler α × Bool :=
  match s.threads with
  | .crew c =>
    match c.execution? i, s.binding with
    | none, _ =>
      match c.advance Execution.ofTask i choice with
      | some c => ({ s with threads := .crew c }, true)
      | none => (s, false)
    | some x, some b =>
      if x.canAdvance b then
        let a := x.advance .stealing b
        let (futures, stage) := absorb s.futures a
        ({ s with
            threads := .crew (keep c i x a.ready stage)
            binding := some a.binding
            futures }, true)
      else (s, false)
    | some _, none => (s, false)
  | .nodes xs =>
    match xs[i]?, s.binding with
    | some x, some b =>
      if x.canAdvance b then
        let a := x.advance .dedicated b
        let (futures, stage) := absorb s.futures a
        ({ s with
            threads := .nodes (xs.setIfInBounds i (resume a.binding.graph x stage))
            binding := some a.binding
            futures }, true)
      else (s, false)
    | _, _ => (s, false)

/-- The scheduler after the next operation of a thread, if the thread performs one. -/
def step [Payload α] (s : Scheduler α) (i : Nat) (choice : Choice) : Option (Scheduler α) :=
  match s.attempt i choice with
  | (s, true) => some s
  | (_, false) => none

/-- Performs the next operation of a notification that the owner's calls left under
way. -/
def stepNotice (s : Scheduler α) (k : Nat) (choice : Choice) : Option (Scheduler α) :=
  match s.threads with
  | .crew c =>
    match c.advanceNotice k choice with
    | some c => some { s with threads := .crew c }
    | none => none
  | .nodes _ => none

/-! ### The owner's calls -/

/-- Whether no run holds a slot; this is what waiting for idleness waits for. -/
def isIdle (s : Scheduler α) : Bool :=
  match s.binding with
  | some b => b.table.isIdle
  | none => true

/-- Whether no run holds a slot and no thread uses the bound graph any more. -/
def isReleased (s : Scheduler α) : Bool :=
  s.isIdle && s.threads.executions.all (·.hasEnded)

/-- The panic of the first node whose thread cannot be started. -/
def nodePanic? (s : Scheduler α) (g : Graph α) : Option Panic :=
  g.nodes.toList.findSome? fun n => ThreadName.panic? (s.settings.nodeThreadName n.name)

/-- Binds a graph. If nodes have threads of their own, they are started one after another.

If a thread cannot be started because of its name, the call ends in a panic, and the threads
that were started before it are left behind: they wait for entries that never come, and a later
call that waits for the threads of nodes would wait for them as well. The state does not carry
them. It stays as it was, and what it says is right as long as no such call was made. -/
def bind (s : Scheduler α) (g : Graph α) : Except Failure (Scheduler α) :=
  if s.isShutDown then .error (.error (.scheduling .shutDown))
  else if s.binding.isSome then .error (.error (.scheduling .alreadyBound))
  else
    match Binding.new g s.settings.pipelineDepth s.settings.backlogCapacity with
    | .error e => .error (.error (.graph e))
    | .ok b =>
      match s.threads with
      | .crew _ => .ok { s with binding := some b }
      | .nodes _ =>
        match s.nodePanic? g with
        | some p => .error (.panic p)
        | none => .ok { s with
            binding := some b
            threads := .nodes ((Array.range b.graph.size).map (.await b.graph)) }

/-- What the call for a run comes back with. -/
inductive RunAnswer (α : Type) where
  | refused (e : Error)
  | accepted (s : Scheduler α) (run : ObjectId) (cell : CellId)
  /-- The call ends in a panic; the run may hold a slot, but has no future. -/
  | broken (s : Scheduler α) (fault : Fault)

/-- Submits a run; its outcome will go through a fresh cell. -/
def run (s : Scheduler α) (inputs : List (NodeId × α)) : RunAnswer α :=
  if s.isShutDown then .refused (.scheduling .shutDown)
  else
    match s.binding with
    | none => .refused (.scheduling .notBound)
    | some b =>
      let cell := s.futures.nextCell
      match b.submit inputs cell with
      | .refused e => .refused e
      | .broken b f => .broken { s with binding := some b, futures := s.futures.extend } f
      | .accepted b run tasks =>
        .accepted { s with
          binding := some b
          threads := s.threads.inject tasks
          futures := s.futures.extend } run cell

/-- Dismisses the threads of nodes once no run holds a slot; workers stay. -/
def dismiss (s : Scheduler α) : Scheduler α :=
  match s.threads, s.binding with
  | .nodes _, some b =>
    if b.table.isIdle then { s with binding := some { b with graph := b.graph.closePools } }
    else s
  | _, _ => s

/-- Gives the graph back, thawed; none as long as it is used. -/
def unbind (s : Scheduler α) : Option (Except Error (Graph α × Scheduler α)) :=
  match s.binding with
  | none => some (.error (.scheduling .notBound))
  | some b =>
    if s.isReleased then
      some (.ok (b.graph.thaw, { s with
        binding := none
        threads := match s.threads with
          | .crew c => .crew c
          | .nodes _ => .nodes #[] }))
    else none

/-- The first half of a shutdown: no run is admitted any more, and the runs of the
backlog are cancelled. -/
def beginShutDown (s : Scheduler α) : Scheduler α :=
  if s.isShutDown then s
  else
    match s.binding with
    | none => s
    | some b =>
      let (table, cancelled) := b.table.close
      { s with binding := some { b with table }, futures := s.futures.cancel cancelled }

/-- The second half of a shutdown: workers are told to end; none as long as a graph is
used. The threads of nodes have been dismissed before. -/
def finishShutDown (s : Scheduler α) : Option (Scheduler α) :=
  if s.isShutDown then some s
  else if !s.isReleased then none
  else
    some { s with
      isShutDown := true
      threads := match s.threads with
        | .crew c => .crew c.stop
        | .nodes xs => .nodes xs }

end Scheduler

end Dataflow
