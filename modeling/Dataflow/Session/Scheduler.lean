import Dataflow.Scheduler.Drive
import Dataflow.Session.Graph
import Dataflow.Snapshot.Profile

/-!
# Sessions with a scheduler

A session builds a graph, binds it, submits runs and looks at what becomes of them.
Between two steps the threads of the scheduler go on until each of them has nothing
to do or waits at a gate without permits, so an answer shows the scheduler at rest.

A session numbers the runs that were accepted and keeps their futures; it numbers
the wakers that it polls with; and it keeps one profiler, which ends when the graph
that it watches is given back. It can also use the bound graph by hand, while the
threads of the scheduler go on.
-/

namespace Dataflow.Session

open Workload

/-- The number of processors that default settings count on. -/
def processors : Nat := 4

/-- Position of an accepted run in the session. -/
abbrev RunNumber := Nat

/-- A gate to be opened once a run is ready. -/
structure Relief where
  run : RunNumber
  gate : String
  permits : Nat

/-- A step of a session with a scheduler. -/
inductive SchedulerStep where
  | settings
  /-- Binds the free graph, or an empty one if there is none. -/
  | bind
  | bindEmpty
  /-- A new free graph. -/
  | newGraph
  | unbind
  /-- A step with the free graph or, if there is none, with the bound one. -/
  | graph (step : GraphStep)
  | run (inputs : List (NodeId × Value))
  | wait (run : RunNumber) (get : List NodeId)
  /-- Waits for a limited time, which is over if the run is not ready. -/
  | waitTimeout (run : RunNumber) (get : List NodeId)
  | tryTake (run : RunNumber) (get : List NodeId)
  | isReady (run : RunNumber)
  | untilReady (run : RunNumber)
  | poll (run : RunNumber) (get : List NodeId)
  | untilWoken (waker : WakerId)
  | wakes
  | drop (run : RunNumber)
  | waitIdle
  | shutDown (relief : Option Relief)
  | snapshot
  | grant (gate : String) (permits : Nat)
  | untilEntered (gate : String) (n : Nat)
  | untilCount (node : NodeId) (n : Nat) (depths : Option (List Nat))
  | trace (sorted : Bool)
  /-- The first sample of a new profiler. -/
  | profile (mode : ProfileMode)
  | startProfiler
  | untilProfilerEnded

/-- The answer to a step. -/
inductive SchedulerAnswer where
  | done
  | failed (e : Error)
  | panicked (p : Panic)
  | settings (s : Settings)
  | overview (o : Overview)
  | graph (answer : GraphAnswer)
  | noGraph
  | accepted (number : RunNumber) (run : ObjectId)
  | outcome (objectId : ObjectId) (outputs : List (NodeId × Value)) (get : List (Option Value))
  | nothing
  | pending
  | flag (b : Bool)
  | counts (ns : List Nat)
  | reached
  | timedOut
  | snapshot (s : Option (Snapshot Nat))
  | trace (entries : List String)

/-- A scheduler with the free graph, the gates and the journal of its callbacks, the
firings of the bound graph that wait on second threads, the cells of the accepted
runs, the number of wakers, the number of graphs given back, and that number when the
profiler was started. -/
structure Rig where
  scheduler : Scheduler Value
  choices : List Setting
  free : Option (Graph Value)
  gates : Gates
  journal : Array String
  waiting : List Waiting := []
  runs : Array CellId := #[]
  wakers : Nat := 0
  unbound : Nat := 0
  profiled : Option Nat := none

namespace Rig

/-! ### Threads between steps -/

/-- Notes what an operation of a thread has led to: the entering of a callback, and
the arrival at a gate. -/
def note (r : Rig) (i : Nat) (before : Execution Value) : Rig :=
  match r.scheduler.threads.execution? i with
  | none => r
  | some x =>
    let journal :=
      match before.inputs?, x.inputs?, r.scheduler.graph?.bind (·.nodes[x.node]?) with
      | none, some inputs, some n => r.journal.push (journalEntry n.name inputs)
      | _, _, _ => r.journal
    let gates :=
      match x.barrier? with
      | some barrier => r.gates.arrive barrier
      | none => r.gates
    { r with journal, gates }

/-- Lets a thread perform its next operation. -/
def attempt (r : Rig) (i : Nat) (choice : Choice) : Rig × Bool :=
  let (scheduler, moved) := r.scheduler.attempt i choice
  ({ r with scheduler }, moved)

/-- Lets a thread go on with an execution. -/
def goOn (r : Rig) (i : Nat) (x : Execution Value) : Rig × Bool :=
  match r.attempt i .go with
  | (r, true) => (r.note i x, true)
  | (r, false) => (r, false)

/-- Performs the next operation of a thread. A callback goes through a gate only with
a permit. -/
def stepThread : ThreadStep Rig := fun r i =>
  match r.scheduler.threads.execution? i with
  | none =>
    match r.scheduler.plan i with
    | none => (r, false)
    | some choice => r.attempt i choice
  | some x =>
    match x.barrier? with
    | none => r.goOn i x
    | some barrier =>
      match r.gates.pass barrier with
      | none => (r, false)
      | some gates => { r with gates }.goOn i x

/-- Performs the next operation of the notifications from outside. -/
def stepNotices (r : Rig) : Rig × Bool :=
  match r.scheduler.stepFirstNotice with
  | some scheduler => ({ r with scheduler }, true)
  | none => (r, false)

/-- A waiting firing publishes what it can. -/
def stepWaiting (r : Rig) (k : Nat) : Rig × Bool :=
  match r.waiting[k]?, r.scheduler.binding with
  | some w, some b =>
    let (graph, w') := Bench.push b.graph w
    if w'.rest.length < w.rest.length then
      ({ r with
          scheduler := { r.scheduler with binding := some { b with graph } }
          waiting := r.waiting.set k w' }, true)
    else (r, false)
  | _, _ => (r, false)

/-- Performs the next operation of a thread. The notifications from outside count as
one thread more, and then each of the waiting firings does. -/
def step : ThreadStep Rig := fun r i =>
  let threads := r.scheduler.threads.size
  if i < threads then stepThread r i
  else if i = threads then r.stepNotices
  else r.stepWaiting (i - threads - 1)

/-- Lets all threads go on until the scheduler is at rest. -/
def settle (r : Rig) : Rig :=
  let fuel := r.scheduler.operationsLeft + r.gates.permits + r.waiting.length
  step.settle (List.range (r.scheduler.threads.size + 1 + r.waiting.length)) fuel fuel r

/-! ### Settings -/

/-- The settings of a scheduler made in the short way, from the number of workers, if
the strategy has any, and the pipeline depth. -/
def shortSettings (strategy : Strategy) (s : Settings) : Settings :=
  { workerCount := match strategy with
      | .stealing => s.workerCount
      | .dedicated => none
    pipelineDepth := s.pipelineDepth }

/-- A session with a new scheduler and a free graph. -/
def start (strategy : Strategy) (choices : List Setting) (short : Bool) (b : Bench) :
    Except Failure Rig :=
  let settings := Settings.ofList choices
  let settings := if short then shortSettings strategy settings else settings
  match Scheduler.new strategy settings processors with
  | .error e => .error e
  | .ok scheduler => .ok {
      scheduler
      choices
      free := some b.graph
      gates := b.gates
      journal := b.journal }

/-- The settings as they are shown: the number of workers is left out if no choice
was made about it. -/
def shownSettings (r : Rig) : Settings :=
  let s := r.scheduler.settings
  let chosen := (Settings.ofList r.choices).workerCount.isSome
  { s with workerCount := if chosen then some (s.workers processors) else none }

/-! ### Futures -/

/-- The cell of an accepted run. -/
def cellId (r : Rig) (run : RunNumber) : CellId :=
  r.runs[run]?.getD r.scheduler.futures.nextCell

def cell (r : Rig) (run : RunNumber) : Cell Value :=
  r.scheduler.futures.cell (r.cellId run)

def setCell (r : Rig) (run : RunNumber) (c : Cell Value) : Rig :=
  let futures := r.scheduler.futures.setCell (r.cellId run) c
  { r with scheduler := { r.scheduler with futures } }

/-- An outcome as an answer, with the outputs that were asked for. -/
def outcomeAnswer (get : List NodeId) : RunOutcome Value → SchedulerAnswer
  | .ok result => .outcome result.objectId result.outputs (get.map result.output?)
  | .error e => .failed e

/-- Takes the outcome of a run, if it is there. -/
def tryTake (r : Rig) (run : RunNumber) (get : List NodeId) : Rig × SchedulerAnswer :=
  match (r.cell run).tryTake with
  | (some outcome, c) => (r.setCell run c, outcomeAnswer get outcome)
  | (none, _) => (r, .nothing)

/-- Waits for the outcome of a run. -/
def wait (r : Rig) (run : RunNumber) (get : List NodeId) : Rig × SchedulerAnswer :=
  match (r.cell run).wait with
  | none => (r, .timedOut)
  | some (.ok outcome, c) => (r.setCell run c, outcomeAnswer get outcome)
  | some (.error p, c) => (r.setCell run c, .panicked p)

/-- Polls the future of a run with a new waker. -/
def poll (r : Rig) (run : RunNumber) (get : List NodeId) : Rig × SchedulerAnswer :=
  let (answer, c) := (r.cell run).poll r.wakers
  let r := { r.setCell run c with wakers := r.wakers + 1 }
  match answer with
  | .pending => (r, .pending)
  | .ready outcome => (r, outcomeAnswer get outcome)
  | .panicked p => (r, .panicked p)

/-! ### Steps -/

/-- The answer to a wait for something that should be the case at rest. -/
def awaited (r : Rig) (b : Bool) : Rig × SchedulerAnswer :=
  (r, if b then .reached else .timedOut)

/-- Binds a graph. -/
def bind (r : Rig) (g : Graph Value) : Rig × SchedulerAnswer :=
  match r.scheduler.bind g with
  | .ok scheduler => ({ r with scheduler }, .done)
  | .error (.error e) => (r, .failed e)
  | .error (.panic p) => (r, .panicked p)

/-- Dismisses the threads of nodes and lets them end. -/
def dismiss (r : Rig) : Rig :=
  { r with scheduler := r.scheduler.dismiss }.settle

/-- Takes the bound graph back as the free one. -/
def unbind (r : Rig) : Rig × SchedulerAnswer :=
  let r := r.dismiss
  match r.scheduler.unbind with
  | none => (r, .timedOut)
  | some (.error e) => (r, .failed e)
  | some (.ok (g, scheduler)) =>
    ({ r with scheduler, free := some g, unbound := r.unbound + 1 },
      .overview (Bench.overview g))

/-- A step with the free graph, with the gates and the journal of the session. -/
def onFree (r : Rig) (g : Graph Value) (step : GraphStep) : Rig × GraphAnswer :=
  let (b, answer) := Bench.perform ⟨g, [], r.journal, r.gates⟩ step
  ({ r with free := some b.graph, journal := b.journal, gates := b.gates }, answer)

/-- Does something with the bound graph and the firings that wait there. -/
def onBound {β : Type} (r : Rig) (f : Bench → Bench × β) : Rig × β :=
  let graph := r.scheduler.graph?.getD .empty
  let (b, x) := f ⟨graph, r.waiting, r.journal, r.gates⟩
  let binding := r.scheduler.binding.map fun old => { old with graph := b.graph }
  ({ r with
      scheduler := { r.scheduler with binding }
      waiting := b.waiting
      journal := b.journal
      gates := b.gates }, x)

mutual

/-- A step with the bound graph. The threads go on while a firing waits. -/
def boundStep (r : Rig) : GraphStep → Rig × GraphAnswer
  | .fireWhile id run meanwhile =>
    let (r, waited, answer) := r.onBound (·.beginFiring id run)
    let (r, answers) := r.settle.boundSteps meanwhile
    let (r, _) := r.onBound fun b => (b.joinFiring, ())
    (r, .firedWhile waited answers (Bench.firingAnswer answer))
  | step => r.onBound (·.perform step)

/-- Steps with the bound graph, one after another. -/
def boundSteps (r : Rig) : List GraphStep → Rig × List GraphAnswer
  | [] => (r, [])
  | step :: steps =>
    let (r, answer) := r.boundStep step
    let (r, answers) := r.settle.boundSteps steps
    (r, answer :: answers)

end

/-- A step with the free graph, or a reading step with the bound one. -/
def graphStep (r : Rig) (step : GraphStep) : Rig × SchedulerAnswer :=
  match r.free with
  | some g =>
    let (r, answer) := r.onFree g step
    (r, .graph answer)
  | none =>
    if r.scheduler.binding.isSome && step.isReading then
      let (r, answer) := r.boundStep step
      (r, .graph answer)
    else (r, .noGraph)

/-- Submits a run. -/
def run (r : Rig) (inputs : List (NodeId × Value)) : Rig × SchedulerAnswer :=
  match r.scheduler.run inputs with
  | .refused e => (r, .failed e)
  | .broken scheduler f => ({ r with scheduler }, .panicked f.panic)
  | .accepted scheduler run cell =>
    ({ r with scheduler, runs := r.runs.push cell }, .accepted r.runs.size run)

/-- Shuts the scheduler down. A second thread may open a gate meanwhile. -/
def shutDown (r : Rig) (relief : Option Relief) : Rig × SchedulerAnswer :=
  let r := { r with scheduler := r.scheduler.beginShutDown }.settle
  let r := match relief with
    | none => r
    | some relief =>
      if (r.cell relief.run).isReady then
        { r with gates := r.gates.grant relief.gate relief.permits }.settle
      else r
  let r := r.dismiss
  match r.scheduler.finishShutDown with
  | some scheduler => ({ r with scheduler }, .done)
  | none => (r, .timedOut)

/-- Whether a node shows so many executions, and these queue depths if any are given. -/
def showsCount (r : Rig) (node : NodeId) (n : Nat) (depths : Option (List Nat)) : Bool :=
  match r.scheduler.graph?.bind (·.nodeView? node) with
  | some view => decide (n ≤ view.runCount) && depths.all (· == view.queueDepths)
  | none => false

/-- The first sample of a profiler of the bound graph. -/
def profile (r : Rig) (mode : ProfileMode) : SchedulerAnswer :=
  match r.scheduler.snapshot? with
  | none => .failed (.scheduling .notBound)
  | some s => .snapshot (Dataflow.profile mode [.elapsed (some s), .stopped]).1.head?

/-- Performs a step with the scheduler at rest. -/
def perform (r : Rig) : SchedulerStep → Rig × SchedulerAnswer
  | .settings => (r, .settings r.shownSettings)
  | .bind => { r with free := none }.bind (r.free.getD .empty)
  | .bindEmpty => r.bind .empty
  | .newGraph => ({ r with free := some .empty }, .done)
  | .unbind => r.unbind
  | .graph step => r.graphStep step
  | .run inputs => r.run inputs
  | .wait run get => r.wait run get
  | .waitTimeout run get => r.tryTake run get
  | .tryTake run get => r.tryTake run get
  | .isReady run => (r, .flag (r.cell run).isReady)
  | .untilReady run => r.awaited (r.cell run).isReady
  | .poll run get => r.poll run get
  | .untilWoken waker => r.awaited (decide (0 < r.scheduler.futures.wakes waker))
  | .wakes => (r, .counts ((List.range r.wakers).map r.scheduler.futures.wakes))
  | .drop _ => (r, .flag true)
  | .waitIdle => (r, if r.scheduler.isIdle then .done else .timedOut)
  | .shutDown relief => r.shutDown relief
  | .snapshot => (r, .snapshot r.scheduler.snapshot?)
  | .grant gate permits => ({ r with gates := r.gates.grant gate permits }, .done)
  | .untilEntered gate n => r.awaited (decide (n ≤ (r.gates.find gate).entered))
  | .untilCount node n depths => r.awaited (r.showsCount node n depths)
  | .trace sorted =>
    let entries := r.journal.toList
    ({ r with journal := #[] },
      .trace (if sorted then entries.mergeSort fun a b => !decide (b < a) else entries))
  | .profile mode => (r, r.profile mode)
  | .startProfiler =>
    match r.scheduler.binding with
    | none => (r, .failed (.scheduling .notBound))
    | some _ => ({ r with profiled := some r.unbound }, .done)
  | .untilProfilerEnded => r.awaited (r.profiled.all (· != r.unbound))

/-- Performs steps one after another; the scheduler comes to rest after each. -/
def performEach (r : Rig) : List SchedulerStep → Rig × List SchedulerAnswer
  | [] => (r, [])
  | step :: steps =>
    let (r, answer) := r.perform step
    let (r, answers) := r.settle.performEach steps
    (r, answer :: answers)

end Rig

end Dataflow.Session
