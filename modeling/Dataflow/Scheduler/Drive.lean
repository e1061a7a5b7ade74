import Dataflow.Scheduler.Basic

/-!
# A definite schedule

The steps of a scheduler leave open which thread goes on, and what a thief does. A
run of the scheduler by itself needs a decision on both: here every thread goes on
for as long as it can before the next one does, a thief looks into the injector
first and then at the other workers in order, and it gives up only if it would then
park. Whoever holds threads back, for instance at barriers, does so through the
function that performs the single step.
-/

namespace Dataflow

namespace Crew

variable {τ ξ : Type}

/-- The first worker with something to steal, if it is another than the thief, whose own
deque is empty. -/
def victim? (c : Crew τ ξ) (i : Nat) : Option Nat :=
  (c.workers.findIdx? fun w => !w.deque.isEmpty).filter (· ≠ i)

/-- Whether a thief that gives up would park, or end. -/
def wouldRest (c : Crew τ ξ) : Bool :=
  c.isStopped || !(c.thieves == 1 && decide (0 < c.actives))

/-- What a thief does next. -/
def planTheft (c : Crew τ ξ) (i : Nat) : Option Choice :=
  if !c.injector.isEmpty then some (.fromInjector 0)
  else
    match c.victim? i with
    | some j => some (.fromWorker j)
    | none => if c.wouldRest then some .giveUp else none

/-- What a worker does next, if it does not sleep. -/
def plan (c : Crew τ ξ) (i : Nat) : Option Choice :=
  match c.workers[i]? with
  | none => none
  | some w =>
    match w.stage with
    | .exploring => c.planTheft i
    | .parking (.asleep _) => none
    | .notifying (.signalling _) _ => some (.wake c.sleeper?)
    | _ => some .go

/-- How the first notification from outside goes on. -/
def planNotice (c : Crew τ ξ) : Choice :=
  match c.notices with
  | .signalling _ :: _ => .wake c.sleeper?
  | _ => .go

end Crew

namespace Scheduler

variable {α : Type}

/-- What a thread does next. -/
def plan (s : Scheduler α) (i : Nat) : Option Choice :=
  match s.threads with
  | .crew c => c.plan i
  | .nodes _ => some .go

/-- Performs the next operation of the first notification. -/
def stepFirstNotice (s : Scheduler α) : Option (Scheduler α) :=
  match s.threads with
  | .crew c => s.stepNotice 0 c.planNotice
  | .nodes _ => none

/-- More operations than the executions of one run take, apart from waits at
barriers: for each node some for finding and ending it, some for each inlet, and
some for each outlet. -/
def operationsPerRun (g : Graph α) : Nat :=
  g.nodes.foldl
    (fun sum n => sum + 64 + 4 * n.predecessors.length + 4 * n.successors.length) 0

/-- More operations than the threads can perform without further calls. No node is
executed more often than there are runs and entries. -/
def operationsLeft (s : Scheduler α) : Nat :=
  let perThread := 64 * (s.threads.size + 1)
  match s.binding with
  | none => perThread
  | some b =>
    let runs := b.table.inFlight + b.table.backlog.length + b.graph.entryCount + 1
    runs * operationsPerRun b.graph + perThread

end Scheduler

/-- A way of letting thread `i` perform one operation, which says whether it did. -/
abbrev ThreadStep (σ : Type) : Type :=
  σ → Nat → σ × Bool

namespace ThreadStep

variable {σ : Type}

/-- Lets a thread go on for at most so many operations; says whether it did, or
somebody had moved before. -/
def burst (step : ThreadStep σ) (i : Nat) : Nat → σ → Bool → σ × Bool
  | 0, s, moved => (s, moved)
  | fuel + 1, s, moved =>
    match step s i with
    | (s, true) => step.burst i fuel s true
    | (s, false) => (s, moved)

/-- Lets each of the threads go on in turn; says whether any did, or had before. -/
def sweep (step : ThreadStep σ) (fuel : Nat) : List Nat → σ → Bool → σ × Bool
  | [], s, moved => (s, moved)
  | i :: threads, s, moved =>
    match step.burst i fuel s moved with
    | (s, moved) => step.sweep fuel threads s moved

/-- Sweeps over the threads until none can go on, at most so many times. -/
def settle (step : ThreadStep σ) (threads : List Nat) (fuel : Nat) : Nat → σ → σ
  | 0, s => s
  | sweeps + 1, s =>
    match step.sweep fuel threads s false with
    | (s, true) => step.settle threads fuel sweeps s
    | (s, false) => s

end ThreadStep

end Dataflow
