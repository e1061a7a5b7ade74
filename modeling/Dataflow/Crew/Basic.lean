import Dataflow.Crew.EventCount

/-!
# Crews

A crew is a fixed number of workers that execute tasks. Tasks from outside come
into the `injector`, first come first served. Each worker has a deque of its own:
it puts the tasks that it makes ready on top and takes from the top, while others
steal from the bottom. A worker without work looks for some as a thief, and parks
on an event count when it finds none.

Workers that are active and workers that are looking for work are counted, so that
the last thief does not park while somebody is active, and the first worker to
become active, like the last thief to find something, calls another.

`Crew.advance` performs one operation of one worker. It is left open which victim
a thief picks, when it gives up, and which sleeper a signal wakes; a `Choice` says
so. What a worker does while it executes a task is not decided here: such a worker
carries an execution of an arbitrary type.

The injector and the deques stand for concurrent queues from a library, of which the
following is taken for granted, as it documents it. Each call takes effect at one
moment. The injector gives tasks away in the order in which they came; a deque gives
its worker the task that was put there last, and a thief the first. A thief that takes
several tasks from the injector moves them into its own deque and is given one of
them; how many these are is left open. That it is given the oldest, and finds the older
of the others above the younger, is how the library does it, and no theorem rests on
it. A call may also come back without a task because others are at the queue; the thief
then tries again or gives up.
-/

namespace Dataflow

/-- Where a notification leads the worker that makes it. -/
inductive Errand (τ : Type) where
  /-- It starts the task, counted as active. -/
  | work (task : τ)
  /-- It becomes active with the task. -/
  | activate (task : τ)
  /-- It gives up looking for work and ends. -/
  | quit
deriving Repr

/-- Why a registered waiter withdraws. -/
inductive Withdrawal where
  /-- The injector is not empty. -/
  | grab
  /-- The crew has been stopped. -/
  | quit
  /-- It was the last thief while somebody was active. -/
  | rejoin
deriving DecidableEq, Repr

/-- What a worker does next. -/
inductive WorkerStage (τ ξ : Type) where
  /-- Count itself as a thief. -/
  | joining
  /-- Look for a task in the injector and in the deques of others. -/
  | exploring
  /-- Register as a waiter. -/
  | registering
  /-- Take the epoch as its ticket. -/
  | ticketing
  /-- Look into the injector once more. -/
  | rechecking (ticket : Nat)
  | withdrawing (why : Withdrawal)
  /-- Try the injector after withdrawing. -/
  | grabbing
  /-- Read whether the crew has been stopped. -/
  | checkingStop (ticket : Nat)
  /-- Stop counting itself as a thief before parking. -/
  | leaving (ticket : Nat)
  /-- Read whether anybody is active, having been the last thief. -/
  | checkingActives (ticket : Nat)
  | parking (p : Parking)
  /-- Stop counting itself as a thief, having found a task. -/
  | found (task : τ)
  | notifying (n : Notice) (errand : Errand τ)
  /-- Count itself as active. -/
  | activating (task : τ)
  /-- Read whether there is a thief, being the first to become active. -/
  | checkingThieves (task : τ)
  /-- Execute a task. -/
  | running (execution : ξ)
  /-- Take the next task from its own deque. -/
  | popping
  /-- Stop counting itself as active. -/
  | retiring
  /-- Stop counting itself as a thief before it ends. -/
  | quitting
  | ended

/-- A worker: its deque, top first, and what it does next. -/
structure Worker (τ ξ : Type) where
  deque : List τ := []
  stage : WorkerStage τ ξ := .joining

/-- A crew of workers, and the notifications made from outside that are under way. -/
structure Crew (τ ξ : Type) where
  injector : List τ := []
  workers : Array (Worker τ ξ)
  actives : Nat := 0
  thieves : Nat := 0
  events : EventCount := {}
  notices : List Notice := []
  isStopped : Bool := false

/-- What is left open about a step. -/
inductive Choice where
  /-- Nothing is. -/
  | go
  /-- A thief takes the oldest task of the injector, and as many more of the
  following ones into its deque. -/
  | fromInjector (more : Nat)
  /-- A thief steals from another worker. -/
  | fromWorker (victim : Nat)
  /-- A thief gives up. -/
  | giveUp
  /-- A signal to one sleeper wakes this worker, or nobody if none sleeps. -/
  | wake (sleeper : Option Nat)
deriving DecidableEq, Repr

namespace WorkerStage

variable {τ ξ : Type}

def isAsleep : WorkerStage τ ξ → Bool
  | parking p => p.isAsleep
  | _ => false

/-- A sleeper is woken; anybody else does not notice. -/
def rouse : WorkerStage τ ξ → WorkerStage τ ξ
  | parking p => parking p.rouse
  | s => s

end WorkerStage

namespace Worker

variable {τ ξ : Type}

def isAsleep (w : Worker τ ξ) : Bool := w.stage.isAsleep

def rouse (w : Worker τ ξ) : Worker τ ξ := { w with stage := w.stage.rouse }

/-- The execution that the worker is busy with. -/
def execution? (w : Worker τ ξ) : Option ξ :=
  match w.stage with
  | .running x => some x
  | _ => none

end Worker

namespace Crew

variable {τ ξ : Type}

/-- A crew of idle workers. -/
def new (workers : Nat) : Crew τ ξ where
  workers := Array.replicate workers {}

/-- Changes what a worker does next. -/
def setStage (c : Crew τ ξ) (i : Nat) (s : WorkerStage τ ξ) : Crew τ ξ :=
  { c with workers := c.workers.modify i fun w => { w with stage := s } }

/-- Changes the deque of a worker. -/
def setDeque (c : Crew τ ξ) (i : Nat) (deque : List τ) : Crew τ ξ :=
  { c with workers := c.workers.modify i fun w => { w with deque } }

/-- Tasks that a worker makes ready go on top of its deque, one after another. -/
def push (c : Crew τ ξ) (i : Nat) (tasks : List τ) : Crew τ ξ :=
  { c with workers := c.workers.modify i fun w => { w with deque := tasks.reverse ++ w.deque } }

/-- Tasks from outside go to the end of the injector, each with a notification. -/
def inject (c : Crew τ ξ) (tasks : List τ) : Crew τ ξ :=
  { c with
    injector := c.injector ++ tasks
    notices := c.notices ++ tasks.map fun _ => .bumping false }

/-- The crew is told to end when the queues are empty. -/
def stop (c : Crew τ ξ) : Crew τ ξ :=
  { c with isStopped := true, notices := c.notices ++ [.bumping true] }

/-- The first worker that sleeps. -/
def sleeper? (c : Crew τ ξ) : Option Nat :=
  c.workers.findIdx? (·.isAsleep)

/-- A signal reaches its target; none if the target does not fit. -/
def signal (c : Crew τ ξ) (all : Bool) (target : Option Nat) : Option (Crew τ ξ) :=
  if all then some { c with workers := c.workers.map (·.rouse) }
  else
    match target with
    | none => if c.sleeper?.isNone then some c else none
    | some j =>
      if c.workers[j]?.any (·.isAsleep) then
        some { c with workers := c.workers.modify j (·.rouse) }
      else none

/-- One step of a notification: what becomes of the crew and of the notification. -/
def notify (c : Crew τ ξ) (n : Notice) (choice : Choice) :
    Option (Crew τ ξ × Option Notice) :=
  let (events, next) := n.step c.events
  let c := { c with events }
  match n, choice with
  | .signalling all, .wake target => (c.signal all target).map fun c => (c, next)
  | .signalling _, _ => none
  | _, .go => some (c, next)
  | _, _ => none

/-- Where a worker goes on after its notification. -/
def afterNotice (start : τ → ξ) : Errand τ → WorkerStage τ ξ
  | .work task => .running (start task)
  | .activate task => .activating task
  | .quit => .quitting

/-- What a worker does after it withdrew. -/
def afterWithdrawal : Withdrawal → WorkerStage τ ξ
  | .grab => .grabbing
  | .quit => .notifying (.bumping true) .quit
  | .rejoin => .joining

/-- A thief's attempt at a task. -/
def steal (c : Crew τ ξ) (i : Nat) : Choice → Option (Crew τ ξ)
  | .fromInjector more =>
    match c.injector with
    | [] => none
    | task :: rest =>
      let deque := (c.workers[i]?.map (·.deque)).getD []
      some (({ c with injector := rest.drop more }.setDeque i (rest.take more ++ deque)).setStage
        i (.found task))
  | .fromWorker victim =>
    if victim = i then none
    else
      match c.workers[victim]?.bind (·.deque.getLast?) with
      | none => none
      | some task =>
        let deque := (c.workers[victim]?.map (·.deque)).getD []
        some ((c.setDeque victim deque.dropLast).setStage i (.found task))
  | .giveUp => some (c.setStage i .registering)
  | _ => none

/-- Performs the next operation of a worker that does not execute a task; none if
it sleeps, has ended, or the choice does not fit. -/
def advance (start : τ → ξ) (c : Crew τ ξ) (i : Nat) (choice : Choice) : Option (Crew τ ξ) :=
  match c.workers[i]? with
  | none => none
  | some w =>
    match w.stage, choice with
    | .exploring, choice => c.steal i choice
    | .notifying n errand, choice =>
      match c.notify n choice with
      | none => none
      | some (c, some n) => some (c.setStage i (.notifying n errand))
      | some (c, none) => some (c.setStage i (afterNotice start errand))
    | .joining, .go => some ({ c with thieves := c.thieves + 1 }.setStage i .exploring)
    | .registering, .go =>
      some ({ c with events := c.events.register }.setStage i .ticketing)
    | .ticketing, .go => some (c.setStage i (.rechecking c.events.epoch))
    | .rechecking ticket, .go =>
      some (c.setStage i
        (if c.injector.isEmpty then .checkingStop ticket else .withdrawing .grab))
    | .withdrawing why, .go =>
      some ({ c with events := c.events.withdraw }.setStage i (afterWithdrawal why))
    | .grabbing, .go =>
      match c.injector with
      | [] => some (c.setStage i .exploring)
      | task :: rest => some ({ c with injector := rest }.setStage i (.found task))
    | .checkingStop ticket, .go =>
      some (c.setStage i (if c.isStopped then .withdrawing .quit else .leaving ticket))
    | .leaving ticket, .go =>
      some ({ c with thieves := c.thieves - 1 }.setStage i
        (if c.thieves = 1 then .checkingActives ticket else .parking (.checking ticket)))
    | .checkingActives ticket, .go =>
      some (c.setStage i
        (if 0 < c.actives then .withdrawing .rejoin else .parking (.checking ticket)))
    | .parking (.checking ticket), .go
    | .parking (.woken ticket), .go =>
      some (c.setStage i (.parking (.check c.events ticket)))
    | .parking .departing, .go =>
      some ({ c with events := c.events.withdraw }.setStage i .joining)
    | .parking (.asleep ticket), .wake none => some (c.setStage i (.parking (.woken ticket)))
    | .found task, .go =>
      some ({ c with thieves := c.thieves - 1 }.setStage i
        (if c.thieves = 1 then .notifying (.bumping false) (.activate task)
        else .activating task))
    | .activating task, .go =>
      some ({ c with actives := c.actives + 1 }.setStage i
        (if c.actives = 0 then .checkingThieves task else .running (start task)))
    | .checkingThieves task, .go =>
      some (c.setStage i
        (if c.thieves = 0 then .notifying (.bumping false) (.work task)
        else .running (start task)))
    | .popping, .go =>
      match w.deque with
      | [] => some (c.setStage i .retiring)
      | task :: rest => some ((c.setDeque i rest).setStage i (.running (start task)))
    | .retiring, .go => some ({ c with actives := c.actives - 1 }.setStage i .joining)
    | .quitting, .go => some ({ c with thieves := c.thieves - 1 }.setStage i .ended)
    | _, _ => none

/-- Performs the next operation of one of the notifications from outside. -/
def advanceNotice (c : Crew τ ξ) (k : Nat) (choice : Choice) : Option (Crew τ ξ) :=
  match c.notices[k]? with
  | none => none
  | some n =>
    match c.notify n choice with
    | none => none
    | some (c, some n) => some { c with notices := c.notices.set k n }
    | some (c, none) => some { c with notices := c.notices.eraseIdx k }

/-! ### Busy workers -/

/-- A worker goes on with its execution. -/
def proceed (c : Crew τ ξ) (i : Nat) (x : ξ) : Crew τ ξ :=
  c.setStage i (.running x)

/-- A worker has finished its task. -/
def finish (c : Crew τ ξ) (i : Nat) : Crew τ ξ :=
  c.setStage i .popping

/-- The execution that a worker is busy with. -/
def execution? (c : Crew τ ξ) (i : Nat) : Option ξ :=
  c.workers[i]?.bind (·.execution?)

/-- The executions that workers are busy with. -/
def executions (c : Crew τ ξ) : List ξ :=
  c.workers.toList.filterMap (·.execution?)

end Crew

end Dataflow
