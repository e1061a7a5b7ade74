import Dataflow.Panic
import Dataflow.Error
import Dataflow.Sorting

/-!
# Completion cells

The outcome of a run goes through a cell: the scheduler resolves it once, and the
holder of the run's future takes the outcome out of it once, by waiting, by asking,
or by polling. A poll that comes too early leaves a waker behind, and resolving
wakes the last one left.

Taking the outcome a second time gives nothing where the call may come back with
nothing, and panics where it may not.
-/

namespace Dataflow

/-- The outputs of a successful run, in ascending order of the sinks. A sink has one of
them unless it was executed several times. -/
structure RunResult (α : Type) where
  objectId : ObjectId
  outputs : List (NodeId × α)
deriving DecidableEq, Repr

namespace RunResult

variable {α : Type}

/-- Puts the outputs in order. -/
def ofOutputs (objectId : ObjectId) (outputs : List (NodeId × α)) : RunResult α :=
  ⟨objectId, Sorting.sortOn (·.1) outputs⟩

/-- The output of a sink; the last one, if it has several. -/
def output? (r : RunResult α) (id : NodeId) : Option α :=
  r.outputs.reverse.lookup id

end RunResult

/-- How a run ends. -/
abbrev RunOutcome (α : Type) : Type :=
  Except Error (RunResult α)

/-- Position of a waker among those that polls were made with. -/
abbrev WakerId := Nat

/-- A cell: the outcome until it is taken, whether the cell was resolved, and the
waker of the last poll that came too early. -/
structure Cell (α : Type) where
  outcome : Option (RunOutcome α) := none
  resolved : Bool := false
  waker : Option WakerId := none

/-- What a poll comes back with. -/
inductive Poll (α : Type) where
  | pending
  | ready (outcome : RunOutcome α)
  | panicked (p : Panic)

namespace Cell

variable {α : Type}

/-- Stores the outcome and hands over the waker that is to be woken, if one was left
behind; none if the cell was resolved before. -/
def resolve (c : Cell α) (outcome : RunOutcome α) : Option (Option WakerId × Cell α) :=
  if c.resolved then none
  else some (c.waker, { outcome := some outcome, resolved := true, waker := none })

/-- Whether there is an outcome that was not taken yet. -/
def isReady (c : Cell α) : Bool := c.outcome.isSome

/-- Takes the outcome, if it is there. -/
def tryTake (c : Cell α) : Option (RunOutcome α) × Cell α :=
  (c.outcome, { c with outcome := none })

/-- The end of waiting for the outcome; none as long as the cell is not resolved. -/
def wait (c : Cell α) : Option (Except Panic (RunOutcome α) × Cell α) :=
  if c.resolved then
    match c.outcome with
    | some outcome => some (.ok outcome, { c with outcome := none })
    | none => some (.error (.text "RunFuture::wait: [1]"), c)
  else none

/-- The end of waiting for a limited time: the outcome, or nothing if it was taken or
the time is over; none as long as the wait goes on. -/
def waitLimited (c : Cell α) (expired : Bool) : Option (Option (RunOutcome α) × Cell α) :=
  if c.resolved then some c.tryTake
  else if expired then some (none, c)
  else none

/-- Asks for the outcome on behalf of a waker. -/
def poll (c : Cell α) (waker : WakerId) : Poll α × Cell α :=
  match c.outcome with
  | some outcome => (.ready outcome, { c with outcome := none })
  | none =>
    if c.resolved then (.panicked (.text "RunFuture::poll: polled after completion"), c)
    else (.pending, { c with waker := some waker })

end Cell

end Dataflow
