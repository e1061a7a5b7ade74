import Dataflow.Run.Cell

/-!
# Threads at a completion cell

One thread brings the outcome of a run to a cell while others look at the cell, take
from it, poll it or wait at it. Each of them acts in a critical section. The thread
that resolves the cell stores the outcome in one; then it wakes everybody who sleeps,
and then the waker that was left behind, each in a step of its own.

A thread that waits sleeps as long as the cell is not resolved. It looks again when
it is woken, and may also wake without a signal; if it waits for a limited time, it
may find that its time is over. `Handover.advance` performs one step of one thread.
-/

namespace Dataflow

/-- A call that a thread makes on a cell. -/
inductive CellCall (α : Type) where
  | resolve (outcome : RunOutcome α)
  | isReady
  | tryTake
  | wait
  /-- Wait for a limited time. -/
  | waitLimited
  | poll (waker : WakerId)

/-- What a call comes back with. -/
inductive CellReply (α : Type) where
  | resolved
  /-- The cell was resolved before. -/
  | refused
  | flag (ready : Bool)
  | taken (outcome : Option (RunOutcome α))
  | waited (outcome : Except Panic (RunOutcome α))
  | polled (answer : Poll α)

namespace CellReply

variable {α : Type}

/-- The outcome that the call has obtained, if it has. -/
def outcome? : CellReply α → Option (RunOutcome α)
  | taken outcome => outcome
  | waited (.ok outcome) => some outcome
  | polled (.ready outcome) => some outcome
  | _ => none

end CellReply

/-- How a critical section ends: the call is over, the sleepers and a waker are to be
woken, or the thread sleeps. -/
inductive CellSection (α : Type) where
  | leave (cell : Cell α) (reply : CellReply α)
  | announce (cell : Cell α) (waker : Option WakerId)
  | sleep

namespace CellCall

variable {α : Type}

/-- The critical section of a call; `expired` tells a limited wait that its time is
over. -/
def enter (call : CellCall α) (expired : Bool) (c : Cell α) : CellSection α :=
  match call with
  | resolve outcome =>
    match c.resolve outcome with
    | some (waker, c) => .announce c waker
    | none => .leave c .refused
  | isReady => .leave c (.flag c.isReady)
  | tryTake => .leave c.tryTake.2 (.taken c.tryTake.1)
  | wait =>
    match c.wait with
    | some (outcome, c) => .leave c (.waited outcome)
    | none => .sleep
  | waitLimited =>
    match c.waitLimited expired with
    | some (outcome, c) => .leave c (.taken outcome)
    | none => .sleep
  | poll waker => .leave (c.poll waker).2 (.polled (c.poll waker).1)

end CellCall

/-- Where a thread stands in its call. -/
inductive CellThread (α : Type) where
  | entering (call : CellCall α)
  | asleep (call : CellCall α)
  | woken (call : CellCall α)
  /-- About to wake everybody who sleeps. -/
  | announcing (waker : Option WakerId)
  /-- About to wake the waker that was left behind. -/
  | waking (waker : Option WakerId)
  | done (reply : CellReply α)

namespace CellThread

variable {α : Type}

/-- A sleeper is woken; other threads do not notice. -/
def rouse : CellThread α → CellThread α
  | asleep call => woken call
  | t => t

/-- The thread after its critical section. -/
def ofSection (call : CellCall α) : CellSection α → CellThread α
  | .leave _ reply => done reply
  | .announce _ waker => announcing waker
  | .sleep => asleep call

end CellThread

/-- A cell, the threads that call it, and the wakers that were woken. -/
structure Handover (α : Type) where
  cell : Cell α := {}
  threads : Array (CellThread α) := #[]
  woken : List WakerId := []

namespace Handover

variable {α : Type}

/-- A thread starts a call. -/
def call (h : Handover α) (c : CellCall α) : Handover α :=
  { h with threads := h.threads.push (.entering c) }

/-- Changes where a thread stands. -/
def setThread (h : Handover α) (i : Nat) (t : CellThread α) : Handover α :=
  { h with threads := h.threads.setIfInBounds i t }

/-- A thread passes its critical section. -/
def pass (h : Handover α) (i : Nat) (call : CellCall α) (expired : Bool) : Handover α :=
  let s := call.enter expired h.cell
  let cell := match s with
    | .leave cell _ => cell
    | .announce cell _ => cell
    | .sleep => h.cell
  { h with cell }.setThread i (.ofSection call s)

/-- The next step of thread `i`; none if its call is over. A step of a sleeper is a
waking without a signal. -/
def advance (h : Handover α) (i : Nat) (expired : Bool) : Option (Handover α) :=
  match h.threads[i]? with
  | some (.entering call) => some (h.pass i call expired)
  | some (.woken call) => some (h.pass i call expired)
  | some (.asleep call) => some (h.setThread i (.woken call))
  | some (.announcing waker) =>
    some ({ h with threads := h.threads.map CellThread.rouse }.setThread i (.waking waker))
  | some (.waking waker) =>
    some ({ h with woken := h.woken ++ waker.toList }.setThread i (.done .resolved))
  | some (.done _) => none
  | none => none

end Handover

end Dataflow
