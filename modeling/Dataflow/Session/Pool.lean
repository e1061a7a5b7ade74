import Dataflow.Capacity
import Dataflow.Pool.Monitor

/-!
# Sessions with a pool

A session makes calls on a pool one after another. A call that would wait is not
made, except as one of two calls at a time: the first is made by a second thread,
and while that waits the session makes the other call. If nothing in that call wakes
the second thread, the session closes the pool.
-/

namespace Dataflow.Session

/-- A call, or a look at the pool. -/
abbrev SimplePoolStep (α : Type) : Type :=
  Option (PoolCall α)

/-- A step of a session with a pool. -/
inductive PoolStep (α : Type) where
  | simple (step : SimplePoolStep α)
  /-- A call by a second thread, and what is done while it waits. -/
  | overlapped (waiter : PoolCall α) (meanwhile : SimplePoolStep α)

/-- The answer to a simple step. -/
inductive SimplePoolAnswer (α : Type) where
  | looked
  | wouldWait
  | reply (r : PoolReply α)

/-- The answer to a step. -/
inductive PoolAnswer (α : Type) where
  | simple (answer : SimplePoolAnswer α)
  /-- The second thread did not have to wait. -/
  | unhindered (waiter : PoolReply α)
  /-- What the second thread came back with, the answer to the other call, and
  whether that call woke it. -/
  | overlapped (waiter : PoolReply α) (meanwhile : SimplePoolAnswer α) (woken : Bool)

/-- The size, the number of full and of free slots, the waits, and the closing flag
of a pool. -/
structure PoolState where
  capacity : Nat
  full : Nat
  free : Nat
  starved : Nat
  isClosed : Bool
deriving DecidableEq, Repr

def PoolState.of {α : Type} (p : Pool α) : PoolState :=
  ⟨p.capacity, p.numFull, p.numFree, p.starved, p.isClosed⟩

variable {α : Type}

/-- Whether a call would have to wait. -/
def callWaits (p : Pool α) (c : PoolCall α) : Bool :=
  match c.enter true p with
  | .sleep _ _ => true
  | .leave _ _ _ => false

/-- The bytes of a slot for a number of 64 bits: a mark whether it is full, the run, and
the number. -/
def slotBytes : Nat := 24

/-- A new pool. Its slots are made at once. -/
def newPool (capacity : Nat) : Except Panic (Pool Int64) :=
  match capacityPanic? slotBytes capacity with
  | some p => .error p
  | none => .ok (.new capacity)

/-- A simple step, made by thread `i` of a monitor that has so many threads. -/
def performSimple (m : Monitor α) (i : Nat) :
    SimplePoolStep α → Monitor α × SimplePoolAnswer α
  | none => (m, .looked)
  | some c =>
    if callWaits m.pool c then (m, .wouldWait)
    else
      let m := (m.call c).proceed i Monitor.callSteps
      match m.reply? i with
      | some r => (m, .reply r)
      | none => (m, .wouldWait)

/-- Lets the second thread come to an end, if need be by closing the pool. -/
def joinWaiter (m : Monitor α) (answer : SimplePoolAnswer α) : Pool α × PoolAnswer α :=
  let woken := !m.sleeps 0
  let m := if woken then m else (m.call .close).proceed m.threads.size Monitor.callSteps
  let m := m.proceed 0 Monitor.callSteps
  match m.reply? 0 with
  | some r => (m.pool, .overlapped r answer woken)
  | none => (m.pool, .simple .wouldWait)

/-- A step of a session with a pool. -/
def performPool (p : Pool α) : PoolStep α → Pool α × PoolAnswer α
  | .simple step =>
    let (m, answer) := performSimple ⟨p, #[]⟩ 0 step
    (m.pool, .simple answer)
  | .overlapped waiter meanwhile =>
    let m := (Monitor.call ⟨p, #[]⟩ waiter).proceed 0 Monitor.callSteps
    match m.reply? 0 with
    | some r => (m.pool, .unhindered r)
    | none =>
      let (m, answer) := performSimple m 1 meanwhile
      joinWaiter m answer

end Dataflow.Session
