import Dataflow.Crew.EventCount

/-!
# Threads at an event count

A lot is an event count with any number of threads that use it. A thread that is away
may start to wait or to notify. One that waits registers, takes its ticket, and then
withdraws or parks; one that notifies advances the epoch, looks for waiters, and
signals. Whoever uses an event count follows these steps and no others, so what holds
of every lot holds of every use; for crews this is `Crew.Operated.uses`.

`Lot.advance` performs one operation of one thread. A signal to one sleeper takes any
of those that sleep, and a sleeper may wake without a signal.
-/

namespace Dataflow

/-- Where a thread stands. -/
inductive LotThread where
  /-- Neither waiting nor notifying. -/
  | away
  /-- Registered, and about to take its ticket. -/
  | ticketing
  /-- Holding a ticket, and free to withdraw or to park. -/
  | deciding (ticket : Nat)
  | parking (p : Parking)
  | notifying (n : Notice)
deriving DecidableEq, Repr

/-- What a thread does, as far as it is free to choose. -/
inductive LotMove where
  /-- Go on where there is only one way. -/
  | go
  /-- Start to wait. -/
  | register
  | withdraw
  | park
  /-- Start to notify one sleeper or all. -/
  | notify (all : Bool)
  /-- Signal this sleeper, or nobody if none sleeps. -/
  | wake (sleeper : Option Nat)
deriving DecidableEq, Repr

namespace LotThread

def isAsleep : LotThread → Bool
  | parking p => p.isAsleep
  | _ => false

/-- A sleeper is woken; anybody else does not notice. -/
def rouse : LotThread → LotThread
  | parking p => parking p.rouse
  | t => t

/-- Whether the thread counts as a waiter. -/
def isRegistered : LotThread → Bool
  | ticketing | deciding _ | parking _ => true
  | away | notifying _ => false

end LotThread

/-- An event count and the threads that use it. -/
structure Lot where
  events : EventCount := {}
  threads : Array LotThread
deriving Repr

namespace Lot

/-- A lot of so many threads that are away. -/
def new (threads : Nat) : Lot where
  threads := Array.replicate threads .away

/-- Changes the event count and where one thread stands. -/
def put (l : Lot) (events : EventCount) (i : Nat) (t : LotThread) : Lot :=
  ⟨events, l.threads.setIfInBounds i t⟩

/-- A signal reaches its target; none if the target does not fit. -/
def signal (l : Lot) (all : Bool) (target : Option Nat) : Option Lot :=
  if all then some { l with threads := l.threads.map (·.rouse) }
  else
    match target with
    | none => if l.threads.any (·.isAsleep) then none else some l
    | some j =>
      if l.threads[j]?.any (·.isAsleep) then
        some { l with threads := l.threads.modify j (·.rouse) }
      else none

/-- Performs an operation of thread `i`; none if the move does not fit. -/
def advance (l : Lot) (i : Nat) (move : LotMove) : Option Lot :=
  match l.threads[i]?, move with
  | some .away, .register => some (l.put l.events.register i .ticketing)
  | some .away, .notify all => some (l.put l.events i (.notifying (.bumping all)))
  | some .ticketing, .go => some (l.put l.events i (.deciding l.events.epoch))
  | some (.deciding _), .withdraw => some (l.put l.events.withdraw i .away)
  | some (.deciding ticket), .park => some (l.put l.events i (.parking (.checking ticket)))
  | some (.parking (.checking ticket)), .go =>
    some (l.put l.events i (.parking (.check l.events ticket)))
  | some (.parking (.woken ticket)), .go =>
    some (l.put l.events i (.parking (.check l.events ticket)))
  | some (.parking (.asleep ticket)), .go => some (l.put l.events i (.parking (.woken ticket)))
  | some (.parking .departing), .go => some (l.put l.events.withdraw i .away)
  | some (.notifying (.signalling all)), .wake target =>
    (l.put l.events i .away).signal all target
  | some (.notifying (.bumping all)), .go =>
    some (l.put l.events.bump i (.notifying (.looking all)))
  | some (.notifying (.looking all)), .go =>
    some (l.put l.events i
      (if l.events.waiters = 0 then .away else .notifying (.signalling all)))
  | _, _ => none

end Lot

end Dataflow
