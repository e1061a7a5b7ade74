/-!
# Event counts

An event count parks threads that found nothing to do without losing the news of
something to do. A thread registers as a waiter and takes the current epoch as its
ticket, looks once more for work, and then either withdraws or parks; it sleeps
only if the epoch is still the one on its ticket. A notification first advances
the epoch, then looks whether anybody waits, and only then, in a critical section,
signals one sleeper or all of them.

Each operation on the epoch or on the number of waiters, and each critical section,
is a step of its own.
-/

namespace Dataflow

/-- The epoch and the number of registered waiters. -/
structure EventCount where
  epoch : Nat := 0
  waiters : Nat := 0
deriving DecidableEq, Repr

namespace EventCount

def register (e : EventCount) : EventCount := { e with waiters := e.waiters + 1 }

def withdraw (e : EventCount) : EventCount := { e with waiters := e.waiters - 1 }

def bump (e : EventCount) : EventCount := { e with epoch := e.epoch + 1 }

end EventCount

/-- How far a waiter has got with parking. -/
inductive Parking where
  /-- About to compare its ticket with the epoch, in a critical section. -/
  | checking (ticket : Nat)
  | asleep (ticket : Nat)
  /-- Woken, and about to compare again. -/
  | woken (ticket : Nat)
  /-- About to give up its registration and return. -/
  | departing
deriving DecidableEq, Repr

namespace Parking

/-- The comparison of the ticket with the epoch. -/
def check (e : EventCount) (ticket : Nat) : Parking :=
  if e.epoch = ticket then .asleep ticket else .departing

def isAsleep : Parking → Bool
  | asleep _ => true
  | _ => false

/-- A sleeper is woken; anybody else does not notice. -/
def rouse : Parking → Parking
  | asleep ticket => woken ticket
  | p => p

end Parking

/-- How far a notification has got. -/
inductive Notice where
  /-- About to advance the epoch. -/
  | bumping (all : Bool)
  /-- About to look whether anybody waits. -/
  | looking (all : Bool)
  /-- About to signal one sleeper or all, in a critical section. -/
  | signalling (all : Bool)
deriving DecidableEq, Repr

namespace Notice

/-- The next step of a notification up to its signal: what becomes of the event
count, and of the notification if it is not over. -/
def step (e : EventCount) : Notice → EventCount × Option Notice
  | bumping all => (e.bump, some (looking all))
  | looking all => (e, if e.waiters = 0 then none else some (signalling all))
  | signalling _ => (e, none)

end Notice

end Dataflow
