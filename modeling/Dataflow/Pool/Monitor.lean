import Dataflow.Pool.Basic

/-!
# Threads at a pool

Any number of threads call one pool. A call enters a critical section; there it
either ends, and then the thread still has to signal one of two conditions after
it left, or it goes to sleep on a condition. A signal wakes one sleeper, any one
of them, or all of them, and a sleeper may also wake without a signal. A thread
that woke enters its critical section again.

Every critical section and every signal is one step of `Monitor.advance`.
-/

namespace Dataflow

/-- A call that a thread makes on a pool. -/
inductive PoolCall (α : Type) where
  | push (x : Tagged α)
  | tryPush (x : Tagged α)
  | pop
  | tryPop
  | take (id : ObjectId)
  | close

/-- What a call comes back with. -/
inductive PoolReply (α : Type) where
  | stored
  | rejected (r : Rejected α)
  | taken (x : Option (Tagged α))
  | closed

/-- What a thread sleeps on. -/
inductive Condition where
  | notFull
  | notEmpty
deriving DecidableEq, Repr

/-- A signal to one sleeper on a condition, or to all of them. -/
structure Signal where
  condition : Condition
  toAll : Bool
deriving DecidableEq, Repr

/-- How a critical section ends: the call is over but for its signals, or the
thread sleeps. -/
inductive Section (α : Type) where
  | leave (pool : Pool α) (signals : List Signal) (reply : PoolReply α)
  | sleep (pool : Pool α) (condition : Condition)

namespace PoolCall

variable {α : Type}

/-- The critical section of a call that ended by taking a value or not. -/
def afterTake (p : Pool α) : Option (Tagged α × Pool α) → Section α
  | some (x, p) => .leave p [⟨.notFull, false⟩] (.taken (some x))
  | none => .leave p [] (.taken none)

/-- The critical section of a call that tried to store a value. -/
def afterPush (p : Pool α) : Except (Rejected α) (Pool α) → Section α
  | .ok p => .leave p [⟨.notEmpty, false⟩] .stored
  | .error r => .leave p [] (.rejected r)

/-- The critical section of a call. Only the `first` entry of a push that has to
wait counts as starvation. -/
def enter (c : PoolCall α) (first : Bool) (p : Pool α) : Section α :=
  match c with
  | push x =>
    match p.push x with
    | none => .sleep (if first then p.countStarved else p) .notFull
    | some r => afterPush p r
  | tryPush x => afterPush p (p.tryPush x)
  | pop =>
    match p.pop with
    | none => .sleep p .notEmpty
    | some (some x, p') => afterTake p (some (x, p'))
    | some (none, _) => afterTake p none
  | tryPop => afterTake p p.tryPop
  | take id => afterTake p (p.takeTagged id)
  | close => .leave p.close [⟨.notFull, true⟩, ⟨.notEmpty, true⟩] .closed

end PoolCall

/-- Where a thread stands in its call. -/
inductive PoolThread (α : Type) where
  | entering (call : PoolCall α)
  | asleep (condition : Condition) (call : PoolCall α)
  | woken (call : PoolCall α)
  | signalling (signals : List Signal) (reply : PoolReply α)
  | done (reply : PoolReply α)

namespace PoolThread

variable {α : Type}

/-- Whether the thread sleeps on the condition. -/
def sleepsOn (c : Condition) : PoolThread α → Bool
  | asleep d _ => c == d
  | _ => false

/-- Whether the thread sleeps on either condition. -/
def isAsleep : PoolThread α → Bool
  | asleep _ _ => true
  | _ => false

/-- A sleeper wakes; other threads do not notice. -/
def rouse : PoolThread α → PoolThread α
  | asleep _ call => woken call
  | t => t

/-- The thread after its critical section. -/
def ofSection (call : PoolCall α) : Section α → PoolThread α
  | .leave _ signals reply => signalling signals reply
  | .sleep _ condition => asleep condition call

/-- What the call came back with, if it is over. -/
def reply? : PoolThread α → Option (PoolReply α)
  | done reply => some reply
  | _ => none

end PoolThread

/-- The pool after a critical section. -/
def Section.pool {α : Type} : Section α → Pool α
  | leave pool _ _ => pool
  | sleep pool _ => pool

/-- A pool and the threads that call it. -/
structure Monitor (α : Type) where
  pool : Pool α
  threads : Array (PoolThread α)

namespace Monitor

variable {α : Type}

/-- The first thread that sleeps on the condition. -/
def sleeper? (m : Monitor α) (c : Condition) : Option Nat :=
  m.threads.findIdx? (·.sleepsOn c)

/-- A thread starts a call. -/
def call (m : Monitor α) (c : PoolCall α) : Monitor α :=
  { m with threads := m.threads.push (.entering c) }

/-- A thread passes its critical section. -/
def pass (m : Monitor α) (i : Nat) (c : PoolCall α) (first : Bool) : Monitor α :=
  let s := c.enter first m.pool
  ⟨s.pool, m.threads.setIfInBounds i (.ofSection c s)⟩

/-- The next step of thread `i`. Where it signals one sleeper, `target` says
which; it is none exactly if nobody sleeps on the condition. A step of a sleeper
is a waking without a signal. -/
def advance (m : Monitor α) (i : Nat) (target : Option Nat) : Option (Monitor α) :=
  match m.threads[i]? with
  | some (.entering c) => some (m.pass i c true)
  | some (.woken c) => some (m.pass i c false)
  | some (.asleep _ c) => some { m with threads := m.threads.setIfInBounds i (.woken c) }
  | some (.signalling [] reply) =>
    some { m with threads := m.threads.setIfInBounds i (.done reply) }
  | some (.signalling (s :: signals) reply) =>
    let threads := m.threads.setIfInBounds i (.signalling signals reply)
    if s.toAll then
      some { m with
        threads := threads.map fun t => if t.sleepsOn s.condition then t.rouse else t }
    else
      match target with
      | none =>
        if (m.sleeper? s.condition).isNone then some { m with threads } else none
      | some j =>
        if (m.threads[j]?.any (·.sleepsOn s.condition)) then
          some { m with threads := threads.modify j .rouse }
        else none
  | _ => none

/-- The condition of the next signal that thread `i` makes to one sleeper. -/
def signalled? (m : Monitor α) (i : Nat) : Option Condition :=
  match m.threads[i]? with
  | some (.signalling (s :: _) _) => some s.condition
  | _ => none

/-- Lets thread `i` go on for at most `fuel` steps until its call is over or it
sleeps; each signal goes to the first sleeper. -/
def proceed (m : Monitor α) (i : Nat) : Nat → Monitor α
  | 0 => m
  | fuel + 1 =>
    if m.threads[i]?.any (·.isAsleep) then m
    else
      match m.advance i ((m.signalled? i).bind m.sleeper?) with
      | some m => m.proceed i fuel
      | none => m

/-- The most steps that a call takes between two sleeps: its critical section,
two signals and the end. -/
def callSteps : Nat := 4

/-- What thread `i` came back with, if its call is over. -/
def reply? (m : Monitor α) (i : Nat) : Option (PoolReply α) :=
  m.threads[i]?.bind (·.reply?)

/-- Whether thread `i` sleeps. -/
def sleeps (m : Monitor α) (i : Nat) : Bool :=
  m.threads[i]?.any (·.isAsleep)

end Monitor

end Dataflow
