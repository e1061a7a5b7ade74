import Mathlib.Logic.Relation
import Dataflow.Crew.Basic
import Dataflow.Proofs.Crew.Signals

/-!
# Operations of a crew

A worker takes turns: it moves to another stage, with the counters, the injector and its own
deque as they become by that. `Crew.Turn` has all turns there are, of a crew that is stopped
or not; only a notification is made in another way, in steps of its own.

Until it is stopped, a crew goes on by small changes of three kinds, `Crew.Shift`. A worker
takes a turn. A notification, of a worker or from outside, passes to its next step,
`Crew.Passes`. Or the queues change: a task comes from outside, or a deque loses one to a
thief.

Most operations are one such change. A theft is two, since the victim loses the task before
the thief has found it, and so is a signal that wakes a sleeper: the sleeper stirs, and then
the notification is over, for it has been answered. Whatever each of these changes preserves
holds of all that a crew can come to.
-/

namespace Dataflow

variable {τ ξ : Type}

/-! ### Stages -/

/-- The notification is of all sleepers. -/
def Notice.toAll : Notice → Bool
  | bumping all | looking all | signalling all => all

namespace WorkerStage

/-- The worker is counted as a thief. -/
def isThief : WorkerStage τ ξ → Bool
  | exploring | registering | ticketing | rechecking _ | grabbing => true
  | checkingStop _ | leaving _ | found _ | quitting => true
  | withdrawing .grab | withdrawing .quit => true
  | notifying _ .quit => true
  | _ => false

/-- The worker is counted as active. -/
def isActive : WorkerStage τ ξ → Bool
  | checkingThieves _ | running _ | popping | retiring => true
  | notifying _ (.work _) => true
  | _ => false

/-- The worker is counted as a waiter. -/
def isRegistered : WorkerStage τ ξ → Bool
  | ticketing | rechecking _ | withdrawing _ | checkingStop _ => true
  | leaving _ | checkingActives _ | parking _ => true
  | _ => false

/-- The ticket of a worker that has begun to park, and has not yet found that it is out of
date. -/
def parked? : WorkerStage τ ξ → Option Nat
  | parking (.checking ticket) => some ticket
  | parking (.asleep ticket) => some ticket
  | parking (.woken ticket) => some ticket
  | _ => none

/-- The ticket of a worker that will not look into the injector again before it parks. -/
def resolute? : WorkerStage τ ξ → Option Nat
  | checkingStop ticket => some ticket
  | leaving ticket => some ticket
  | checkingActives ticket => some ticket
  | s => s.parked?

/-- The ticket of a worker. -/
def ticket? : WorkerStage τ ξ → Option Nat
  | rechecking ticket => some ticket
  | s => s.resolute?

/-- The deque of the worker may have tasks. -/
def isLaden : WorkerStage τ ξ → Bool
  | found _ | activating _ | checkingThieves _ | running _ | popping => true
  | notifying _ (.activate _) | notifying _ (.work _) => true
  | _ => false

/-- The worker is not about to end, and makes no notification of all. -/
def Stays : WorkerStage τ ξ → Prop
  | withdrawing .quit | quitting | ended => False
  | notifying _ .quit => False
  | notifying n _ => n.toAll = false
  | _ => True

theorem isAsleep_iff {s : WorkerStage τ ξ} :
    s.isAsleep = true ↔ ∃ ticket, s = .parking (.asleep ticket) := by
  constructor
  · intro h
    cases s with
    | parking p =>
      cases p with
      | asleep ticket => exact ⟨ticket, rfl⟩
      | _ => cases h
    | _ => cases h
  · rintro ⟨ticket, rfl⟩
    rfl

end WorkerStage

namespace Crew

variable {start : τ → ξ} {c c' c₁ : Crew τ ξ} {i j : Nat} {w w' u : Worker τ ξ}

/-- Changes one worker. -/
def put (c : Crew τ ξ) (i : Nat) (w : Worker τ ξ) : Crew τ ξ :=
  { c with workers := c.workers.setIfInBounds i w }

theorem getElem?_put_self (h : c.workers[i]? = some u) : (c.put i w).workers[i]? = some w := by
  rw [put, Array.getElem?_setIfInBounds_self, if_pos (Array.getElem?_eq_some_iff.mp h).1]

theorem getElem?_put_ne (h : j ≠ i) : (c.put i w).workers[j]? = c.workers[j]? :=
  Array.getElem?_setIfInBounds_ne h.symm

/-- A worker is the one that was put there, or the same as before. -/
theorem worker_of_put (h : (c.put i w).workers[j]? = some u) :
    j = i ∧ u = w ∨ c.workers[j]? = some u := by
  by_cases hj : j = i
  · subst hj
    rw [put, Array.getElem?_setIfInBounds_self] at h
    split at h
    · exact Or.inl ⟨rfl, (Option.some.inj h).symm⟩
    · cases h
  · exact Or.inr ((getElem?_put_ne hj).symm.trans h)

theorem setStage_eq_put (h : c.workers[i]? = some w) (s : WorkerStage τ ξ) :
    c.setStage i s = c.put i { w with stage := s } :=
  congrArg (fun ws => { c with workers := ws }) (Monitor.modify_eq_setIfInBounds _ h)

theorem setDeque_eq_put (h : c.workers[i]? = some w) (deque : List τ) :
    c.setDeque i deque = c.put i { w with deque } :=
  congrArg (fun ws => { c with workers := ws }) (Monitor.modify_eq_setIfInBounds _ h)

theorem push_eq_put (h : c.workers[i]? = some w) (tasks : List τ) :
    c.push i tasks = c.put i { w with deque := tasks.reverse ++ w.deque } :=
  congrArg (fun ws => { c with workers := ws }) (Monitor.modify_eq_setIfInBounds _ h)

theorem put_put (c : Crew τ ξ) (i : Nat) (w w' : Worker τ ξ) :
    (c.put i w).put i w' = c.put i w' := by
  simp only [put, Array.setIfInBounds_setIfInBounds]

/-! ### Operations -/

/-- **An operation of a crew that is not stopped**: of a worker, of a notification from
outside, or of whoever submits a task. A thief that has withdrawn to take from the injector
may find that others are at it. -/
inductive Step (start : τ → ξ) (c : Crew τ ξ) : Crew τ ξ → Prop where
  | advance {c' : Crew τ ξ} (i : Nat) (choice : Choice) (h : c.advance start i choice = some c') :
      Step start c c'
  | retry {i : Nat} {w : Worker τ ξ} (hw : c.workers[i]? = some w) (hs : w.stage = .grabbing) :
      Step start c (c.setStage i .exploring)
  | push {i : Nat} {x : ξ} (hx : c.execution? i = some x) (tasks : List τ) :
      Step start c (c.push i tasks)
  | proceed {i : Nat} {x : ξ} (hx : c.execution? i = some x) (y : ξ) :
      Step start c (c.proceed i y)
  | finish {i : Nat} {x : ξ} (hx : c.execution? i = some x) : Step start c (c.finish i)
  | submit (task : τ) : Step start c (c.inject [task])
  | notice {c' : Crew τ ξ} (k : Nat) (choice : Choice)
      (h : c.advanceNotice k choice = some c') : Step start c c'

/-- **What a crew of `n` workers can come to** before it is stopped, whatever its workers and
those outside do in whatever order. -/
def Reachable (start : τ → ξ) (n : Nat) (c : Crew τ ξ) : Prop :=
  Relation.ReflTransGen (Step start) (Crew.new n) c

/-- The given workers perform an operation each, one after the other. -/
def run (start : τ → ξ) (c : Crew τ ξ) : List (Nat × Choice) → Option (Crew τ ξ)
  | [] => some c
  | (i, choice) :: moves => (c.advance start i choice).bind (·.run start moves)

theorem Reachable.run {n : Nat} (h : Reachable start n c) (moves : List (Nat × Choice))
    (hr : c.run start moves = some c') : Reachable start n c' := by
  induction moves generalizing c with
  | nil => exact Option.some.inj hr ▸ h
  | cons move moves ih =>
    obtain ⟨_, hs, hr⟩ := Option.bind_eq_some_iff.mp hr
    exact ih (h.tail (.advance _ _ hs)) hr

/-! ### Small changes -/

/-- **What a worker does in a turn**: the worker and the crew before it, and the crew, but for
the worker, and the worker after it. -/
inductive Turn (start : τ → ξ) (c : Crew τ ξ) : Worker τ ξ → Crew τ ξ → Worker τ ξ → Prop where
  | join (d : List τ) :
      Turn start c ⟨d, .joining⟩ { c with thieves := c.thieves + 1 } ⟨d, .exploring⟩
  | take (d : List τ) (more : Nat) {task : τ} {rest : List τ} (h : c.injector = task :: rest) :
      Turn start c ⟨d, .exploring⟩ { c with injector := rest.drop more }
        ⟨rest.take more ++ d, .found task⟩
  | steal (d : List τ) (task : τ) : Turn start c ⟨d, .exploring⟩ c ⟨d, .found task⟩
  | giveUp (d : List τ) : Turn start c ⟨d, .exploring⟩ c ⟨d, .registering⟩
  | register (d : List τ) :
      Turn start c ⟨d, .registering⟩ { c with events := c.events.register } ⟨d, .ticketing⟩
  | takeTicket (d : List τ) : Turn start c ⟨d, .ticketing⟩ c ⟨d, .rechecking c.events.epoch⟩
  | resolve (d : List τ) (ticket : Nat) (h : c.injector = []) :
      Turn start c ⟨d, .rechecking ticket⟩ c ⟨d, .checkingStop ticket⟩
  | reconsider (d : List τ) (ticket : Nat) :
      Turn start c ⟨d, .rechecking ticket⟩ c ⟨d, .withdrawing .grab⟩
  | withdraw (d : List τ) (why : Withdrawal) (h : why ≠ .quit) :
      Turn start c ⟨d, .withdrawing why⟩ { c with events := c.events.withdraw }
        ⟨d, afterWithdrawal why⟩
  | quit (d : List τ) : Turn start c ⟨d, .withdrawing .quit⟩
      { c with events := c.events.withdraw } ⟨d, .notifying (.bumping true) .quit⟩
  | grab (d : List τ) {task : τ} {rest : List τ} (h : c.injector = task :: rest) :
      Turn start c ⟨d, .grabbing⟩ { c with injector := rest } ⟨d, .found task⟩
  | miss (d : List τ) : Turn start c ⟨d, .grabbing⟩ c ⟨d, .exploring⟩
  | carryOn (d : List τ) (ticket : Nat) :
      Turn start c ⟨d, .checkingStop ticket⟩ c ⟨d, .leaving ticket⟩
  | heed (d : List τ) (ticket : Nat) (h : c.isStopped = true) :
      Turn start c ⟨d, .checkingStop ticket⟩ c ⟨d, .withdrawing .quit⟩
  | leaveLast (d : List τ) (ticket : Nat) (h : c.thieves = 1) :
      Turn start c ⟨d, .leaving ticket⟩ { c with thieves := c.thieves - 1 }
        ⟨d, .checkingActives ticket⟩
  | leave (d : List τ) (ticket : Nat) (h : c.thieves ≠ 1) :
      Turn start c ⟨d, .leaving ticket⟩ { c with thieves := c.thieves - 1 }
        ⟨d, .parking (.checking ticket)⟩
  | rejoin (d : List τ) (ticket : Nat) :
      Turn start c ⟨d, .checkingActives ticket⟩ c ⟨d, .withdrawing .rejoin⟩
  | settle (d : List τ) (ticket : Nat) (h : c.actives = 0) :
      Turn start c ⟨d, .checkingActives ticket⟩ c ⟨d, .parking (.checking ticket)⟩
  | check (d : List τ) (ticket : Nat) :
      Turn start c ⟨d, .parking (.checking ticket)⟩ c ⟨d, .parking (.check c.events ticket)⟩
  | recheck (d : List τ) (ticket : Nat) :
      Turn start c ⟨d, .parking (.woken ticket)⟩ c ⟨d, .parking (.check c.events ticket)⟩
  | stir (d : List τ) (ticket : Nat) :
      Turn start c ⟨d, .parking (.asleep ticket)⟩ c ⟨d, .parking (.woken ticket)⟩
  | depart (d : List τ) : Turn start c ⟨d, .parking .departing⟩
      { c with events := c.events.withdraw } ⟨d, .joining⟩
  | handOver (d : List τ) (task : τ) (h : c.thieves = 1) :
      Turn start c ⟨d, .found task⟩ { c with thieves := c.thieves - 1 }
        ⟨d, .notifying (.bumping false) (.activate task)⟩
  | keep (d : List τ) (task : τ) (h : c.thieves ≠ 1) :
      Turn start c ⟨d, .found task⟩ { c with thieves := c.thieves - 1 } ⟨d, .activating task⟩
  | activateFirst (d : List τ) (task : τ) (h : c.actives = 0) :
      Turn start c ⟨d, .activating task⟩ { c with actives := c.actives + 1 }
        ⟨d, .checkingThieves task⟩
  | activate (d : List τ) (task : τ) (h : c.actives ≠ 0) :
      Turn start c ⟨d, .activating task⟩ { c with actives := c.actives + 1 }
        ⟨d, .running (start task)⟩
  | call (d : List τ) (task : τ) : Turn start c ⟨d, .checkingThieves task⟩ c
      ⟨d, .notifying (.bumping false) (.work task)⟩
  | begin (d : List τ) (task : τ) (h : c.thieves ≠ 0) :
      Turn start c ⟨d, .checkingThieves task⟩ c ⟨d, .running (start task)⟩
  | busy (d d' : List τ) (x y : ξ) : Turn start c ⟨d, .running x⟩ c ⟨d', .running y⟩
  | finish (d : List τ) (x : ξ) : Turn start c ⟨d, .running x⟩ c ⟨d, .popping⟩
  | pop (task : τ) (d : List τ) : Turn start c ⟨task :: d, .popping⟩ c ⟨d, .running (start task)⟩
  | drain : Turn start c ⟨[], .popping⟩ c ⟨[], .retiring⟩
  | retire (d : List τ) :
      Turn start c ⟨d, .retiring⟩ { c with actives := c.actives - 1 } ⟨d, .joining⟩
  | leaveOff (d : List τ) :
      Turn start c ⟨d, .quitting⟩ { c with thieves := c.thieves - 1 } ⟨d, .ended⟩

theorem Turn.workers (h : Turn start c w c₁ w') : c₁.workers = c.workers := by
  cases h <;> rfl

theorem Turn.rest (h : Turn start c w c₁ w') :
    c₁.events.epoch = c.events.epoch ∧ c₁.notices = c.notices ∧ c₁.isStopped = c.isStopped := by
  cases h <;> exact ⟨rfl, rfl, rfl⟩

/-- **What a worker does that makes no notification**: it takes a turn, and another worker may
have lost a task to it. -/
inductive Acts (start : τ → ξ) (c : Crew τ ξ) (i : Nat) : Crew τ ξ → Prop where
  | turn {w w' : Worker τ ξ} {c' : Crew τ ξ} (hw : c.workers[i]? = some w)
      (h : Turn start c w c' w') : Acts start c i (c'.put i w')
  | theft {j : Nat} {d : List τ} {s : WorkerStage τ ξ} {w w' : Worker τ ξ} {c' : Crew τ ξ}
      (hj : c.workers[j]? = some ⟨d, s⟩)
      (hw : (c.put j ⟨d.dropLast, s⟩).workers[i]? = some w)
      (h : Turn start (c.put j ⟨d.dropLast, s⟩) w c' w') : Acts start c i (c'.put i w')

/-- A notification that is under way, from outside or of a worker. -/
def Pending (c : Crew τ ξ) (n : Notice) : Prop :=
  n ∈ c.notices ∨ ∃ (i : Nat) (w : Worker τ ξ) (errand : Errand τ),
    c.workers[i]? = some w ∧ w.stage = .notifying n errand

/-- **How a notification passes to its next step**, or is over. -/
inductive Passes (start : τ → ξ) (c : Crew τ ξ) (n : Notice) : Option Notice → Crew τ ξ → Prop where
  | next {k : Nat} (hk : c.notices[k]? = some n) (n' : Notice) :
      Passes start c n (some n') { c with notices := c.notices.set k n' }
  | last {k : Nat} (hk : c.notices[k]? = some n) :
      Passes start c n none { c with notices := c.notices.eraseIdx k }
  | nextOf {i : Nat} {d : List τ} {errand : Errand τ}
      (hw : c.workers[i]? = some ⟨d, .notifying n errand⟩) (n' : Notice) :
      Passes start c n (some n') (c.put i ⟨d, .notifying n' errand⟩)
  | lastOf {i : Nat} {d : List τ} {errand : Errand τ}
      (hw : c.workers[i]? = some ⟨d, .notifying n errand⟩) :
      Passes start c n none (c.put i ⟨d, afterNotice start errand⟩)

/-- A notification may be over: nobody waits, nobody sleeps, or a sleeper has been woken. -/
def Answered (c : Crew τ ξ) : Prop :=
  c.events.waiters = 0 ∨
    (∀ {i : Nat} {w : Worker τ ξ}, c.workers[i]? = some w → w.isAsleep = false) ∨
    ∃ (i : Nat) (w : Worker τ ξ) (ticket : Nat), c.workers[i]? = some w ∧
      w.stage = .parking (.woken ticket)

/-- **A small change.** -/
inductive Shift (start : τ → ξ) (c : Crew τ ξ) : Crew τ ξ → Prop where
  | turn {i : Nat} {w w' : Worker τ ξ} {c' : Crew τ ξ} (hw : c.workers[i]? = some w)
      (h : Turn start c w c' w') : Shift start c (c'.put i w')
  | lose {i : Nat} {d : List τ} {s : WorkerStage τ ξ} (hw : c.workers[i]? = some ⟨d, s⟩) :
      Shift start c (c.put i ⟨d.dropLast, s⟩)
  | submit (task : τ) : Shift start c (c.inject [task])
  | bump {all : Bool} {c' : Crew τ ξ}
      (h : Passes start { c with events := c.events.bump } (.bumping all)
        (some (.looking all)) c') :
      Shift start c c'
  | look {all : Bool} {c' : Crew τ ξ}
      (h : Passes start c (.looking all) (some (.signalling all)) c') : Shift start c c'
  | answered {n : Notice} {c' : Crew τ ξ} (hn : ∀ all, n ≠ .bumping all) (ha : c.Answered)
      (h : Passes start c n none c') : Shift start c c'

theorem Acts.shifts (h : Acts start c i c') : Relation.ReflTransGen (Shift start) c c' := by
  cases h with
  | turn hw h => exact .single (.turn hw h)
  | theft hj hw h => exact .tail (.single (.lose hj)) (.turn hw h)

/-- A worker that keeps its deque in a turn has its stage set. -/
theorem acts_of_turn {d : List τ} {s s' : WorkerStage τ ξ} (hw : c.workers[i]? = some ⟨d, s⟩)
    (h : Turn start c ⟨d, s⟩ c₁ ⟨d, s'⟩) : Acts start c i (c₁.setStage i s') := by
  rw [setStage_eq_put (h.workers.symm ▸ hw)]
  exact .turn hw h

/-! ### Notifications -/

/-- **What a notification of one does** to the crew in its next step. -/
inductive Heard (c : Crew τ ξ) : Notice → Crew τ ξ → Option Notice → Prop where
  | bump (all : Bool) :
      Heard c (.bumping all) { c with events := c.events.bump } (some (.looking all))
  | look (all : Bool) : Heard c (.looking all) c (some (.signalling all))
  | nobody {n : Notice} (hn : ∀ all, n ≠ .bumping all) (ha : c.Answered) : Heard c n c none
  | wake {n : Notice} (hn : ∀ all, n ≠ .bumping all) {j : Nat} {d : List τ} {ticket : Nat}
      (hj : c.workers[j]? = some ⟨d, .parking (.asleep ticket)⟩) :
      Heard c n (c.put j ⟨d, .parking (.woken ticket)⟩) none

/-- **What a signal comes to**: all sleepers are woken, or nobody sleeps, or one is woken. -/
theorem signal_cases {all : Bool} {target : Option Nat} (h : c.signal all target = some c') :
    all = true ∧ c' = { c with workers := c.workers.map (·.rouse) } ∨
      all = false ∧ (c' = c ∧ (∀ w ∈ c.workers, w.isAsleep = false) ∨
        ∃ (j : Nat) (d : List τ) (ticket : Nat),
          c.workers[j]? = some ⟨d, .parking (.asleep ticket)⟩ ∧
            c' = c.put j ⟨d, .parking (.woken ticket)⟩) := by
  cases all with
  | true => exact Or.inl ⟨rfl, (Option.some.inj h).symm⟩
  | false =>
    refine Or.inr ⟨rfl, ?_⟩
    cases target with
    | none =>
      obtain ⟨hnone, rfl⟩ : c.sleeper? = none ∧ c = c' := by simpa [signal] using h
      exact Or.inl ⟨rfl, by simpa using Array.findIdx?_eq_none_iff.mp hnone⟩
    | some j =>
      obtain ⟨hj, rfl⟩ : c.workers[j]?.any (·.isAsleep) = true ∧
          { c with workers := c.workers.modify j (·.rouse) } = c' := by simpa [signal] using h
      obtain ⟨⟨d, s⟩, hw, hsleep⟩ := (Option.any_eq_true ..).mp hj
      obtain ⟨ticket, rfl⟩ := WorkerStage.isAsleep_iff.mp hsleep
      exact Or.inr ⟨j, d, ticket, hw,
        congrArg (fun ws => { c with workers := ws }) (Monitor.modify_eq_setIfInBounds _ hw)⟩

theorem heard_of_signal {target : Option Nat} (h : c.signal false target = some c') :
    Heard c (.signalling false) c' none := by
  rcases signal_cases h with ⟨hall, -⟩ | ⟨-, ⟨rfl, hnone⟩ | ⟨j, d, ticket, hj, rfl⟩⟩
  · cases hall
  · exact .nobody nofun (Or.inr (Or.inl fun hw => hnone _ (Array.mem_of_getElem? hw)))
  · exact .wake (n := .signalling false) nofun hj

theorem heard_of_notify {n : Notice} {choice : Choice} {next : Option Notice}
    (h : c.notify n choice = some (c', next)) (hn : n.toAll = false) : Heard c n c' next := by
  cases n with
  | bumping all =>
    cases choice with
    | go =>
      obtain ⟨rfl, rfl⟩ := Prod.mk.inj (Option.some.inj h)
      exact .bump all
    | _ => cases h
  | looking all =>
    cases choice with
    | go =>
      obtain ⟨rfl, rfl⟩ := Prod.mk.inj (Option.some.inj h)
      split
      · next hzero => exact .nobody nofun (Or.inl hzero)
      · exact .look all
    | _ => cases h
  | signalling all =>
    obtain rfl : all = false := hn
    cases choice with
    | wake target =>
      obtain ⟨c₁, hs, he⟩ := Option.map_eq_some_iff.mp h
      obtain ⟨rfl, rfl⟩ := Prod.mk.inj he
      exact heard_of_signal hs
    | _ => cases h

/-- A notification does not touch the others, nor a worker that is awake. -/
theorem Heard.notices {n : Notice} {next : Option Notice} (h : Heard c n c' next) :
    c'.notices = c.notices := by
  cases h <;> rfl

theorem Heard.worker {n : Notice} {next : Option Notice} (h : Heard c n c' next)
    (hw : c.workers[i]? = some w) (ha : w.isAsleep = false) : c'.workers[i]? = some w := by
  cases h with
  | wake hn hj =>
    refine (getElem?_put_ne fun he => ?_).trans hw
    obtain rfl := Option.some.inj (hw.symm.trans (he ▸ hj))
    cases ha
  | _ => exact hw

/-- What a notification does, and its passing on, are small changes. -/
theorem Heard.shifts {n : Notice} {next : Option Notice} (h : Heard c n c₁ next)
    (hp : Passes start c₁ n next c') : Relation.ReflTransGen (Shift start) c c' := by
  cases h with
  | bump all => exact .single (.bump hp)
  | look all => exact .single (.look hp)
  | nobody hn ha => exact .single (.answered hn ha hp)
  | wake hn hj =>
    exact .tail (.single (.turn hj (.stir ..)))
      (.answered hn (Or.inr (Or.inr ⟨_, _, _, getElem?_put_self hj, rfl⟩)) hp)

/-! ### Operations are small changes -/

/-- The crew is not stopped, and neither a worker nor a notification behaves as if it were. -/
structure Steady (c : Crew τ ξ) : Prop where
  going : c.isStopped = false
  stays : ∀ {i : Nat} {w : Worker τ ξ}, c.workers[i]? = some w → w.stage.Stays
  toOne : ∀ n ∈ c.notices, n.toAll = false

theorem acts_of_steal {d : List τ} {choice : Choice} (hw : c.workers[i]? = some ⟨d, .exploring⟩)
    (h : c.steal i choice = some c') : Acts start c i c' := by
  cases choice with
  | fromInjector more =>
    simp only [steal] at h
    split at h
    · cases h
    · next task rest hinj =>
      simp only [hw, Option.map_some, Option.getD_some] at h
      obtain rfl := Option.some.inj h
      rw [setDeque_eq_put (c := { c with injector := rest.drop more }) hw,
        setStage_eq_put (getElem?_put_self (c := { c with injector := rest.drop more }) hw),
        put_put]
      exact .turn hw (.take d more hinj)
  | fromWorker victim =>
    simp only [steal] at h
    split at h
    · cases h
    next hne =>
    split at h
    · cases h
    next task htask =>
    obtain ⟨⟨d', s⟩, hv, hlast⟩ := Option.bind_eq_some_iff.mp htask
    simp only [hv, Option.map_some, Option.getD_some] at h
    obtain rfl := Option.some.inj h
    have hw' : (c.put victim ⟨d'.dropLast, s⟩).workers[i]? = some ⟨d, .exploring⟩ :=
      (getElem?_put_ne (Ne.symm hne)).trans hw
    rw [setDeque_eq_put hv, setStage_eq_put hw']
    exact .theft hv hw' (.steal d task)
  | giveUp =>
    obtain rfl := Option.some.inj h
    exact acts_of_turn hw (.giveUp d)
  | _ => cases h

theorem shifts_of_notifying {d : List τ} {n : Notice} {errand : Errand τ} {choice : Choice}
    (hw : c.workers[i]? = some ⟨d, .notifying n errand⟩) (hn : n.toAll = false)
    (h : c.advance start i choice = some c') : Relation.ReflTransGen (Shift start) c c' := by
  simp only [advance, hw] at h
  split at h
  · cases h
  · next c₁ n' hnotify =>
    have hheard := heard_of_notify hnotify hn
    have hw' := hheard.worker hw rfl
    obtain rfl := Option.some.inj h
    rw [setStage_eq_put hw']
    exact hheard.shifts (.nextOf hw' n')
  · next c₁ hnotify =>
    have hheard := heard_of_notify hnotify hn
    have hw' := hheard.worker hw rfl
    obtain rfl := Option.some.inj h
    rw [setStage_eq_put hw']
    exact hheard.shifts (.lastOf hw')

/-- Only a thief, a notification and a sleeper leave anything open. -/
theorem choice_of_advance {d : List τ} {s : WorkerStage τ ξ} {choice : Choice}
    (hw : c.workers[i]? = some ⟨d, s⟩) (h : c.advance start i choice = some c') :
    choice = .go ∨ s = .exploring ∨ (∃ n errand, s = .notifying n errand) ∨
      ∃ ticket, s = .parking (.asleep ticket) ∧ choice = .wake none := by
  simp only [advance, hw] at h
  cases s with
  | exploring => exact Or.inr (Or.inl rfl)
  | notifying n errand => exact Or.inr (Or.inr (Or.inl ⟨n, errand, rfl⟩))
  | parking p =>
    cases p with
    | asleep ticket =>
      rcases choice with _ | _ | _ | _ | _ | _
      all_goals first | exact Or.inr (Or.inr (Or.inr ⟨ticket, rfl, rfl⟩)) | cases h
    | _ => cases choice <;> first | exact Or.inl rfl | cases h
  | _ => cases choice <;> first | exact Or.inl rfl | cases h

theorem acts_of_go {d : List τ} {s : WorkerStage τ ξ} (hw : c.workers[i]? = some ⟨d, s⟩)
    (hn : ∀ n errand, s ≠ .notifying n errand) (h : c.advance start i .go = some c') :
    Acts start c i c' := by
  simp only [advance, hw] at h
  cases s with
  | notifying n errand => exact absurd rfl (hn n errand)
  | exploring | running | ended => cases h
  | parking p =>
    cases p with
    | asleep => cases h
    | _ =>
      obtain rfl := Option.some.inj h
      exact acts_of_turn hw (by constructor)
  | joining | registering | ticketing | retiring | quitting =>
    obtain rfl := Option.some.inj h
    exact acts_of_turn hw (by constructor)
  | withdrawing why =>
    obtain rfl := Option.some.inj h
    cases why with
    | quit => exact acts_of_turn hw (.quit d)
    | grab | rejoin => exact acts_of_turn hw (.withdraw d _ nofun)
  | rechecking ticket =>
    obtain rfl := Option.some.inj h
    split
    · next hinj => exact acts_of_turn hw (.resolve d ticket (List.isEmpty_iff.mp hinj))
    · exact acts_of_turn hw (.reconsider d ticket)
  | checkingStop ticket =>
    obtain rfl := Option.some.inj h
    split
    · next hstop => exact acts_of_turn hw (.heed d ticket hstop)
    · exact acts_of_turn hw (.carryOn d ticket)
  | leaving ticket =>
    obtain rfl := Option.some.inj h
    split
    · next hlast => exact acts_of_turn hw (.leaveLast d ticket hlast)
    · next hlast => exact acts_of_turn hw (.leave d ticket hlast)
  | checkingActives ticket =>
    obtain rfl := Option.some.inj h
    split
    · exact acts_of_turn hw (.rejoin d ticket)
    · next hzero => exact acts_of_turn hw (.settle d ticket (Nat.eq_zero_of_not_pos hzero))
  | grabbing =>
    simp only at h
    split at h
    · obtain rfl := Option.some.inj h
      exact acts_of_turn hw (.miss d)
    · next hinj =>
      obtain rfl := Option.some.inj h
      exact acts_of_turn hw (.grab d hinj)
  | found task =>
    obtain rfl := Option.some.inj h
    split
    · next hlast => exact acts_of_turn hw (.handOver d task hlast)
    · next hlast => exact acts_of_turn hw (.keep d task hlast)
  | activating task =>
    obtain rfl := Option.some.inj h
    split
    · next hzero => exact acts_of_turn hw (.activateFirst d task hzero)
    · next hzero => exact acts_of_turn hw (.activate d task hzero)
  | checkingThieves task =>
    obtain rfl := Option.some.inj h
    split
    · exact acts_of_turn hw (.call d task)
    · next hzero => exact acts_of_turn hw (.begin d task hzero)
  | popping =>
    simp only at h
    split at h
    · obtain rfl := Option.some.inj h
      exact acts_of_turn hw .drain
    · obtain rfl := Option.some.inj h
      rw [setDeque_eq_put hw, setStage_eq_put (getElem?_put_self hw), put_put]
      exact .turn hw (.pop _ _)

/-- **A worker that makes no notification takes a turn.** -/
theorem acts_of_advance {choice : Choice} (hw : c.workers[i]? = some w)
    (hn : ∀ n errand, w.stage ≠ .notifying n errand) (h : c.advance start i choice = some c') :
    Acts start c i c' := by
  obtain ⟨d, s⟩ := w
  rcases choice_of_advance hw h with rfl | rfl | ⟨n, errand, rfl⟩ | ⟨ticket, rfl, rfl⟩
  · exact acts_of_go hw hn h
  · simp only [advance, hw] at h
    exact acts_of_steal hw h
  · exact absurd rfl (hn n errand)
  · simp only [advance, hw] at h
    obtain rfl := Option.some.inj h
    exact acts_of_turn hw (.stir d ticket)

theorem shifts_of_advance {choice : Choice} (h : c.advance start i choice = some c')
    (hc : c.Steady) : Relation.ReflTransGen (Shift start) c c' := by
  cases hw : c.workers[i]? with
  | none => simp only [advance, hw] at h; cases h
  | some w =>
    obtain ⟨d, s⟩ := w
    have hs : s.Stays := hc.stays hw
    by_cases hn : ∃ n errand, s = .notifying n errand
    · obtain ⟨n, errand, rfl⟩ := hn
      refine shifts_of_notifying hw ?_ h
      cases errand with
      | quit => exact hs.elim
      | work | activate => exact hs
    · exact (acts_of_advance hw (fun n errand he => hn ⟨n, errand, he⟩) h).shifts

theorem shifts_of_advanceNotice {k : Nat} {choice : Choice}
    (h : c.advanceNotice k choice = some c') (hc : c.Steady) :
    Relation.ReflTransGen (Shift start) c c' := by
  rw [advanceNotice] at h
  split at h
  · cases h
  next n hk =>
  have hn : n.toAll = false := hc.toOne n (List.mem_of_getElem? hk)
  split at h
  · cases h
  · next c₁ n' hnotify =>
    have hheard := heard_of_notify hnotify hn
    obtain rfl := Option.some.inj h
    exact hheard.shifts (.next (hheard.notices ▸ hk) n')
  · next c₁ hnotify =>
    have hheard := heard_of_notify hnotify hn
    obtain rfl := Option.some.inj h
    exact hheard.shifts (.last (hheard.notices ▸ hk))

theorem running_of_execution {x : ξ} (h : c.execution? i = some x) :
    ∃ d, c.workers[i]? = some ⟨d, .running x⟩ := by
  obtain ⟨⟨d, s⟩, hw, hx⟩ := Option.bind_eq_some_iff.mp h
  cases s with
  | running => exact ⟨d, Option.some.inj hx ▸ hw⟩
  | _ => cases hx

/-- **Whose operation it is**: of a worker as the crew has it, of a worker that makes no
notification, of whoever submits a task, or of a notification from outside. -/
theorem Step.kinds (h : Step start c c') : (∃ i choice, c.advance start i choice = some c') ∨
    (∃ i, Acts start c i c') ∨ (∃ task, c' = c.inject [task]) ∨
      ∃ k choice, c.advanceNotice k choice = some c' := by
  cases h with
  | advance i choice h => exact Or.inl ⟨i, choice, h⟩
  | @retry i w hw hs =>
    obtain ⟨d, s⟩ := w
    obtain rfl : s = .grabbing := hs
    exact Or.inr (Or.inl ⟨i, acts_of_turn hw (.miss d)⟩)
  | @push i _ hx tasks =>
    obtain ⟨d, hw⟩ := running_of_execution hx
    rw [push_eq_put hw]
    exact Or.inr (Or.inl ⟨i, .turn hw (.busy ..)⟩)
  | @proceed i _ hx y =>
    obtain ⟨d, hw⟩ := running_of_execution hx
    exact Or.inr (Or.inl ⟨i, acts_of_turn hw (.busy ..)⟩)
  | @finish i _ hx =>
    obtain ⟨d, hw⟩ := running_of_execution hx
    exact Or.inr (Or.inl ⟨i, acts_of_turn hw (.finish ..)⟩)
  | submit task => exact Or.inr (Or.inr (Or.inl ⟨task, rfl⟩))
  | notice k choice h => exact Or.inr (Or.inr (Or.inr ⟨k, choice, h⟩))

/-- **Every operation is made of small changes.** -/
theorem Step.shifts (h : Step start c c') (hc : c.Steady) :
    Relation.ReflTransGen (Shift start) c c' := by
  rcases h.kinds with ⟨i, choice, h⟩ | ⟨i, h⟩ | ⟨task, rfl⟩ | ⟨k, choice, h⟩
  · exact shifts_of_advance h hc
  · exact h.shifts
  · exact .single (.submit task)
  · exact shifts_of_advanceNotice h hc

end Crew

end Dataflow
