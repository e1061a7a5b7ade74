import Dataflow.Proofs.Run.Resolution
import Dataflow.Proofs.Scheduler.Shutdown

/-!
# Courses of events

To a `World`, the beginning of a shutdown is one operation. A `Course` looks closer: the
owner closes the table first, and then resolves the cells of the runs that waited, one after
another, while everybody else goes on. It also keeps a log of all attempts to resolve a cell,
whether they are made by threads or by the owner.

The calls of a scheduler do not look at its futures, so they come to the same with others.
That is stated here for each of them, since the order in which cells are resolved is all in
which a course differs from a world.
-/

namespace Dataflow

variable {α : Type}

/-! ### The same scheduler with other futures -/

namespace Scheduler

/-- The same scheduler with other futures. -/
def withFutures (s : Scheduler α) (f : Futures α) : Scheduler α :=
  { s with futures := f }

variable {s s' : Scheduler α} {f : Futures α}

theorem stepNotice_withFutures {n : Nat} {choice : Choice} (h : s.stepNotice n choice = some s') :
    (s.withFutures f).stepNotice n choice = some (s'.withFutures f) := by
  unfold stepNotice at h
  split at h
  · next c hc =>
    split at h
    · next c' hc' =>
      obtain rfl := Option.some.inj h
      simp only [stepNotice, withFutures, hc, hc']
    · cases h
  · cases h

theorem bind_withFutures (s : Scheduler α) (f : Futures α) (g : Graph α) :
    (s.withFutures f).bind g = (s.bind g).map (·.withFutures f) := by
  obtain ⟨settings, threads, binding, futures, isShutDown⟩ := s
  cases isShutDown with
  | true => rfl
  | false =>
    cases binding with
    | some b => rfl
    | none =>
      simp only [bind, withFutures, nodePanic?, Bool.false_eq_true, if_false, Option.isSome_none]
      split
      · rfl
      · split
        · rfl
        · split <;> rfl

theorem run_withFutures {inputs : List (NodeId × α)} {run : ObjectId} {cell : CellId}
    (hf : f.nextCell = s.futures.nextCell) (h : s.run inputs = .accepted s' run cell) :
    (s.withFutures f).run inputs = .accepted (s'.withFutures f.extend) run cell := by
  obtain ⟨hs, rfl, b, b', tasks, hb, hsub, rfl⟩ := run_eq_accepted h
  simp only [Scheduler.run, withFutures, hs, hb, hf, hsub, Bool.false_eq_true, if_false]

theorem run_broken_withFutures {inputs : List (NodeId × α)} {fault : Fault}
    (hf : f.nextCell = s.futures.nextCell) (h : s.run inputs = .broken s' fault) :
    ∃ s'', (s.withFutures f).run inputs = .broken s'' fault := by
  unfold Scheduler.run at h
  split at h
  · cases h
  next hs =>
  split at h
  · cases h
  next b hb =>
  simp only at h
  split at h
  · cases h
  · next b' fault' hsub =>
    obtain ⟨-, rfl⟩ := RunAnswer.broken.inj h
    simp [Scheduler.run, withFutures, hs, hb, hf, hsub]
  · cases h

theorem dismiss_withFutures (s : Scheduler α) (f : Futures α) :
    (s.withFutures f).dismiss = s.dismiss.withFutures f := by
  unfold dismiss
  simp only [withFutures]
  split
  · split <;> rfl
  · rfl

theorem unbind_withFutures {g : Graph α} (h : s.unbind = some (.ok (g, s'))) :
    (s.withFutures f).unbind = some (.ok (g, s'.withFutures f)) := by
  obtain ⟨hr, rfl, b, hb, rfl⟩ := unbind_eq_ok h
  have hr' : (s.withFutures f).isReleased = true := hr
  unfold unbind
  rw [show (s.withFutures f).binding = some b from hb]
  refine (if_pos hr').trans ?_
  simp only [withFutures]
  cases s.threads <;> rfl

theorem finishShutDown_withFutures (s : Scheduler α) (f : Futures α) :
    (s.withFutures f).finishShutDown = s.finishShutDown.map (·.withFutures f) := by
  have hr : (s.withFutures f).isReleased = s.isReleased := rfl
  have hs : (s.withFutures f).isShutDown = s.isShutDown := rfl
  simp only [finishShutDown, hr, hs]
  split
  · rfl
  · split <;> rfl

/-! ### The two halves of the beginning of a shutdown -/

/-- The table is closed, and the cells of the runs that waited are left to be resolved. -/
def close (s : Scheduler α) : Scheduler α :=
  { s with binding := s.binding.map fun b => { b with table := b.table.close.1 } }

/-- The cells of the runs that wait in the backlog, oldest first. -/
def waitingCells (s : Scheduler α) : List CellId :=
  match s.binding with
  | some b => b.table.close.2
  | none => []

theorem beginShutDown_eq_close (h : s.isShutDown = false) :
    s.beginShutDown = s.close.withFutures (s.futures.cancel s.waitingCells) := by
  obtain ⟨settings, threads, binding, futures, isShutDown⟩ := s
  obtain rfl : isShutDown = false := h
  cases binding <;> rfl

/-! ### What an operation of a thread resolves -/

theorem absorb_of_none {a : Advance α} (h : a.resolved = none) : absorb f a = (f, a.stage) := by
  rw [absorb, h]

theorem absorb_of_resolve {a : Advance α} {id : CellId} {o : RunOutcome α} {f' : Futures α}
    (h : a.resolved = some (id, o)) (hf : f.resolve id o = some f') :
    absorb f a = (f', a.stage) := by
  simp only [absorb, h, hf]

variable [Payload α]

/-- The attempt to resolve a cell that the next operation of a thread makes, if it does. -/
def resolutions (s : Scheduler α) (i : Nat) : List (Resolution α) :=
  match s.threads.execution? i, s.binding with
  | some x, some b => (x.advance s.threads.strategy b).resolved.toList.map fun p =>
      s.futures.resolution p.1 p.2
  | _, _ => []

/-- A worker without an execution looks for tasks. -/
theorem step_of_search {c c' : Crew Task (Execution α)} {i : Nat} {choice : Choice}
    (hc : s.threads = .crew c) (hx : c.execution? i = none)
    (h : c.advance Execution.ofTask i choice = some c') :
    s.step i choice = some { s with threads := .crew c' } := by
  simp only [step, attempt, hc, hx, h]

/-- A thread performs the next operation of its execution. -/
theorem step_of_execution {i : Nat} {x : Execution α} {b : Binding α}
    (hx : s.threads.execution? i = some x) (hb : s.binding = some b)
    (hcan : x.canAdvance b = true) (choice : Choice) : s.step i choice = some { s with
      threads := s.threads.put i (x.advance s.threads.strategy b).binding.graph x
        (x.advance s.threads.strategy b).ready
        (absorb s.futures (x.advance s.threads.strategy b)).2
      binding := some (x.advance s.threads.strategy b).binding
      futures := (absorb s.futures (x.advance s.threads.strategy b)).1 } := by
  cases hth : s.threads with
  | crew c =>
    rw [hth] at hx
    replace hx : c.execution? i = some x := hx
    simp only [step, attempt, hth, hx, hb, hcan, if_true]
    rfl
  | nodes xs =>
    rw [hth] at hx
    replace hx : xs[i]? = some x := hx
    simp only [step, attempt, hth, hx, hb, hcan, if_true]
    rfl

end Scheduler

/-! ### Courses -/

/-- The same world, with other futures of its scheduler. -/
def World.withFutures (w : World α) (f : Futures α) : World α :=
  { w with scheduler := w.scheduler.withFutures f }

/-- A world, the cells of cancelled runs that the owner has not resolved yet, and all attempts
to resolve a cell, in order. -/
structure Course (α : Type) where
  world : World α
  owed : List CellId := []
  log : List (Resolution α) := []

namespace Course

variable [Payload α]

/-- **One operation of anybody**, where the owner cancels one run after the other. -/
inductive Step (c : Course α) : Course α → Prop where
  /-- A thread performs its next operation. -/
  | thread {i : Nat} {choice : Choice} {s : Scheduler α}
      (h : c.world.scheduler.step i choice = some s) :
      Step c { c with
        world := c.world.record s fun t =>
          { t with executed := t.executed ++ c.world.scheduler.fired s i }
        log := c.log ++ c.world.scheduler.resolutions i }
  /-- A notification that some call has left under way goes on. -/
  | notice {n : Nat} {choice : Choice} {s : Scheduler α}
      (h : c.world.scheduler.stepNotice n choice = some s) :
      Step c { c with world := { c.world with scheduler := s } }
  /-- The owner binds a graph. -/
  | bind {g : Graph α} {s : Scheduler α} {b : Binding α} (ho : c.world.owner = .free)
      (hg : g.Built) (h : c.world.scheduler.bind g = .ok s) (hb : s.binding = some b) :
      Step c { c with world := { c.world with
        scheduler := s
        tenures := { graph := b.graph } :: c.world.tenures } }
  /-- A run is accepted. -/
  | accept {inputs : List (NodeId × α)} {b : Binding α} {staged : Staged α}
      {s : Scheduler α} {run : ObjectId} {cell : CellId} (ho : c.world.owner = .free)
      (hb : c.world.scheduler.binding = some b) (hi : b.graph.stageInputs inputs = .ok staged)
      (h : c.world.scheduler.run inputs = .accepted s run cell) :
      Step c { c with world := c.world.record s fun t =>
        { t with tickets := t.tickets ++ [⟨run, staged, cell⟩] } }
  /-- The call for a run ends in a panic. -/
  | burst {inputs : List (NodeId × α)} {s : Scheduler α} {f : Fault} (ho : c.world.owner = .free)
      (h : c.world.scheduler.run inputs = .broken s f) :
      Step c { c with world := { c.world with scheduler := s } }
  /-- The holder of a future asks for its outcome, in whatever way. -/
  | use {cell : CellId} {got : Option (RunOutcome α)} {x : Cell α}
      (h : (c.world.scheduler.futures.cell cell).Used got x) :
      Step c { c with world := { c.world with
        scheduler := { c.world.scheduler with
          futures := c.world.scheduler.futures.setCell cell x }
        taken := c.world.taken ++ got.toList.map (cell, ·) } }
  /-- The owner has waited until no run holds a slot. -/
  | waitIdle (ho : c.world.owner = .free) (h : c.world.scheduler.isIdle = true) : Step c c
  /-- The owner wants the graph back. -/
  | leave (ho : c.world.owner = .free) (hb : c.world.scheduler.binding.isSome) :
      Step c { c with world := { c.world with owner := .leaving } }
  /-- The owner dismisses the threads of nodes if no run is in flight. -/
  | dismiss (ho : c.world.owner ≠ .free) (hd : c.owed = []) :
      Step c { c with world := { c.world with scheduler := c.world.scheduler.dismiss } }
  /-- The owner gets the graph back. -/
  | unbind {g : Graph α} {s : Scheduler α} (ho : c.world.owner = .leaving)
      (h : c.world.scheduler.unbind = some (.ok (g, s))) :
      Step c { c with world := { c.world with scheduler := s, owner := .free } }
  /-- The owner, or whoever drops the scheduler, begins to shut it down: the table is closed,
  and the runs that wait are to be cancelled. -/
  | close (ho : c.world.owner = .free) (hs : c.world.scheduler.isShutDown = false) :
      Step c { c with
        world := { c.world.record c.world.scheduler.close fun t =>
          { t with cancelled := t.cancelled ++ c.world.scheduler.waiting } with owner := .closing }
        owed := c.world.scheduler.waitingCells }
  /-- The owner cancels the next of these runs. -/
  | cancel {id : CellId} {ids : List CellId} (hd : c.owed = id :: ids) :
      Step c {
        world := c.world.withFutures (c.world.scheduler.futures.cancel [id])
        owed := ids
        log := c.log ++ [c.world.scheduler.futures.resolution id
          (.error (.scheduling .cancelled))] }
  /-- The shutdown is complete. -/
  | finish {s : Scheduler α} (ho : c.world.owner = .closing) (hd : c.owed = [])
      (h : c.world.scheduler.finishShutDown = some s) :
      Step c { c with world := { c.world with scheduler := s, owner := .free } }
  /-- The owner shuts the scheduler down once more. -/
  | again {s : Scheduler α} (ho : c.world.owner = .free)
      (hs : c.world.scheduler.isShutDown = true)
      (h : c.world.scheduler.beginShutDown.finishShutDown = some s) :
      Step c { c with world := { c.world with scheduler := s } }

/-- **The courses that anybody's operations can lead to**, from a new scheduler. -/
inductive Reachable (k : Strategy) : Course α → Prop where
  | start {settings : Settings} {processors : Nat} {s : Scheduler α}
      (h : Scheduler.new k settings processors = .ok s) : Reachable k ⟨{ scheduler := s }, [], []⟩
  | step {c c' : Course α} (h : Reachable k c) (hs : c.Step c') : Reachable k c'

/-- What is left to the owner can be done without a break. -/
theorem Reachable.cancels {k : Strategy} {w : World α} {ids : List CellId}
    {log : List (Resolution α)} (h : (⟨w, ids, log⟩ : Course α).Reachable k) :
    ∃ log', (⟨w.withFutures (w.scheduler.futures.cancel ids), [], log'⟩ : Course α).Reachable k := by
  induction ids generalizing w log with
  | nil => exact ⟨log, h⟩
  | cons id ids ih => exact ih (h.step (.cancel rfl))

end Course

/-- **Every reachable world occurs in a course.** -/
theorem World.Reachable.course [Payload α] {k : Strategy} {w : World α} (h : w.Reachable k) :
    ∃ log, (⟨w, [], log⟩ : Course α).Reachable k := by
  induction h with
  | start h => exact ⟨[], .start h⟩
  | @step w w' _ hs ih =>
    obtain ⟨log, h⟩ := ih
    cases hs with
    | thread hs => exact ⟨_, h.step (.thread hs)⟩
    | notice hs => exact ⟨_, h.step (.notice hs)⟩
    | bind ho hg hs hb => exact ⟨_, h.step (.bind ho hg hs hb)⟩
    | accept ho hb hi hs => exact ⟨_, h.step (.accept ho hb hi hs)⟩
    | burst ho hs => exact ⟨_, h.step (.burst ho hs)⟩
    | use hx => exact ⟨_, h.step (.use hx)⟩
    | leave ho hb => exact ⟨_, h.step (.leave ho hb)⟩
    | dismiss ho => exact ⟨_, h.step (.dismiss ho rfl)⟩
    | unbind ho hs => exact ⟨_, h.step (.unbind ho hs)⟩
    | beginShutDown ho hs =>
      obtain ⟨log', h'⟩ := (h.step (.close ho hs)).cancels
      refine ⟨log', ?_⟩
      simp only [World.record, Scheduler.beginShutDown_eq_close hs]
      exact h'
    | finishShutDown ho hs => exact ⟨_, h.step (.finish ho rfl hs)⟩

end Dataflow
