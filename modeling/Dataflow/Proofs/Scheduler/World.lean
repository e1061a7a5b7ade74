import Dataflow.Proofs.Graph.Linked
import Dataflow.Proofs.Run.Docket
import Dataflow.Proofs.Scheduler.Threads

/-!
# What can happen to a scheduler

A `World` is a scheduler together with what its owner is at, and with what has happened so
far. The history is kept by graph: from one binding to the next, the graph is in its
`Tenure`, and all runs that were accepted meanwhile are on record, those that were
cancelled, and who was executed for which of them, in order.

`World.Step` is one operation of anybody: of a thread, of a notification, of the owner, or
of the holder of some future. Calls of the owner that wait are made of several steps, and
others do theirs in between. Runs are not submitted in the course of such a call, because
it has the scheduler to itself. What is said of all reachable worlds (`World.Reachable`)
holds for every interleaving. An attempt to bind a graph that ends in a panic is not among the
operations, because of the threads that it leaves behind (`Scheduler.bind_panics`).
-/

namespace Dataflow

variable {α : Type}

/-- A run that was accepted: its number, what was staged for it, and the cell of its
future. -/
structure Ticket (α : Type) where
  run : ObjectId
  staged : Staged α
  cell : CellId

/-- What has happened since a graph was bound. -/
structure Tenure (α : Type) where
  /-- The graph as it was bound. -/
  graph : Graph α
  /-- The runs that were accepted. -/
  tickets : List (Ticket α) := []
  /-- The runs that waited in the backlog when the scheduler was shut down. -/
  cancelled : List ObjectId := []
  /-- The nodes that have fired, each with the run. -/
  executed : List (NodeId × ObjectId) := []

namespace Tenure

/-- The accepted runs, as the table knows them. -/
def requests (t : Tenure α) : List (Request α) :=
  t.tickets.map fun a => ⟨a.staged, a.cell⟩

end Tenure

/-- What the owner is at: nothing that waits, giving a graph back, or a shutdown. -/
inductive Owner where
  | free
  | leaving
  | closing
deriving DecidableEq

/-- A scheduler, its owner, the tenures of all graphs, last first, and the outcomes that
holders of futures have got, each with the cell. -/
structure World (α : Type) where
  scheduler : Scheduler α
  owner : Owner := .free
  tenures : List (Tenure α) := []
  taken : List (CellId × RunOutcome α) := []

namespace Scheduler

/-- The firing that the step of a thread was: its execution has come to the point where
the callback was skipped, or came to an end. -/
def fired (s s' : Scheduler α) (i : Nat) : List (NodeId × ObjectId) :=
  match s.threads.execution? i, s'.threads.execution? i with
  | some x, some y => x.fired y.stage
  | _, _ => []

/-- The runs that wait in the backlog. -/
def waiting (s : Scheduler α) : List ObjectId :=
  match s.binding with
  | some b => b.table.backlog.map (·.objectId)
  | none => []

end Scheduler

namespace World

/-- The outcome of a run was handed to its future: it is in the cell, or the holder has got
it from there. -/
def Yields (w : World α) (cell : CellId) (o : RunOutcome α) : Prop :=
  w.scheduler.futures.Yields w.taken cell o

/-- No thread can go on, and nothing is left for any. -/
def AtRest (w : World α) : Prop :=
  ∀ b, w.scheduler.binding = some b → ∀ x ∈ w.scheduler.threads.load, x.canAdvance b = false

instance (w : World α) : Decidable w.AtRest :=
  decidable_of_iff
    (∀ b ∈ w.scheduler.binding, ∀ x ∈ w.scheduler.threads.load, x.canAdvance b = false) Iff.rfl

/-- Adds to the history of the last graph. -/
def record (w : World α) (s : Scheduler α) (f : Tenure α → Tenure α) : World α :=
  { w with scheduler := s, tenures := w.tenures.modifyHead f }

/-- **One operation of anybody.** -/
inductive Step [Payload α] (w : World α) : World α → Prop where
  /-- A thread performs its next operation. -/
  | thread {i : Nat} {choice : Choice} {s : Scheduler α}
      (h : w.scheduler.step i choice = some s) :
      Step w (w.record s fun t => { t with executed := t.executed ++ w.scheduler.fired s i })
  /-- A notification that some call has left under way goes on. -/
  | notice {n : Nat} {choice : Choice} {s : Scheduler α}
      (h : w.scheduler.stepNotice n choice = some s) : Step w { w with scheduler := s }
  /-- The owner binds a graph. -/
  | bind {g : Graph α} {s : Scheduler α} {b : Binding α} (ho : w.owner = .free)
      (hg : g.Built) (h : w.scheduler.bind g = .ok s) (hb : s.binding = some b) :
      Step w { w with scheduler := s, tenures := { graph := b.graph } :: w.tenures }
  /-- A run is accepted. -/
  | accept {inputs : List (NodeId × α)} {b : Binding α} {staged : Staged α}
      {s : Scheduler α} {run : ObjectId} {cell : CellId} (ho : w.owner = .free)
      (hb : w.scheduler.binding = some b) (hi : b.graph.stageInputs inputs = .ok staged)
      (h : w.scheduler.run inputs = .accepted s run cell) :
      Step w (w.record s fun t => { t with tickets := t.tickets ++ [⟨run, staged, cell⟩] })
  /-- The call for a run ends in a panic. -/
  | burst {inputs : List (NodeId × α)} {s : Scheduler α} {f : Fault} (ho : w.owner = .free)
      (h : w.scheduler.run inputs = .broken s f) : Step w { w with scheduler := s }
  /-- The holder of a future asks for its outcome, in whatever way. -/
  | use {cell : CellId} {got : Option (RunOutcome α)} {c : Cell α}
      (h : (w.scheduler.futures.cell cell).Used got c) :
      Step w { w with
        scheduler := { w.scheduler with futures := w.scheduler.futures.setCell cell c }
        taken := w.taken ++ got.toList.map (cell, ·) }
  /-- The owner wants the graph back. -/
  | leave (ho : w.owner = .free) (hb : w.scheduler.binding.isSome) :
      Step w { w with owner := .leaving }
  /-- The owner dismisses the threads of nodes if no run is in flight. -/
  | dismiss (ho : w.owner ≠ .free) : Step w { w with scheduler := w.scheduler.dismiss }
  /-- The owner gets the graph back. -/
  | unbind {g : Graph α} {s : Scheduler α} (ho : w.owner = .leaving)
      (h : w.scheduler.unbind = some (.ok (g, s))) :
      Step w { w with scheduler := s, owner := .free }
  /-- The owner begins to shut the scheduler down. -/
  | beginShutDown (ho : w.owner = .free) (hs : w.scheduler.isShutDown = false) :
      Step w { w.record w.scheduler.beginShutDown fun t =>
        { t with cancelled := t.cancelled ++ w.scheduler.waiting } with owner := .closing }
  /-- The shutdown is complete. -/
  | finishShutDown {s : Scheduler α} (ho : w.owner = .closing)
      (h : w.scheduler.finishShutDown = some s) :
      Step w { w with scheduler := s, owner := .free }

/-- **The worlds that anybody's operations can lead to**, from a new scheduler. -/
inductive Reachable [Payload α] (k : Strategy) : World α → Prop where
  | start {settings : Settings} {processors : Nat} {s : Scheduler α}
      (h : Scheduler.new k settings processors = .ok s) : Reachable k { scheduler := s }
  | step {w w' : World α} (h : Reachable k w) (hs : w.Step w') : Reachable k w'

end World

end Dataflow
