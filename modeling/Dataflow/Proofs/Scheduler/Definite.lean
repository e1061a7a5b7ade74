import Mathlib
import Dataflow.Proofs.Scheduler.World
import Dataflow.Scheduler.Drive

/-!
# The definite schedule is one of all

What the definite schedule comes to is reached by steps of anybody, so all that holds of
reachable worlds holds of it, `World.Reachable.settle`. The calls of the owner become
functions in the same way, and so the worlds of a scheduler at work can be computed.
-/

namespace Dataflow

namespace ThreadStep

variable {σ : Type} {step : ThreadStep σ} {P : σ → Prop}

/-! ### What every operation keeps, the schedule keeps -/

theorem burst_induction (h : ∀ s i, P s → P (step s i).1) (i fuel : Nat) {s : σ} (moved : Bool)
    (hs : P s) : P (step.burst i fuel s moved).1 := by
  induction fuel generalizing s moved with
  | zero => exact hs
  | succ fuel ih =>
    have hstep := h s i hs
    simp only [burst]
    split
    · next s' he =>
      rw [he] at hstep
      exact ih true hstep
    · next s' he =>
      rw [he] at hstep
      exact hstep

theorem sweep_induction (h : ∀ s i, P s → P (step s i).1) (fuel : Nat) (threads : List Nat)
    {s : σ} (moved : Bool) (hs : P s) : P (step.sweep fuel threads s moved).1 := by
  induction threads generalizing s moved with
  | nil => exact hs
  | cons i threads ih => exact ih _ (burst_induction h i fuel moved hs)

theorem settle_induction (h : ∀ s i, P s → P (step s i).1) (threads : List Nat)
    (fuel sweeps : Nat) {s : σ} (hs : P s) : P (step.settle threads fuel sweeps s) := by
  induction sweeps generalizing s with
  | zero => exact hs
  | succ sweeps ih =>
    have hsweep := sweep_induction h fuel threads false hs
    simp only [settle]
    split
    · next s' he =>
      rw [he] at hsweep
      exact ih hsweep
    · next s' he =>
      rw [he] at hsweep
      exact hsweep

end ThreadStep

variable {α : Type}

theorem Graph.add_of_fresh {g : Graph α} {name : String} (work : Option (Work α))
    (hp : g.plan = none) (hn : name ∉ g.names) (hs : g.nodes.size < sizeLimit) :
    (g.add name work).2 = { g with
      nodes := g.nodes.push { name, work }
      names := g.names.insert name g.nodes.size
      stations := g.stations.push {} } := by
  simp [Graph.add, Graph.isFrozen, hp, hn, Nat.not_le.mpr hs]

namespace World

variable [Payload α]

/-- Performs what a thread has planned. The notifications from outside count as one thread
more. -/
def planned : ThreadStep (World α) := fun w i =>
  if i < w.scheduler.threads.size then
    match w.scheduler.plan i with
    | none => (w, false)
    | some choice =>
      match w.scheduler.step i choice with
      | some s => (w.record s fun t =>
          { t with executed := t.executed ++ w.scheduler.fired s i }, true)
      | none => (w, false)
  else
    match w.scheduler.stepFirstNotice with
    | some s => ({ w with scheduler := s }, true)
    | none => (w, false)

/-- Lets all threads go on until nobody can. -/
def settle (w : World α) : World α :=
  let fuel := w.scheduler.operationsLeft
  planned.settle (List.range (w.scheduler.threads.size + 1)) fuel fuel w

/-- The owner makes a scheduler and binds a graph. -/
def launch (s : Scheduler α) (g : Graph α) : World α :=
  match s.bind g with
  | .error _ => { scheduler := s }
  | .ok s' => match s'.binding with
    | none => { scheduler := s }
    | some b => { scheduler := s', tenures := [{ graph := b.graph }] }

/-- The owner submits a run. -/
def submit (w : World α) (inputs : List (NodeId × α)) : World α :=
  match w.scheduler.binding, w.scheduler.run inputs with
  | some b, .accepted s run cell =>
    match b.graph.stageInputs inputs with
    | .ok staged => w.record s fun t => { t with tickets := t.tickets ++ [⟨run, staged, cell⟩] }
    | .error _ => w
  | _, _ => w

variable {k : Strategy} {w : World α}

theorem Reachable.planned (h : w.Reachable k) (i : Nat) : (w.planned i).1.Reachable k := by
  unfold World.planned
  split
  · split
    · exact h
    · split
      · next hs => exact h.step (.thread hs)
      · exact h
  · split
    · next s hs =>
      unfold Scheduler.stepFirstNotice at hs
      split at hs
      · exact h.step (.notice hs)
      · simp at hs
    · exact h

/-- **The definite schedule is one of all interleavings.** -/
theorem Reachable.settle (h : w.Reachable k) : w.settle.Reachable k :=
  ThreadStep.settle_induction (fun _ i hw => hw.planned i) _ _ _ h

theorem reachable_launch {settings : Settings} {processors : Nat} {s : Scheduler α}
    (hs : Scheduler.new k settings processors = .ok s) {g : Graph α} (hg : g.Built) :
    (launch s g).Reachable k := by
  have hstart : Reachable k { scheduler := s } := .start hs
  unfold launch
  split
  · exact hstart
  · next hbind =>
    split
    · exact hstart
    · next hb => exact hstart.step (.bind rfl hg hbind hb)

theorem Reachable.submit (h : w.Reachable k) (ho : w.owner = .free) (inputs : List (NodeId × α)) :
    (w.submit inputs).Reachable k := by
  unfold World.submit
  split
  · next hb hrun =>
    split
    · next hi => exact h.step (.accept ho hb hi hrun)
    · exact h
  · exact h

end World

/-! ### A relay

Two nodes, of which the first forwards its input and the second adds one to it, but
refuses a zero. -/

namespace Relay

/-- The graph before it is bound. -/
def graph : Graph Nat where
  nodes := #[
    { name := "source", work := none, successors := [1] },
    { name := "sink"
      work := some fun xs => .done (if xs = [0] then .failure "zero" else .value (xs.sum + 1))
      predecessors := [0] }]
  names := ((∅ : Std.HashMap String NodeId).insert "source" 0).insert "sink" 1
  stations := #[{}, {}]

/-- The calls that make it. -/
theorem calls_graph : (((Graph.empty.add "source" none).2.add "sink" (some fun xs =>
    .done (if xs = [0] then .failure "zero" else .value (xs.sum + 1)))).2.precede 0 1).2 =
    graph := by
  have hfresh : "source" ∉ (Graph.empty : Graph Nat).names := by simp [Graph.empty]
  rw [Graph.add_of_fresh none rfl hfresh (by decide),
    Graph.add_of_fresh _ rfl (by simp [Graph.empty]) (by decide)]
  rfl

theorem built_graph : graph.Built :=
  calls_graph ▸ ((Graph.Built.empty.add _ _).add _ _).precede _ _

/-- Settings with two slots, and with two workers if they steal. -/
def settings : Settings := { workerCount := some 2, pipelineDepth := 2 }

/-- A scheduler with them. -/
def fresh (k : Strategy) : Scheduler Nat where
  settings
  threads := match k with
    | .stealing => .crew (.new 2)
    | .dedicated => .nodes #[]

/-- The graph as it is bound. -/
def bound : Graph Nat := graph.prepare 2 #[0, 1] #[some 0, some 1]

/-- The scheduler that has bound it. -/
def world (k : Strategy) : World Nat where
  scheduler := { fresh k with
    threads := match k with
      | .stealing => .crew (.new 2)
      | .dedicated => .nodes #[.await bound 0, .await bound 1]
    binding := some ⟨bound, .new 2 #[0, 1] 1 1024⟩ }
  tenures := [{ graph := bound }]

theorem reachable_world (k : Strategy) : (world k).Reachable k := by
  have hnew : Scheduler.new k settings 1 = .ok (fresh k) := by cases k <;> cbv
  have hlaunch : World.launch (fresh k) graph = world k := by cases k <;> cbv
  exact hlaunch ▸ World.reachable_launch hnew built_graph

/-- Three runs are submitted, of which the first fails and the last has to wait for a
slot. -/
def submitted (k : Strategy) : World Nat :=
  (((world k).submit [(0, 0)]).submit [(0, 4)]).submit [(0, 6)]

theorem reachable_submitted (k : Strategy) : (submitted k).Reachable k :=
  (((reachable_world k).submit rfl _).submit rfl _).submit rfl _

/-- Only the source has gone on. -/
def halfway : World Nat := (World.planned.burst 0 100 (submitted .dedicated) false).1

theorem reachable_halfway : halfway.Reachable .dedicated :=
  ThreadStep.burst_induction (fun _ i h => h.planned i) 0 100 false (reachable_submitted _)

/-- Nobody can go on. -/
def rested (k : Strategy) : World Nat := (submitted k).settle

theorem reachable_rested (k : Strategy) : (rested k).Reachable k :=
  (reachable_submitted k).settle

theorem rested_atRest (k : Strategy) : (rested k).AtRest := by
  cases k <;> decide +kernel

theorem rested_tenures (k : Strategy) : (rested k).tenures.length = 1 := by
  cases k <;> decide +kernel

/-- What has happened by then. -/
def tenure (k : Strategy) : Tenure Nat :=
  (rested k).tenures.get ⟨0, by rw [rested_tenures]; exact Nat.one_pos⟩

theorem tenure_mem (k : Strategy) : tenure k ∈ (rested k).tenures :=
  List.get_mem _ _

theorem tenure_tickets (k : Strategy) : (tenure k).tickets.length = 3 := by
  cases k <;> decide +kernel

/-- The runs that were accepted. -/
def ticket (k : Strategy) (i : Fin 3) : Ticket Nat :=
  (tenure k).tickets.get (i.cast (tenure_tickets k).symm)

theorem ticket_mem (k : Strategy) (i : Fin 3) : ticket k i ∈ (tenure k).tickets :=
  List.get_mem _ _

end Relay

end Dataflow
