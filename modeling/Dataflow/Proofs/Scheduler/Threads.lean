import Dataflow.Proofs.Crew.Load
import Dataflow.Proofs.Engine.Turn
import Dataflow.Scheduler.Basic

/-!
# The threads of a scheduler

Workers and the threads of nodes differ in how executions come to them. What they have
to do all together is a list of executions either way, `Threads.load`, and a step of a
thread does one of two things to it: a worker that looks for tasks permutes it, and a
thread that executes a node replaces one execution by what it has come to
(`Scheduler.step_eq_some`, `Threads.perm_put`).
-/

namespace Dataflow

variable {α : Type}

namespace Threads

/-- **What the threads have to do**: queued tasks, and the executions under way. -/
def load : Threads α → List (Execution α)
  | crew c => c.load .ofTask
  | nodes xs => xs.toList

/-- The threads after an operation of the execution of thread `i`. -/
def put (ts : Threads α) (i : Nat) (g : Graph α) (x : Execution α) (ready : List Task)
    (st : Stage α) : Threads α :=
  match ts with
  | crew c => crew (Scheduler.keep c i x ready st)
  | nodes xs => nodes (xs.setIfInBounds i (Scheduler.resume g x st))

variable {ts : Threads α} {i : Nat} {x : Execution α}

/-- What a worker does whose execution has come to a stage. -/
def kept (x : Execution α) : Stage α → WorkerStage Task (Execution α)
  | .over => .popping
  | st => .running { x with stage := st }

theorem keep_eq (c : Crew Task (Execution α)) (i : Nat) (x : Execution α) (ready : List Task)
    (st : Stage α) : Scheduler.keep c i x ready st = (c.push i ready).setStage i (kept x st) := by
  cases st <;> rfl

theorem load_kept (g : Graph α) (x : Execution α) (st : Stage α) :
    (kept x st).load .ofTask = x.onward .stealing g st := by
  cases st <;> rfl

theorem resume_eq (g : Graph α) (x : Execution α) (st : Stage α) :
    x.onward .dedicated g st = [Scheduler.resume g x st] := by
  cases st <;> rfl

theorem onward_of_alike {g g' : Graph α} (h : g.Alike g') (k : Strategy) (x : Execution α)
    (st : Stage α) : x.onward k g' st = x.onward k g st := by
  cases st <;> simp only [Execution.onward, Execution.await, h.inlets]

/-- **An execution is replaced**, and the tasks that became ready are queued. -/
theorem perm_put (h : ts.execution? i = some x) : ∃ rest : List (Execution α),
    ts.load.Perm (x :: rest) ∧ ∀ (g : Graph α) (ready : List Task) (st : Stage α),
      (ts.strategy = .dedicated → ready = []) →
      (ts.put i g x ready st).load.Perm
        (x.onward ts.strategy g st ++ ready.map .ofTask ++ rest) := by
  cases ts with
  | crew c =>
    obtain ⟨rest, hold, hnew⟩ := Crew.perm_busy Execution.ofTask h
    refine ⟨rest, hold, fun g ready st _ => ?_⟩
    show (Scheduler.keep c i x ready st).load .ofTask |>.Perm _
    rw [keep_eq, show (crew c).strategy = .stealing from rfl, ← load_kept g x st]
    exact hnew ready (kept x st)
  | nodes xs =>
    have hi : xs.toList[i]? = some x := by
      rw [Array.getElem?_toList]
      exact h
    obtain ⟨hlt, hget⟩ := List.getElem?_eq_some_iff.mp hi
    refine ⟨xs.toList.eraseIdx i, ?_, fun g ready st hready => ?_⟩
    · rw [← hget]
      exact (List.getElem_cons_eraseIdx_perm hlt).symm
    · rw [hready rfl, List.map_nil, List.append_nil,
        show (nodes xs).strategy = .dedicated from rfl, resume_eq]
      show (xs.setIfInBounds i (Scheduler.resume g x st)).toList.Perm _
      rw [Array.toList_setIfInBounds]
      exact List.set_perm_cons_eraseIdx hlt _

theorem strategy_put (ts : Threads α) (i : Nat) (g : Graph α) (x : Execution α)
    (ready : List Task) (st : Stage α) : (ts.put i g x ready st).strategy = ts.strategy := by
  cases ts <;> rfl

/-- Workers are told about the sources of a new run, and the threads of nodes are not. -/
theorem perm_inject (ts : Threads α) (tasks : List Task) : (ts.inject tasks).load.Perm
    ((if ts.strategy = .stealing then tasks else []).map .ofTask ++ ts.load) := by
  cases ts with
  | crew c => exact c.perm_inject tasks
  | nodes xs => exact .refl _

theorem strategy_inject (ts : Threads α) (tasks : List Task) :
    (ts.inject tasks).strategy = ts.strategy := by
  cases ts <;> rfl

/-- The thread is at the stage that its execution has come to, unless it has turned away
from the run. -/
theorem fired_put (h : ts.execution? i = some x) (g : Graph α) (ready : List Task)
    (st : Stage α) :
    ((ts.put i g x ready st).execution? i).elim [] (fun y => x.fired y.stage) = x.fired st := by
  cases ts with
  | crew c =>
    obtain ⟨w, hw, -⟩ := Crew.exists_of_execution h
    have hput : ((crew c).put i g x ready st).execution? i =
        Worker.execution? ⟨ready.reverse ++ w.deque, kept x st⟩ := by
      show (Scheduler.keep c i x ready st).execution? i = _
      rw [keep_eq, Crew.setStage_push]
      simp [Crew.execution?, Array.getElem?_modify, hw]
    rw [hput]
    cases st <;> rfl
  | nodes xs =>
    have hlt : i < xs.size := (Array.getElem?_eq_some_iff.mp h).1
    have hput : ((nodes xs).put i g x ready st).execution? i =
        some (Scheduler.resume g x st) := by
      show (xs.setIfInBounds i (Scheduler.resume g x st))[i]? = _
      simp [hlt]
    rw [hput]
    cases st <;> rfl

end Threads

namespace Scheduler

variable [Payload α] {s s' : Scheduler α} {i : Nat} {choice : Choice}

/-- **What a step of a thread is**: a worker looks for tasks, or a thread performs an
operation of its execution. -/
theorem step_eq_some (h : s.step i choice = some s') :
    (∃ c c', s.threads = .crew c ∧ c.execution? i = none ∧
      c.advance Execution.ofTask i choice = some c' ∧ s' = { s with threads := .crew c' }) ∨
    ∃ x b, s.threads.execution? i = some x ∧ s.binding = some b ∧ x.canAdvance b = true ∧
      s' = { s with
        threads := s.threads.put i (x.advance s.threads.strategy b).binding.graph x
          (x.advance s.threads.strategy b).ready
          (absorb s.futures (x.advance s.threads.strategy b)).2
        binding := some (x.advance s.threads.strategy b).binding
        futures := (absorb s.futures (x.advance s.threads.strategy b)).1 } := by
  have hmoved : s.attempt i choice = (s', true) := by
    unfold step at h
    split at h
    · next hs => rw [← Option.some.inj h, hs]
    · cases h
  unfold attempt at hmoved
  split at hmoved
  · next c hc =>
    split at hmoved
    · next hx =>
      split at hmoved
      · next c' hc' =>
        exact Or.inl ⟨c, c', hc, hx, hc', (Prod.mk.inj hmoved).1.symm⟩
      · simp at hmoved
    · next x b hx hb =>
      split at hmoved
      · next hcan =>
        refine Or.inr ⟨x, b, by rw [hc]; exact hx, hb, hcan, ?_⟩
        rw [← (Prod.mk.inj hmoved).1, hc]
        rfl
      · simp at hmoved
    · simp at hmoved
  · next xs hxs =>
    split at hmoved
    · next x b hx hb =>
      split at hmoved
      · next hcan =>
        refine Or.inr ⟨x, b, by rw [hxs]; exact hx, hb, hcan, ?_⟩
        rw [← (Prod.mk.inj hmoved).1, hxs]
        rfl
      · simp at hmoved
    · simp at hmoved

omit [Payload α] in
/-- A notification that goes on leaves to workers what they had to do. -/
theorem stepNotice_eq_some {n : Nat} (h : s.stepNotice n choice = some s') :
    ∃ c c', s.threads = .crew c ∧ (c'.load Execution.ofTask).Perm (c.load Execution.ofTask) ∧
      s' = { s with threads := .crew c' } := by
  unfold stepNotice at h
  split at h
  · next c hc =>
    split at h
    · next c' hc' =>
      exact ⟨c, c', hc, Crew.perm_advanceNotice hc', (Option.some.inj h).symm⟩
    · cases h
  · cases h

end Scheduler

end Dataflow
