import Dataflow.Proofs.Crew.Uses
import Dataflow.Proofs.Scheduler.Shutdown

/-!
# How the workers of a scheduler park

All that a scheduler does with its crew is what a crew may do (`World.Step.operates`): a thread
performs an operation of its worker, or puts its execution down and takes it up again, a call
for a run leaves tasks in the injector, and a shutdown tells the workers to end. So whatever
happens, the crew is one that its operations have led to (`World.Reachable.operated`), and its
event count is that of a lot.
-/

namespace Dataflow

namespace Crew

variable {τ ξ : Type} {start : τ → ξ}

/-- Tasks from outside come one after the other. -/
theorem operates_inject (c : Crew τ ξ) (tasks : List τ) :
    Relation.ReflTransGen (Operates start) c (c.inject tasks) := by
  induction tasks generalizing c with
  | nil => rw [show c.inject [] = c by simp [inject]]
  | cons task tasks ih =>
    rw [show c.inject (task :: tasks) = (c.inject [task]).inject tasks by simp [inject]]
    exact .head (.step (.submit task)) (ih _)

end Crew

variable {α : Type}

/-- A worker that has performed an operation of its execution keeps the tasks that became
ready, and goes on. -/
theorem Scheduler.operates_keep {c : Crew Task (Execution α)} {i : Nat} {x : Execution α}
    (hx : c.execution? i = some x) (ready : List Task) (st : Stage α) :
    Relation.ReflTransGen (Crew.Operates Execution.ofTask) c (keep c i x ready st) := by
  obtain ⟨w, hw, hs⟩ := Crew.exists_of_execution hx
  have hpush : (c.push i ready).execution? i = some x := by
    simp [Crew.execution?, Crew.push, Array.getElem?_modify, hw, Worker.execution?, hs]
  refine .head (.step (.push hx ready)) (.single (.step ?_))
  cases st with
  | «over» => exact .finish hpush
  | _ => exact .proceed hpush _

/-- Workers stay where they are when a graph is bound. -/
theorem Scheduler.threads_bind {s s' : Scheduler α} {g : Graph α}
    {c : Crew Task (Execution α)} (h : s.bind g = .ok s') (hc : s.threads = .crew c) :
    s'.threads = .crew c := by
  unfold bind at h
  rw [hc] at h
  split at h
  · cases h
  split at h
  · cases h
  split at h
  · cases h
  · obtain rfl := Except.ok.inj h
    rfl

namespace World

variable [Payload α] {w w' : World α} {c : Crew Task (Execution α)}

/-- **All that anybody does with the crew** is what a crew may do. -/
theorem Step.operates (h : w.Step w') (hw : w.Orderly .stealing)
    (hc : w.scheduler.threads = .crew c) : ∃ c', w'.scheduler.threads = .crew c' ∧
      Relation.ReflTransGen (Crew.Operates Execution.ofTask) c c' := by
  cases h with
  | thread hs =>
    rcases Scheduler.step_eq_some hs with ⟨c₀, c', hc₀, -, ha, rfl⟩ | ⟨x, b, hx, -, -, rfl⟩
    · obtain rfl := Threads.crew.inj (hc.symm.trans hc₀)
      exact ⟨c', rfl, .single (.step (.advance _ _ ha))⟩
    · rw [hc] at hx
      exact ⟨_, congrArg (Threads.put · _ _ _ _ _) hc, Scheduler.operates_keep hx _ _⟩
  | @notice k choice s hs =>
    unfold Scheduler.stepNotice at hs
    rw [hc] at hs
    dsimp only at hs
    split at hs
    · next c' ha =>
      obtain rfl := Option.some.inj hs
      exact ⟨c', rfl, .single (.step (.notice k choice ha))⟩
    · cases hs
  | bind ho hg hs hb =>
    exact ⟨c, Scheduler.threads_bind hs hc, .refl⟩
  | accept ho hb hi hs =>
    obtain ⟨-, -, b, b', tasks, -, -, rfl⟩ := Scheduler.run_eq_accepted hs
    refine ⟨c.inject tasks, ?_, c.operates_inject tasks⟩
    show w.scheduler.threads.inject tasks = _
    rw [hc]
    rfl
  | burst ho hs => exact absurd hs (hw.not_burst ho _ _)
  | use | leave => exact ⟨c, hc, .refl⟩
  | dismiss =>
    rw [Scheduler.dismiss_eq]
    exact ⟨c, hc, .refl⟩
  | unbind ho hs =>
    obtain ⟨-, rfl, -⟩ := Scheduler.unbind_eq_ok hs
    refine ⟨c, ?_, .refl⟩
    show w.scheduler.threads.release = _
    rw [hc]
    rfl
  | beginShutDown =>
    rw [Scheduler.beginShutDown_eq]
    exact ⟨c, hc, .refl⟩
  | finishShutDown ho hs =>
    rcases Scheduler.finishShutDown_eq_some hs with ⟨-, rfl⟩ | ⟨-, rfl⟩
    · exact ⟨c, hc, .refl⟩
    · refine ⟨c.stop, ?_, .single .stop⟩
      show w.scheduler.threads.stop = _
      rw [hc]
      rfl

/-- **The crew of a scheduler is what its operations have led to.** -/
theorem Reachable.operated (h : w.Reachable .stealing) : ∃ c n,
    w.scheduler.threads = .crew c ∧ c.Operated Execution.ofTask n := by
  induction h with
  | start h =>
    unfold Scheduler.new at h
    split at h
    · cases h
    dsimp only at h
    split at h
    · cases h
    · obtain rfl := Except.ok.inj h
      exact ⟨_, _, rfl, .refl⟩
  | step h hs ih =>
    obtain ⟨c, n, hc, ho⟩ := ih
    obtain ⟨c', hc', ho'⟩ := hs.operates h.orderly hc
    exact ⟨c', n, hc', ho.trans ho'⟩

/-- **Every worker that is registered is counted**, whatever the scheduler has gone through. -/
theorem Reachable.waiters (h : w.Reachable .stealing) (hc : w.scheduler.threads = .crew c) :
    c.events.waiters = c.workers.countP (·.stage.isRegistered) := by
  obtain ⟨c', n, hc', ho⟩ := h.operated
  obtain rfl := Threads.crew.inj (hc.symm.trans hc')
  exact ho.waiters

end World

end Dataflow
