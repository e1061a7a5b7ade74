import Dataflow.Proofs.Engine.Effort
import Dataflow.Proofs.Scheduler.Reachable

/-!
# Schedules

In the course of a schedule the owner does nothing, so that no run is submitted and the
scheduler is not shut down. Threads go on in any order, notifications that are under way
do so, too, and the holders of futures use them (`World.Schedule`).

What is on record grows, and nothing else changes in the tenure of the graph; with every
operation of an execution less is left to do (`World.Schedule.tenure`).
-/

namespace Dataflow

variable {α : Type} [Payload α]

namespace World

/-- **A schedule** that leads from a world to another, with the number of operations of
executions on the way. Workers may look for tasks in between. -/
inductive Schedule (w : World α) : Nat → World α → Prop where
  | start : w.Schedule 0 w
  | thread {n : Nat} {w' : World α} {i : Nat} {choice : Choice} {s : Scheduler α}
      (h : w.Schedule n w') (hs : w'.scheduler.step i choice = some s) :
      w.Schedule (if (w'.scheduler.threads.execution? i).isSome then n + 1 else n)
        (w'.record s fun t => { t with executed := t.executed ++ w'.scheduler.fired s i })
  | notice {n : Nat} {w' : World α} {j : Nat} {choice : Choice} {s : Scheduler α}
      (h : w.Schedule n w') (hs : w'.scheduler.stepNotice j choice = some s) :
      w.Schedule n { w' with scheduler := s }
  | use {n : Nat} {w' : World α} {cell : CellId} {got : Option (RunOutcome α)} {c : Cell α}
      (h : w.Schedule n w') (hc : (w'.scheduler.futures.cell cell).Used got c) :
      w.Schedule n { w' with
        scheduler := { w'.scheduler with futures := w'.scheduler.futures.setCell cell c }
        taken := w'.taken ++ got.toList.map (cell, ·) }

variable {k : Strategy} {w w' : World α} {n : Nat}

theorem Schedule.reachable (h : w.Schedule n w') (hw : w.Reachable k) : w'.Reachable k := by
  induction h with
  | start => exact hw
  | thread _ hs ih => exact ih.step (.thread hs)
  | notice _ hs ih => exact ih.step (.notice hs)
  | use _ hc ih => exact ih.step (.use hc)

end World

/-- What is left to do in a tenure. -/
def Tenure.effort (k : Strategy) (t : Tenure α) (s : Scheduler α) (b : Binding α) : Nat :=
  Scene.effort k ⟨t.graph, t.requests, t.cancelled, t.executed, b, s.threads.load, []⟩

namespace Tenure.Running

variable {t : Tenure α} {k : Strategy} {s s' : Scheduler α} {owner : Owner} {b : Binding α}
  {taken : List (CellId × RunOutcome α)}

/-- **With an operation of an execution less is left to do.** -/
theorem effort_lt (h : t.Running k s owner taken b) (hk : s.threads.strategy = k) {i : Nat}
    {x : Execution α} (hx : s.threads.execution? i = some x) (hcan : x.canAdvance b = true)
    (hs' : s' = { s with
        threads := s.threads.put i (x.advance s.threads.strategy b).binding.graph x
          (x.advance s.threads.strategy b).ready
          (Scheduler.absorb s.futures (x.advance s.threads.strategy b)).2
        binding := some (x.advance s.threads.strategy b).binding
        futures := (Scheduler.absorb s.futures (x.advance s.threads.strategy b)).1 }) :
    ({ t with executed := t.executed ++ s.fired s' i } : Tenure α).effort k s'
      (x.advance k b).binding < t.effort k s b := by
  obtain ⟨hfired, rest, hload, hperm⟩ := h.operation hk hx hcan hs'
  obtain ⟨closed, launched, post, hsound, -⟩ := h.sound
  let before : Scene α := ⟨t.graph, t.requests, t.cancelled, t.executed, b, x :: rest, []⟩
  have hlt := Scene.effort_advance (s := before) (k := k)
    ⟨h.frozen, h.size, _, closed, launched, post, hsound.perm hload⟩ rfl hcan
  have hbefore : before.effort k = t.effort k s b :=
    Scene.effort_congr rfl rfl rfl rfl hload.symm
  have hafter : ({ t with executed := t.executed ++ s.fired s' i } : Tenure α).effort k s'
      (x.advance k b).binding = (before.move k x rest _ (x.deeds k b)).effort k :=
    Scene.effort_congr rfl rfl (by rw [hfired]; rfl) rfl hperm
  rw [hafter, ← hbefore]
  exact hlt

end Tenure.Running

namespace World

variable {k : Strategy} {w w' : World α} {n : Nat}

/-- **What a schedule leads to**: some more nodes have fired, and no more operations were
performed than were left. -/
theorem Schedule.tenure (h : w.Schedule n w') (hw : w.Reachable k) {b : Binding α}
    (hb : w.scheduler.binding = some b) {t : Tenure α} {ts : List (Tenure α)}
    (hts : w.tenures = t :: ts) : ∃ b' more, w'.scheduler.binding = some b' ∧
      w'.tenures = { t with executed := t.executed ++ more } :: ts ∧
      n + ({ t with executed := t.executed ++ more } : Tenure α).effort k w'.scheduler b' ≤
        t.effort k w.scheduler b := by
  induction h with
  | start =>
    refine ⟨b, [], hb, by simpa using hts, ?_⟩
    simp
  | @thread n w' i choice s h hs ih =>
    obtain ⟨b₁, more, hb₁, hts₁, hle⟩ := ih
    rcases Scheduler.step_eq_some hs with
      ⟨c, c', hc, hx, hstep, rfl⟩ | ⟨x, b₂, hx, hb₂, hcan, hs'⟩
    · -- a worker has looked for tasks
      have hnone : w'.scheduler.threads.execution? i = none := by
        rw [hc]
        exact hx
      have hfired : ∀ s', w'.scheduler.fired s' i = [] := by
        simp [Scheduler.fired, hnone]
      refine ⟨b₁, more, hb₁, by simp [record, hts₁, hfired], ?_⟩
      rw [hnone]
      refine Nat.le_trans (Nat.le_of_eq (congrArg (n + ·) ?_)) hle
      refine Scene.effort_congr rfl rfl rfl rfl ?_
      show (c'.load _).Perm w'.scheduler.threads.load
      rw [hc]
      exact Crew.perm_advance hstep
    · obtain rfl := Option.some.inj (hb₁.symm.trans hb₂)
      have horderly := (h.reachable hw).orderly
      have hlt : ({ t with executed := t.executed ++ (more ++ w'.scheduler.fired s i) } :
          Tenure α).effort k s (x.advance k b₁).binding <
            ({ t with executed := t.executed ++ more } : Tenure α).effort k w'.scheduler b₁ := by
        rw [← List.append_assoc]
        exact (horderly.running hb₁ hts₁).effort_lt horderly.strategy hx hcan hs'
      refine ⟨(x.advance k b₁).binding, more ++ w'.scheduler.fired s i, ?_, ?_, ?_⟩
      · show s.binding = _
        rw [hs', ← horderly.strategy]
      · simp only [record, hts₁, List.modifyHead_cons, List.append_assoc]
      · rw [hx, Option.isSome_some, if_pos rfl]
        show n + 1 + Tenure.effort k _ s _ ≤ _
        omega
  | @notice n w' j choice s h hs ih =>
    obtain ⟨b₁, more, hb₁, hts₁, hle⟩ := ih
    obtain ⟨c, c', hc, hperm, rfl⟩ := Scheduler.stepNotice_eq_some hs
    refine ⟨b₁, more, hb₁, hts₁, Nat.le_trans (Nat.le_of_eq (congrArg (n + ·) ?_)) hle⟩
    refine Scene.effort_congr rfl rfl rfl rfl ?_
    show (c'.load _).Perm w'.scheduler.threads.load
    rw [hc]
    exact hperm
  | use h hc ih => exact ih

end World

end Dataflow
