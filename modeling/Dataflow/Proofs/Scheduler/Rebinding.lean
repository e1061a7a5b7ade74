import Dataflow.Proofs.Engine.Past
import Dataflow.Proofs.Scheduler.History
import Dataflow.Proofs.Scheduler.Shutdown

/-!
# Binding a graph that was bound before

A graph that has a past is bound as one that was only built (`Scheduler.bind_of_fresh`), and
what follows is the same as well. Every call comes to the same with any past of the bound
graph, and so does every operation of a thread. So whatever can happen to the one until the
next graph is bound (`World.Meanwhile`) can happen to the other, with the same answers
(`World.meanwhile_withPast`).
-/

namespace Dataflow

variable {α : Type}

/-! ### The same scheduler, with another past of its graph -/

namespace Scheduler

/-- The same scheduler, where the bound graph has another past. -/
def withPast (s : Scheduler α) (h : Past) : Scheduler α :=
  { s with binding := s.binding.map (·.withPast h) }

/-- The same answer to the call for a run. -/
def RunAnswer.withPast (h : Past) : RunAnswer α → RunAnswer α
  | .refused e => .refused e
  | .accepted s run cell => .accepted (s.withPast h) run cell
  | .broken s f => .broken (s.withPast h) f

variable (s : Scheduler α) (h : Past)

theorem withPast_of_unbound (hb : s.binding = none) : s.withPast h = s := by
  obtain ⟨settings, threads, binding, futures, isShutDown⟩ := s
  obtain rfl : binding = none := hb
  rfl

theorem isReleased_withPast : (s.withPast h).isReleased = s.isReleased := by
  obtain ⟨settings, threads, binding, futures, isShutDown⟩ := s
  cases binding <;> rfl

theorem waiting_withPast : (s.withPast h).waiting = s.waiting := by
  obtain ⟨settings, threads, binding, futures, isShutDown⟩ := s
  cases binding <;> rfl

theorem stepNotice_withPast (n : Nat) (choice : Choice) :
    (s.withPast h).stepNotice n choice = (s.stepNotice n choice).map (·.withPast h) := by
  obtain ⟨settings, threads, binding, futures, isShutDown⟩ := s
  cases threads with
  | crew c =>
    simp only [stepNotice, withPast]
    cases c.advanceNotice n choice <;> rfl
  | nodes xs => rfl

theorem run_withPast (inputs : List (NodeId × α)) :
    (s.withPast h).run inputs = (s.run inputs).withPast h := by
  obtain ⟨settings, threads, binding, futures, isShutDown⟩ := s
  cases isShutDown with
  | true => rfl
  | false =>
    cases binding with
    | none => rfl
    | some b =>
      have hsubmit := b.submit_withPast h inputs futures.nextCell
      simp only [Scheduler.run, withPast, Bool.false_eq_true, if_false, Option.map_some, hsubmit]
      cases b.submit inputs futures.nextCell <;> rfl

theorem dismiss_withPast : (s.withPast h).dismiss = s.dismiss.withPast h := by
  obtain ⟨settings, threads, binding, futures, isShutDown⟩ := s
  cases threads with
  | crew c => rfl
  | nodes xs =>
    cases binding with
    | none => rfl
    | some b =>
      have hclose : (b.withPast h).graph.closePools = b.graph.closePools.withPast h :=
        b.graph.closePools_withPast h
      have htable : (b.withPast h).table = b.table := rfl
      simp only [dismiss, withPast, Option.map_some, hclose, htable]
      split <;> rfl

/-- The graph that is given back has the past in front of what was counted since. -/
theorem unbind_withPast : (s.withPast h).unbind =
    s.unbind.map (·.map fun p => (p.1.withPast h, p.2)) := by
  have hreleased := s.isReleased_withPast h
  obtain ⟨settings, threads, binding, futures, isShutDown⟩ := s
  cases binding with
  | none => rfl
  | some b =>
    have hthaw : (b.withPast h).graph.thaw = b.graph.thaw.withPast h := b.graph.thaw_withPast h
    unfold unbind
    rw [hreleased]
    simp only [withPast, Option.map_some, hthaw]
    split <;> rfl

theorem beginShutDown_withPast : (s.withPast h).beginShutDown = s.beginShutDown.withPast h := by
  obtain ⟨settings, threads, binding, futures, isShutDown⟩ := s
  cases isShutDown <;> cases binding <;> rfl

theorem finishShutDown_withPast :
    (s.withPast h).finishShutDown = s.finishShutDown.map (·.withPast h) := by
  have hreleased := s.isReleased_withPast h
  have hshut : (s.withPast h).isShutDown = s.isShutDown := rfl
  unfold finishShutDown
  rw [hreleased, hshut]
  split
  · rfl
  · split <;> rfl

/-- **Any graph is bound as if it had only been built**, apart from its past. -/
theorem bind_of_fresh {g g₀ : Graph α} (hg : g.Built) (h₀ : g₀.Fresh)
    (hn : g₀.nodes = g.nodes) : s.bind g = (s.bind g₀).map (·.withPast g.past) := by
  have hnew := Binding.new_of_fresh hg.linked h₀ hn s.settings.pipelineDepth
    s.settings.backlogCapacity
  have hpanic : s.nodePanic? g = s.nodePanic? g₀ := by simp only [nodePanic?, hn]
  obtain ⟨settings, threads, binding, futures, isShutDown⟩ := s
  cases isShutDown with
  | true => rfl
  | false =>
    cases binding with
    | some b => rfl
    | none =>
      simp only [bind, Bool.false_eq_true, if_false, Option.isSome_none, hnew, hpanic]
      cases Binding.new g₀ settings.pipelineDepth settings.backlogCapacity with
      | error e => rfl
      | ok b =>
        cases threads with
        | crew c => rfl
        | nodes xs =>
          simp only [Except.map]
          split <;> rfl

variable [Payload α]

/-- **A thread never looks at the past** of the graph. -/
theorem step_withPast (i : Nat) (choice : Choice) :
    (s.withPast h).step i choice = (s.step i choice).map (·.withPast h) := by
  obtain ⟨settings, threads, binding, futures, isShutDown⟩ := s
  cases threads with
  | crew c =>
    simp only [step, attempt, withPast]
    rcases hx : c.execution? i with _ | x
    · cases c.advance Execution.ofTask i choice <;> rfl
    · cases binding with
      | none => rfl
      | some b =>
        simp only [Option.map_some, Execution.canAdvance_withPast, Execution.advance_withPast]
        cases x.canAdvance b <;> rfl
  | nodes xs =>
    simp only [step, attempt, withPast]
    rcases xs[i]? with _ | x
    · rfl
    · cases binding with
      | none => rfl
      | some b =>
        simp only [Option.map_some, Execution.canAdvance_withPast, Execution.advance_withPast]
        cases x.canAdvance b <;> rfl

end Scheduler

/-! ### The same world -/

/-- The same tenure, of a graph with another past. -/
def Tenure.withPast (t : Tenure α) (h : Past) : Tenure α :=
  { t with graph := t.graph.withPast h }

namespace World

/-- The same world, where the graph that was bound last has another past. -/
def withPast (w : World α) (h : Past) : World α :=
  { w with
    scheduler := w.scheduler.withPast h
    tenures := w.tenures.modifyHead (·.withPast h) }

/-- **What can happen until the next graph is bound.** -/
inductive Meanwhile [Payload α] (w : World α) : World α → Prop where
  | start : Meanwhile w w
  | step {w' w'' : World α} (h : Meanwhile w w') (hs : w'.Step w'')
      (ht : w''.tenures.length = w'.tenures.length) : Meanwhile w w''

variable {w w' : World α} (h : Past)

theorem length_tenures_withPast (w : World α) :
    (w.withPast h).tenures.length = w.tenures.length := by
  show (w.tenures.modifyHead _).length = _
  rw [List.length_modifyHead]

theorem record_withPast (s : Scheduler α) {f : Tenure α → Tenure α}
    (hf : ∀ t : Tenure α, (f t).withPast h = f (t.withPast h)) :
    (w.record s f).withPast h = (w.withPast h).record (s.withPast h) f := by
  obtain ⟨scheduler, owner, tenures, taken⟩ := w
  cases tenures with
  | nil => rfl
  | cons t ts => simp only [record, withPast, List.modifyHead_cons, hf]

/-- A shutdown begins. -/
theorem closing_withPast (w : World α) :
    ({ (w.withPast h).record (w.withPast h).scheduler.beginShutDown fun t =>
      { t with cancelled := t.cancelled ++ (w.withPast h).scheduler.waiting } with
        owner := .closing } : World α) =
    ({ w.record w.scheduler.beginShutDown fun t =>
      { t with cancelled := t.cancelled ++ w.scheduler.waiting } with
        owner := .closing } : World α).withPast h := by
  rw [show (w.withPast h).scheduler.beginShutDown = _ from
    Scheduler.beginShutDown_withPast _ h, show (w.withPast h).scheduler.waiting = _ from
    Scheduler.waiting_withPast _ h, ← record_withPast h _ fun _ => rfl]
  rfl

theorem binding_withPast {b : Binding α} (hb : w.scheduler.binding = some b) :
    (w.withPast h).scheduler.binding = some (b.withPast h) := by
  show w.scheduler.binding.map _ = _
  rw [hb]
  rfl

variable [Payload α]

/-- **Whatever happens can happen with any past.** -/
theorem Step.withPast (hs : w.Step w') (ht : w'.tenures.length = w.tenures.length) :
    (w.withPast h).Step (w'.withPast h) := by
  cases hs with
  | @thread i choice s hs =>
    rw [record_withPast h s fun _ => rfl]
    exact .thread ((Scheduler.step_withPast _ h i choice).trans (congrArg (Option.map _) hs))
  | @notice n choice s hs =>
    exact .notice ((Scheduler.stepNotice_withPast _ h n choice).trans (congrArg (Option.map _) hs))
  | bind ho hg hs hb => simp at ht
  | @accept inputs b staged s run cell ho hb hi hs =>
    rw [record_withPast h s fun _ => rfl]
    exact .accept ho (binding_withPast h hb) ((b.graph.stageInputs_withPast h inputs).trans hi)
      ((Scheduler.run_withPast _ h inputs).trans (congrArg _ hs))
  | @burst inputs s f ho hs =>
    exact .burst ho ((Scheduler.run_withPast _ h inputs).trans (congrArg _ hs))
  | use hc => exact .use hc
  | leave ho hb => exact .leave ho ((Option.isSome_map ..).trans hb)
  | dismiss ho =>
    have hs := Step.dismiss (w := w.withPast h) ho
    rwa [show (w.withPast h).scheduler.dismiss = _ from Scheduler.dismiss_withPast _ h] at hs
  | @unbind g s ho hs =>
    have hnone : s.withPast h = s :=
      Scheduler.withPast_of_unbound _ h (Scheduler.binding_unbind hs)
    have hstep := Step.unbind (w := w.withPast h) ho
      ((Scheduler.unbind_withPast _ h).trans (congrArg (Option.map _) hs))
    rwa [show s = s.withPast h from hnone.symm] at hstep
  | beginShutDown ho hs =>
    exact closing_withPast h w ▸ .beginShutDown ho hs
  | @finishShutDown s ho hs =>
    exact .finishShutDown ho
      ((Scheduler.finishShutDown_withPast _ h).trans (congrArg (Option.map _) hs))

/-- **Nothing else can happen.** -/
theorem Step.of_withPast {v : World α} (hs : (w.withPast h).Step v)
    (ht : v.tenures.length = w.tenures.length) : ∃ w', w.Step w' ∧ v = w'.withPast h := by
  cases hs with
  | @thread i choice s hs =>
    obtain ⟨s₀, hs₀, rfl⟩ := Option.map_eq_some_iff.mp
      ((Scheduler.step_withPast _ h i choice).symm.trans hs)
    exact ⟨_, .thread hs₀, (record_withPast h s₀ fun _ => rfl).symm⟩
  | @notice n choice s hs =>
    obtain ⟨s₀, hs₀, rfl⟩ := Option.map_eq_some_iff.mp
      ((Scheduler.stepNotice_withPast _ h n choice).symm.trans hs)
    exact ⟨_, .notice hs₀, rfl⟩
  | bind ho hg hs hb =>
    rw [← length_tenures_withPast h w] at ht
    simp at ht
  | @accept inputs b staged s run cell ho hb hi hs =>
    obtain ⟨b₀, hb₀, rfl⟩ := Option.map_eq_some_iff.mp hb
    replace hs := (Scheduler.run_withPast _ h inputs).symm.trans hs
    cases hs₀ : w.scheduler.run inputs with
    | accepted s₀ run₀ cell₀ =>
      rw [hs₀] at hs
      obtain ⟨rfl, rfl, rfl⟩ := Scheduler.RunAnswer.accepted.inj hs
      exact ⟨_, .accept ho hb₀ ((b₀.graph.stageInputs_withPast h inputs).symm.trans hi) hs₀,
        (record_withPast h s₀ fun _ => rfl).symm⟩
    | refused e =>
      rw [hs₀] at hs
      cases hs
    | broken s₀ f =>
      rw [hs₀] at hs
      cases hs
  | @burst inputs s f ho hs =>
    replace hs := (Scheduler.run_withPast _ h inputs).symm.trans hs
    cases hs₀ : w.scheduler.run inputs with
    | broken s₀ f₀ =>
      rw [hs₀] at hs
      obtain ⟨rfl, rfl⟩ := Scheduler.RunAnswer.broken.inj hs
      exact ⟨_, .burst ho hs₀, rfl⟩
    | refused e =>
      rw [hs₀] at hs
      cases hs
    | accepted s₀ run₀ cell₀ =>
      rw [hs₀] at hs
      cases hs
  | use hc => exact ⟨_, .use hc, rfl⟩
  | leave ho hb => exact ⟨_, .leave ho ((Option.isSome_map ..).symm.trans hb), rfl⟩
  | dismiss ho =>
    refine ⟨_, .dismiss ho, ?_⟩
    rw [show (w.withPast h).scheduler.dismiss = _ from Scheduler.dismiss_withPast _ h]
    rfl
  | @unbind g s ho hs =>
    obtain ⟨r, hr, he⟩ := Option.map_eq_some_iff.mp
      ((Scheduler.unbind_withPast _ h).symm.trans hs)
    cases r with
    | error e => cases he
    | ok p =>
      obtain ⟨-, rfl⟩ := Prod.mk.inj (Except.ok.inj he)
      have hnone : p.2.withPast h = p.2 :=
        Scheduler.withPast_of_unbound _ h (Scheduler.binding_unbind hr)
      refine ⟨_, .unbind ho hr, ?_⟩
      simp only [World.withPast, hnone]
  | beginShutDown ho hs =>
    exact ⟨_, .beginShutDown ho hs, closing_withPast h w⟩
  | @finishShutDown s ho hs =>
    obtain ⟨s₀, hs₀, rfl⟩ := Option.map_eq_some_iff.mp
      ((Scheduler.finishShutDown_withPast _ h).symm.trans hs)
    exact ⟨_, .finishShutDown ho hs₀, rfl⟩

/-- **A graph with a past has the same future**, apart from its past. -/
theorem meanwhile_withPast {v : World α} :
    (w.withPast h).Meanwhile v ↔ ∃ w', w.Meanwhile w' ∧ v = w'.withPast h := by
  constructor
  · intro hv
    induction hv with
    | start => exact ⟨w, .start, rfl⟩
    | step _ hs ht ih =>
      obtain ⟨w', hw', rfl⟩ := ih
      rw [length_tenures_withPast] at ht
      obtain ⟨w'', hs', rfl⟩ := hs.of_withPast h ht
      rw [length_tenures_withPast] at ht
      exact ⟨w'', hw'.step hs' ht, rfl⟩
  · rintro ⟨w', hw', rfl⟩
    induction hw' with
    | start => exact .start
    | step _ hs ht ih =>
      exact ih.step (hs.withPast h ht) (by simpa only [length_tenures_withPast] using ht)

end World

end Dataflow
