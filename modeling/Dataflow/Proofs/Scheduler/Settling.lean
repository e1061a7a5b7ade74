import Dataflow.Proofs.Engine.Frame
import Dataflow.Proofs.Scheduler.Ready
import Dataflow.Proofs.Scheduler.Rebinding
import Dataflow.Proofs.Scheduler.Schedules

/-!
# How a graph comes free

The owner who wants a graph back waits until no run holds a slot, dismisses the threads of
nodes, and waits until they have ended. Both waits are over some day: in the meantime the
others follow a schedule, which is finite and goes on until there is nothing left to do
(`World.Settles`). Then no run is in flight (`World.Reachable.settles`). If the threads were
dismissed before, none of them uses the graph any more
(`World.Reachable.settles_dismissed`).

Meanwhile the graph is used, and nothing else is done to it (`World.Reachable.used`). So nodes,
names and plan stay as they were when it was bound (`World.Reachable.framed`).
-/

namespace Dataflow

variable {α : Type}

/-! ### The graph that is bound -/

namespace Scheduler

/-- The threads of nodes are dismissed by closing pools. -/
theorem used_dismiss {s : Scheduler α} {b' : Binding α} (h : s.dismiss.binding = some b') :
    ∃ b, s.binding = some b ∧ b.graph.Used b'.graph := by
  unfold dismiss at h
  split at h
  · next b _ hb =>
    split at h
    · obtain rfl := Option.some.inj h
      exact ⟨b, hb, .closePools .unused⟩
    · exact ⟨b', h, .unused⟩
  · exact ⟨b', h, .unused⟩

/-- The beginning of a shutdown concerns the table only. -/
theorem used_beginShutDown {s : Scheduler α} {b' : Binding α}
    (h : s.beginShutDown.binding = some b') :
    ∃ b, s.binding = some b ∧ b.graph.Used b'.graph := by
  unfold beginShutDown at h
  split at h
  · exact ⟨b', h, .unused⟩
  · split at h
    · exact ⟨b', h, .unused⟩
    · next b hb =>
      obtain rfl := Option.some.inj h
      exact ⟨b, hb, .unused⟩

end Scheduler

theorem Threads.exists_nodes {ts : Threads α} (h : ts.strategy = .dedicated) :
    ∃ xs, ts = .nodes xs := by
  cases ts with
  | crew c => cases h
  | nodes xs => exact ⟨xs, rfl⟩

/-- Whatever is being executed is left to be done. -/
theorem Threads.executions_subset_load (ts : Threads α) : ts.executions ⊆ ts.load := by
  intro x hx
  cases ts with
  | nodes xs => exact hx
  | crew c =>
    obtain ⟨w, hw, hwx⟩ := List.mem_filterMap.mp hx
    obtain ⟨i, hi, rfl⟩ := List.mem_iff_getElem.mp hw
    have hi' : i < c.workers.size := by simpa using hi
    have hexec : (crew c).execution? i = some x := by
      show c.workers[i]?.bind _ = _
      rw [Array.getElem?_eq_getElem hi']
      exact hwx
    obtain ⟨rest, hload, -⟩ := perm_put hexec
    exact hload.mem_iff.mpr (List.mem_cons_self ..)

/-- **A graph is bound as it is, but frozen.** -/
theorem Binding.new_eq_ok {g : Graph α} {depth backlogCapacity : Nat} {b : Binding α}
    (h : Binding.new g depth backlogCapacity = .ok b) :
    (∃ order levels, b.graph = g.prepare depth order levels) ∧
      g.freeze depth = (.ok (), b.graph) ∧
      ∃ inDegrees sinkCount, b.table = .new depth inDegrees sinkCount backlogCapacity := by
  rcases g.freeze_cases depth with ⟨e, he⟩ | ⟨order, levels, -, -, -, he⟩
  · simp only [Binding.new, he] at h
    cases h
  · simp only [Binding.new, he] at h
    obtain rfl := Except.ok.inj h
    exact ⟨⟨order, levels, rfl⟩, he, _, _, rfl⟩

namespace World

variable {w w' : World α}

theorem map_graph_record (s : Scheduler α) {f : Tenure α → Tenure α}
    (hf : ∀ t, (f t).graph = t.graph) :
    (w.record s f).tenures.map (·.graph) = w.tenures.map (·.graph) := by
  obtain ⟨scheduler, owner, tenures, taken⟩ := w
  cases tenures with
  | nil => rfl
  | cons t ts => simp only [record, List.modifyHead_cons, List.map_cons, hf]

variable [Payload α] {k : Strategy}

/-- **Until the next graph is bound**, all graphs on record stay the same, and that of the
binding is used, and that is all. -/
theorem Step.used (h : w.Reachable k) (hs : w.Step w')
    (ht : w'.tenures.length = w.tenures.length) :
    w'.tenures.map (·.graph) = w.tenures.map (·.graph) ∧
      ∀ {b'}, w'.scheduler.binding = some b' →
        ∃ b, w.scheduler.binding = some b ∧ b.graph.Used b'.graph := by
  cases hs with
  | @thread i choice s hs =>
    refine ⟨map_graph_record s fun _ => rfl, fun {b'} hb' => ?_⟩
    rcases Scheduler.step_eq_some hs with ⟨c, c', -, -, -, rfl⟩ | ⟨x, b, -, hb, -, rfl⟩
    · exact ⟨b', hb', .unused⟩
    · obtain rfl := Option.some.inj hb'
      exact ⟨b, hb, x.used_advance _ b⟩
  | notice hs =>
    obtain ⟨c, c', -, -, rfl⟩ := Scheduler.stepNotice_eq_some hs
    exact ⟨rfl, fun {b'} hb' => ⟨b', hb', .unused⟩⟩
  | bind ho hg hs hb => simp at ht
  | @accept inputs b₀ staged s run cell ho hb hi hs =>
    refine ⟨map_graph_record s fun _ => rfl, fun {b'} hb' => ?_⟩
    obtain ⟨-, -, b, b₁, tasks, hb, hsub, rfl⟩ := Scheduler.run_eq_accepted hs
    obtain rfl := Option.some.inj hb'
    exact ⟨b, hb, Binding.used_submit hsub⟩
  | burst ho hs => exact absurd hs (h.orderly.not_burst ho _ _)
  | use hc => exact ⟨rfl, fun {b'} hb' => ⟨b', hb', .unused⟩⟩
  | leave ho hb => exact ⟨rfl, fun {b'} hb' => ⟨b', hb', .unused⟩⟩
  | dismiss ho => exact ⟨rfl, Scheduler.used_dismiss⟩
  | unbind ho hs =>
    refine ⟨rfl, fun hb' => ?_⟩
    rw [show _ = none from Scheduler.binding_unbind hs] at hb'
    cases hb'
  | beginShutDown ho hs =>
    exact ⟨map_graph_record w.scheduler.beginShutDown fun _ => rfl, Scheduler.used_beginShutDown⟩
  | finishShutDown ho hs =>
    refine ⟨rfl, fun {b'} hb' => ⟨b', ?_, .unused⟩⟩
    obtain ⟨-, rfl⟩ | ⟨-, rfl⟩ := Scheduler.finishShutDown_eq_some hs <;> exact hb'

/-- Nothing that happens changes the settings. -/
theorem Step.settings (h : w.Reachable k) (hs : w.Step w') :
    w'.scheduler.settings = w.scheduler.settings := by
  cases hs with
  | thread hs =>
    rcases Scheduler.step_eq_some hs with ⟨_, _, -, -, -, rfl⟩ | ⟨_, _, -, -, -, rfl⟩ <;> rfl
  | notice hs =>
    obtain ⟨_, _, -, -, rfl⟩ := Scheduler.stepNotice_eq_some hs
    rfl
  | bind ho hg hs hb => exact (Scheduler.bind_eq_ok hs hb).2.1
  | accept ho hb hi hs =>
    obtain ⟨-, -, _, _, _, -, -, rfl⟩ := Scheduler.run_eq_accepted hs
    rfl
  | burst ho hs => exact absurd hs (h.orderly.not_burst ho _ _)
  | use hc => rfl
  | leave ho hb => rfl
  | dismiss ho => rw [Scheduler.dismiss_eq]
  | unbind ho hs =>
    obtain ⟨-, rfl, -⟩ := Scheduler.unbind_eq_ok hs
    rfl
  | beginShutDown ho hs =>
    simp only [record]
    rw [Scheduler.beginShutDown_eq]
  | finishShutDown ho hs =>
    obtain ⟨-, rfl⟩ | ⟨-, rfl⟩ := Scheduler.finishShutDown_eq_some hs <;> rfl

theorem Meanwhile.reachable (hm : w.Meanwhile w') (h : w.Reachable k) : w'.Reachable k := by
  induction hm with
  | start => exact h
  | step _ hs _ ih => exact ih.step hs

theorem Meanwhile.settings (hm : w.Meanwhile w') (h : w.Reachable k) :
    w'.scheduler.settings = w.scheduler.settings := by
  induction hm with
  | start => rfl
  | step hm hs _ ih => exact (hs.settings (hm.reachable h)).trans ih

/-- The graph of the last tenure is the one that was bound last. -/
theorem Meanwhile.tenures (hm : w.Meanwhile w') (h : w.Reachable k) {t : Tenure α}
    {ts : List (Tenure α)} (hts : w.tenures = t :: ts) :
    ∃ t' ts', w'.tenures = t' :: ts' ∧ t'.graph = t.graph := by
  have hsame : w'.tenures.map (·.graph) = w.tenures.map (·.graph) := by
    induction hm with
    | start => rfl
    | step hm hs ht ih => exact (hs.used (hm.reachable h) ht).1.trans ih
  rw [hts] at hsame
  cases hts' : w'.tenures with
  | nil =>
    rw [hts'] at hsame
    cases hsame
  | cons t' ts' =>
    rw [hts'] at hsame
    exact ⟨t', ts', rfl, (List.cons.inj hsame).1⟩

/-- **The graph that is bound was frozen**, and has only been used since. -/
theorem Reachable.used (h : w.Reachable k) {b : Binding α} (hb : w.scheduler.binding = some b)
    {t : Tenure α} {ts : List (Tenure α)} (hts : w.tenures = t :: ts) :
    (∃ (g : Graph α) (depth : Nat), g.Built ∧ g.freeze depth = (.ok (), t.graph)) ∧
      t.graph.Used b.graph := by
  induction h generalizing b t ts with
  | start h => cases hts
  | @step w w' hw hs ih =>
    by_cases ht : w'.tenures.length = w.tenures.length
    · obtain ⟨hsame, hused⟩ := hs.used hw ht
      obtain ⟨b₀, hb₀, hu⟩ := hused hb
      obtain ⟨t₀, ts₀, hts₀, -⟩ := hw.orderly.bound hb₀
      obtain ⟨hfrozen, hu₀⟩ := ih hb₀ hts₀
      rw [hts, hts₀] at hsame
      rw [show t.graph = t₀.graph from (List.cons.inj hsame).1]
      exact ⟨hfrozen, hu₀.trans hu⟩
    · -- a graph is bound
      cases hs with
      | @bind g s b' ho hg hs hb' =>
        obtain ⟨rfl, rfl⟩ := List.cons.inj hts
        obtain rfl := Option.some.inj (hb'.symm.trans hb)
        obtain ⟨-, -, -, -, hnew, -⟩ := Scheduler.bind_eq_ok hs hb
        obtain ⟨-, hfreeze, -⟩ := Binding.new_eq_ok hnew
        exact ⟨⟨g, _, hg, hfreeze⟩, .unused⟩
      | _ => exact absurd (by simp [record]) ht

/-- **The graph that is bound is the one that was bound**, apart from what its stations
hold. -/
theorem Reachable.framed (h : w.Reachable k) {b : Binding α} (hb : w.scheduler.binding = some b)
    {t : Tenure α} {ts : List (Tenure α)} (hts : w.tenures = t :: ts) :
    t.graph.Built ∧ t.graph.Frame b.graph := by
  obtain ⟨⟨g, depth, hg, hfreeze⟩, hused⟩ := h.used hb hts
  refine ⟨?_, hused.frame⟩
  have hbuilt := hg.freeze depth
  rwa [hfreeze] at hbuilt

/-! ### Rest -/

/-- **Whatever happens, the world comes to a rest**, where something is the case: every
schedule is finite, and goes on as long as anybody has something left to do. -/
structure Settles (w : World α) (P : World α → Prop) : Prop where
  bounded : ∃ bound, ∀ n w', w.Schedule n w' → n ≤ bound
  goesOn : ∀ {n w'}, w.Schedule n w' → ¬ w'.AtRest → w'.scheduler.CanGoOn
  atRest : ∀ {n w'}, w.Schedule n w' → w'.AtRest → P w'

omit [Payload α] in
theorem exists_of_not_atRest (h : ¬ w.AtRest) : ∃ b, w.scheduler.binding = some b ∧
    ∃ x ∈ w.scheduler.threads.load, x.canAdvance b = true := by
  unfold AtRest at h
  push Not at h
  obtain ⟨b, hb, x, hx, hcan⟩ := h
  exact ⟨b, hb, x, hx, by simpa using hcan⟩

/-- What can advance, somebody goes on with. -/
theorem canGoOn (h : ¬ w.AtRest) : w.scheduler.CanGoOn := by
  obtain ⟨b, hb, x, hx, hcan⟩ := exists_of_not_atRest h
  exact Scheduler.canGoOn hx hb hcan

/-- **The runs of a graph come to an end.** -/
theorem Reachable.settles (h : w.Reachable k) {b : Binding α} (hb : w.scheduler.binding = some b) :
    w.Settles fun w' => w'.scheduler.isIdle = true := by
  obtain ⟨t, ts, hts, -⟩ := h.orderly.bound hb
  refine ⟨⟨t.effort k w.scheduler b, fun n w' hw' => ?_⟩, fun _ => canGoOn,
    fun {n w'} hw' hrest => ?_⟩
  · obtain ⟨b', more, -, -, hle⟩ := hw'.tenure h hb hts
    exact Nat.le_of_add_right_le hle
  · obtain ⟨b', more, hb', hts', -⟩ := hw'.tenure h hb hts
    have hrun := (hw'.reachable h).orderly.running hb' hts'
    obtain ⟨closed, launched, post, hsound, -⟩ := hrun.sound
    have hidle := hsound.idle_of_rest hrun.frozen (hrest b' hb')
    simp [Scheduler.isIdle, hb', Table.isIdle, hidle]

/-! ### Dismissal -/

/-- All pools of the bound graph are closed. -/
def Shut (w : World α) : Prop :=
  ∃ b, w.scheduler.binding = some b ∧ ∀ {c p}, b.graph.pool? c = some p → p.isClosed = true

/-- Pools that were closed stay so. -/
theorem Schedule.shut {n : Nat} (hw' : w.Schedule n w') (h : w.Reachable k) (hs : w.Shut) :
    w'.Shut := by
  induction hw' with
  | start => exact hs
  | @thread n w' i choice s hw' hstep ih =>
    obtain ⟨b, hb, hshut⟩ := ih
    have hreach := hw'.reachable h
    rcases Scheduler.step_eq_some hstep with
      ⟨c, c', -, -, -, rfl⟩ | ⟨x, b', hx, hb', hcan, rfl⟩
    · exact ⟨b, hb, hshut⟩
    obtain rfl := Option.some.inj (hb.symm.trans hb')
    obtain ⟨t, ts, hts, hrun, -⟩ := hreach.orderly.bound hb
    obtain ⟨hbuilt, hframe⟩ := hreach.framed hb hts
    obtain ⟨closed, launched, post, hsound, -⟩ := hrun.sound
    -- the first node has a pool, which tells that the invariant is that of closed pools
    have hlt : 0 < b.graph.stations.size := by
      rw [hframe.size, hbuilt.linked.size_stations]
      exact hrun.size
    have hpool : b.graph.pool? (.staging 0) = some b.graph.stations[0].staging := by
      simp [Graph.pool?, hlt]
    obtain rfl : closed = true := (hsound.laid.closed hpool).symm.trans (hshut hpool)
    obtain ⟨rest, hload, -⟩ := Threads.perm_put hx
    obtain ⟨launched', post', hsound'⟩ :=
      ((hsound.perm hload).turn hrun.frozen hrun.size hcan).sound
    refine ⟨_, rfl, fun {c p} hp => ?_⟩
    rw [hreach.orderly.strategy] at hp
    exact hsound'.laid.closed hp
  | notice _ hstep ih =>
    obtain ⟨c, c', -, -, rfl⟩ := Scheduler.stepNotice_eq_some hstep
    exact ih
  | use _ _ ih => exact ih

/-- When no run is in flight, dismissal closes the pools from which the threads of nodes
take their inputs. -/
theorem Reachable.shut_dismiss (h : w.Reachable .dedicated) {b : Binding α}
    (hb : w.scheduler.binding = some b) (hidle : w.scheduler.isIdle = true) :
    ({ w with scheduler := w.scheduler.dismiss } : World α).Shut := by
  have hidle' : b.table.isIdle = true := by simpa only [Scheduler.isIdle, hb] using hidle
  obtain ⟨t, ts, -, hrun, -⟩ := h.orderly.bound hb
  obtain ⟨closed, launched, post, hsound, -⟩ := hrun.sound
  have hlaid := (hsound.dismiss (by simpa [Table.isIdle] using hidle')).laid
  obtain ⟨xs, hth⟩ := Threads.exists_nodes h.orderly.strategy
  refine ⟨{ b with graph := b.graph.closePools }, ?_, hlaid.closed⟩
  simp only [Scheduler.dismiss, hth, hb, hidle', if_true]

/-- **Once they are dismissed, the threads of nodes end**, and workers have nothing left to do
for the graph. -/
theorem Reachable.settles_dismissed (h : w.Reachable k) (ho : w.owner ≠ .free) {b : Binding α}
    (hb : w.scheduler.binding = some b) (hidle : w.scheduler.isIdle = true) :
    ({ w with scheduler := w.scheduler.dismiss } : World α).Settles fun w' =>
      w'.scheduler.isReleased = true := by
  have h₀ := h.step (.dismiss ho)
  obtain ⟨b₀, hb₀⟩ : ∃ b₀, w.scheduler.dismiss.binding = some b₀ := by
    obtain ⟨t, ts, -, hrun, -⟩ := h.orderly.bound hb
    obtain ⟨-, -, b₀, hb₀, -⟩ := hrun.dismiss hb ho
    exact ⟨b₀, hb₀⟩
  have hsettles := h₀.settles hb₀
  refine { hsettles with atRest := fun {n w'} hw' hrest => ?_ }
  have hidle' := hsettles.atRest hw' hrest
  have hreach := hw'.reachable h₀
  unfold Scheduler.isReleased
  rw [hidle', Bool.true_and, List.all_eq_true]
  intro x hx
  replace hx := w'.scheduler.threads.executions_subset_load hx
  obtain ⟨t, ts, hts, -⟩ := h₀.orderly.bound hb₀
  obtain ⟨b', more, hb', hts', -⟩ := hw'.tenure h₀ hb₀ hts
  obtain ⟨closed, launched, post, hsound, -⟩ := (hreach.orderly.running hb' hts').sound
  have hcan := hrest b' hb' x hx
  obtain ⟨rfl, ⟨run, taken, c, cs, hst, -⟩ | ⟨hst, -⟩⟩ := hsound.waits hx hcan
  · -- nobody waits for an entry from a closed pool
    obtain ⟨b₁, hb₁, hshut⟩ := hw'.shut h₀ (h.shut_dismiss hb hidle)
    obtain rfl := Option.some.inj (hb₁.symm.trans hb')
    simp only [Execution.canAdvance, hst] at hcan
    cases hp : b₁.graph.pool? c with
    | none => simp [hp] at hcan
    | some p => simp [hp, Pool.popWaits, hshut hp] at hcan
  · simp only [Execution.hasEnded, hst]

end World

end Dataflow
