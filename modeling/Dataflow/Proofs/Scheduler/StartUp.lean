import Dataflow.Proofs.Scheduler.Settling

/-!
# When a thread cannot be started

The threads of nodes are started one after another (`Scheduler.bind_eq_startUp`). When one of
them cannot be, the graph is not bound, and those that were started are dismissed. No run was
submitted, so all they ever find is an inlet that is empty and closed. When they have ended,
the scheduler is as it was before (`World.Reachable.breaksOff`).

This is about an attempt that comes back with an error. If it ends in a panic because of the
name of a thread, nobody dismisses those that were started, and they wait for good
(`Scheduler.bind_panics`). The state of a scheduler does not carry them.
-/

namespace Dataflow

variable {α : Type}

/-- A scheduler that is about to bind a graph, and has started so many threads of nodes. -/
def Scheduler.startUp (s : Scheduler α) (b : Binding α) (n : Nat) : Scheduler α :=
  { s with binding := some b, threads := .nodes ((Array.range n).map (.await b.graph)) }

/-- A graph is bound when all threads have been started. -/
theorem Scheduler.bind_eq_startUp {s s' : Scheduler α} {xs : Array (Execution α)} {g : Graph α}
    (hs : s.threads = .nodes xs) (h : s.bind g = .ok s') :
    ∃ b, Binding.new g s.settings.pipelineDepth s.settings.backlogCapacity = .ok b ∧
      s' = s.startUp b b.graph.size := by
  unfold bind at h
  rw [hs] at h
  split at h
  · cases h
  split at h
  · cases h
  split at h
  · cases h
  · next b hb =>
    dsimp only at h
    split at h
    · cases h
    · obtain rfl := Except.ok.inj h
      exact ⟨b, hb, rfl⟩

/-- Nobody finds an entry in a graph that was just bound. -/
theorem Binding.exists_inlet [Payload α] {g : Graph α} (hg : g.Built)
    {depth backlogCapacity : Nat} {b : Binding α}
    (h : Binding.new g depth backlogCapacity = .ok b) {v : NodeId} (hv : v < b.graph.size) :
    ∃ c cs p, b.graph.inlets v = c :: cs ∧ b.graph.pool? c = some p ∧ p.entries = [] ∧
      p.isClosed = false := by
  obtain ⟨hfrozen, -, -, -, -, -, hsound⟩ := Sound.bind hg.linked h .dedicated
  obtain ⟨⟨order, levels, hprepare⟩, -, -⟩ := Binding.new_eq_ok h
  obtain ⟨c, cs, hin⟩ := List.exists_cons_of_ne_nil (b.graph.inlets_ne_nil v)
  have hmem : c ∈ b.graph.inlets v := hin ▸ List.mem_cons_self ..
  obtain ⟨p, hp, -⟩ := hsound.laid.exists_pool ((hfrozen.mem_inlets hv).mp hmem).1
  refine ⟨c, cs, p, hin, hp, ?_, hsound.laid.closed hp⟩
  rw [← Graph.entriesAt_of_pool hp, hprepare]
  exact hg.linked.entriesAt_prepare depth order levels c

/-- No thread that was started can go on before it is dismissed. -/
theorem Scheduler.canAdvance_startUp [Payload α] {s : Scheduler α} {g : Graph α} (hg : g.Built)
    {depth backlogCapacity n : Nat} {b : Binding α}
    (h : Binding.new g depth backlogCapacity = .ok b) (hn : n ≤ b.graph.size) :
    ∀ x ∈ (s.startUp b n).threads.load, x.canAdvance b = false := by
  intro x hx
  obtain ⟨v, hv, rfl⟩ := Array.mem_map.mp (Array.mem_toList_iff.mp hx)
  obtain ⟨c, cs, p, hin, hp, hnil, hopen⟩ :=
    Binding.exists_inlet hg h (Nat.lt_of_lt_of_le (Array.mem_range.mp hv) hn)
  simp [Execution.canAdvance, Execution.await, hin, hp, Pool.popWaits_of_nil hnil, hopen]

/-- **A start-up that ends in a panic** has started the threads of the nodes before the first
whose thread cannot have its name, and none of them can go on. -/
theorem Scheduler.bind_panics [Payload α] {s : Scheduler α} {xs : Array (Execution α)}
    {g : Graph α} {p : Panic} (hs : s.threads = .nodes xs) (hg : g.Built)
    (h : s.bind g = .error (.panic p)) : ∃ b before v after,
      Binding.new g s.settings.pipelineDepth s.settings.backlogCapacity = .ok b ∧
      g.nodes.toList = before ++ v :: after ∧
      (∀ u ∈ before, ThreadName.panic? (s.settings.nodeThreadName u.name) = none) ∧
      ThreadName.panic? (s.settings.nodeThreadName v.name) = some p ∧
      ∀ x ∈ (s.startUp b before.length).threads.load, x.canAdvance b = false := by
  unfold bind at h
  rw [hs] at h
  split at h
  · cases h
  split at h
  · cases h
  split at h
  · cases h
  next b hb =>
  dsimp only at h
  split at h
  swap
  · cases h
  next p' hp =>
  obtain rfl : p' = p := Failure.panic.inj (Except.error.inj h)
  obtain ⟨before, v, after, hnodes, hv, hbefore⟩ := List.findSome?_eq_some_iff.mp hp
  refine ⟨b, before, v, after, hb, hnodes, hbefore, hv, canAdvance_startUp hg hb ?_⟩
  obtain ⟨⟨order, levels, hprepare⟩, -, -⟩ := Binding.new_eq_ok hb
  have hsize : b.graph.size = g.nodes.toList.length := by
    rw [hprepare]
    exact Array.length_toList.symm
  rw [hsize, hnodes, List.length_append]
  exact Nat.le_add_right ..

namespace Execution

/-- **The thread has been dismissed**: it has ended, or finds its first inlet empty and
closed. -/
def Dismissed (b : Binding α) (x : Execution α) : Prop :=
  x.stage = .stopped ∨ ∃ c cs p, x.stage = .awaiting none [] (c :: cs) ∧
    b.graph.pool? c = some p ∧ p.entries = [] ∧ p.isClosed = true

variable {b : Binding α} {x : Execution α}

/-- A thread that was dismissed can go on until it has ended. -/
theorem Dismissed.ended (h : x.Dismissed b) (hcan : x.canAdvance b = false) :
    x.hasEnded = true := by
  rcases h with hst | ⟨c, cs, p, hst, hp, hnil, hclosed⟩
  · simp only [hasEnded, hst]
  · simp [canAdvance, hst, hp, Pool.popWaits_of_nil hnil, hclosed] at hcan

theorem Dismissed.advance [Payload α] (h : x.Dismissed b) (hcan : x.canAdvance b = true) :
    x.hasEnded = false ∧ x.advance .dedicated b = { binding := b, stage := .stopped } := by
  rcases h with hst | ⟨c, cs, p, hst, hp, hnil, hclosed⟩
  · simp [canAdvance, hst] at hcan
  · refine ⟨by simp only [hasEnded, hst], ?_⟩
    simp only [Execution.advance, hst, awaitOne, hp, Pool.pop_of_nil hnil, hclosed, if_true]

end Execution

namespace World

variable [Payload α] {w w' : World α} {s : Scheduler α} {b : Binding α} {n bound : Nat}

/-- **What is left of the start-up** after so many operations, of which there are no more
than the bound says. -/
structure Leftover (s : Scheduler α) (b : Binding α) (bound n : Nat) (w : World α) : Prop where
  settings : w.scheduler.settings = s.settings
  isShutDown : w.scheduler.isShutDown = s.isShutDown
  binding : w.scheduler.binding = some b
  strategy : w.scheduler.threads.strategy = .dedicated
  dismissed : ∀ x ∈ w.scheduler.threads.load, x.Dismissed b
  count : n + w.scheduler.threads.load.countP (!·.hasEnded) ≤ bound

/-- Every operation of a schedule ends one more thread. -/
theorem Schedule.leftover (hw' : w.Schedule n w') (h : w.Leftover s b bound 0) :
    w'.Leftover s b bound n := by
  induction hw' with
  | start => exact h
  | @thread n w' i choice s₁ _ hstep ih =>
    rcases Scheduler.step_eq_some hstep with ⟨c, c', hc, -⟩ | ⟨x, b', hx, hb', hcan, rfl⟩
    · have hk := ih.strategy
      rw [hc] at hk
      cases hk
    obtain rfl := Option.some.inj (ih.binding.symm.trans hb')
    obtain ⟨rest, hload, hput⟩ := Threads.perm_put hx
    have hx' := ih.dismissed x (hload.mem_iff.mpr (List.mem_cons_self ..))
    obtain ⟨hended, ha⟩ := hx'.advance hcan
    rw [ih.strategy, ha, hx]
    -- the thread has ended, and the others are where they were
    have hafter := hput b.graph [] .stopped fun _ => rfl
    rw [ih.strategy] at hafter
    have hcount := ih.count
    rw [hload.countP_eq, List.countP_cons, hended] at hcount
    constructor
    · exact ih.settings
    · exact ih.isShutDown
    · rfl
    · exact (Threads.strategy_put ..).trans ih.strategy
    · intro y hy
      rcases List.mem_cons.mp (hafter.mem_iff.mp hy) with rfl | hy
      · exact Or.inl rfl
      · exact ih.dismissed y (hload.mem_iff.mpr (List.mem_cons_of_mem _ hy))
    · have hleft : (w'.scheduler.threads.put i b.graph x [] .stopped).load.countP
          (!·.hasEnded) = rest.countP (!·.hasEnded) := by
        rw [hafter.countP_eq]
        rfl
      rw [Option.isSome_some, if_pos rfl]
      show n + 1 + (w'.scheduler.threads.put i b.graph x [] .stopped).load.countP _ ≤ bound
      simp only [hleft]
      simpa [Nat.add_assoc, Nat.add_comm 1] using hcount
  | notice _ hstep ih =>
    obtain ⟨c, c', hc, -⟩ := Scheduler.stepNotice_eq_some hstep
    have hk := ih.strategy
    rw [hc] at hk
    cases hk
  | use _ _ ih => exact { ih with }

/-- **A start-up that is broken off** after so many threads leaves the scheduler as it was. -/
structure BreaksOff (w : World α) (b : Binding α) (n : Nat) : Prop where
  /-- No thread that was started can go on before it is dismissed. -/
  waiting : ∀ x ∈ (w.scheduler.startUp b n).threads.load, x.canAdvance b = false
  /-- So there is no run to wait for. -/
  idle : (w.scheduler.startUp b n).isIdle = true
  /-- In the end all threads have ended. Only holders of futures may have gone on in the
  meantime. -/
  settles : ({ w with
    scheduler := (w.scheduler.startUp b n).dismiss
    owner := .leaving } : World α).Settles fun w' => ∃ g', w'.scheduler.unbind =
      some (.ok (g', { w.scheduler with futures := w'.scheduler.futures }))

theorem Reachable.breaksOff (h : w.Reachable .dedicated) (hnone : w.scheduler.binding = none)
    {g : Graph α} (hg : g.Built)
    (hb : Binding.new g w.scheduler.settings.pipelineDepth w.scheduler.settings.backlogCapacity =
      .ok b) (hn : n ≤ b.graph.size) : w.BreaksOff b n := by
  obtain ⟨-, -, inDegrees, sinkCount, htable⟩ := Binding.new_eq_ok hb
  have hidle : b.table.isIdle = true := by rw [htable]; rfl
  have hthreads : w.scheduler.threads = .nodes #[] := by
    obtain ⟨xs, hxs⟩ := Threads.exists_nodes h.orderly.strategy
    have hload := (h.orderly.unbound hnone).1
    rw [hxs] at hload ⊢
    exact congrArg Threads.nodes (Array.toList_eq_nil_iff.mp hload)
  have hload : ∀ x ∈ (w.scheduler.startUp b n).threads.load, ∃ v < b.graph.size,
      x = .await b.graph v := by
    intro x hx
    obtain ⟨v, hv, rfl⟩ := Array.mem_map.mp (Array.mem_toList_iff.mp hx)
    exact ⟨v, Nat.lt_of_lt_of_le (Array.mem_range.mp hv) hn, rfl⟩
  let b' : Binding α := { b with graph := b.graph.closePools }
  have hdismiss : (w.scheduler.startUp b n).dismiss =
      { w.scheduler.startUp b n with binding := some b' } := by
    simp only [Scheduler.dismiss, Scheduler.startUp, hidle, if_true, b']
  refine ⟨Scheduler.canAdvance_startUp hg hb hn, hidle, ?_⟩
  rw [hdismiss]
  have hstart : ({ w with
      scheduler := { w.scheduler.startUp b n with binding := some b' }
      owner := .leaving } : World α).Leftover w.scheduler b'
        ((w.scheduler.startUp b n).threads.load.countP (!·.hasEnded)) 0 := by
    refine ⟨rfl, rfl, rfl, rfl, fun x hx => ?_, by rw [Nat.zero_add]⟩
    obtain ⟨v, hv, rfl⟩ := hload x hx
    obtain ⟨c, cs, p, hin, hp, hnil, -⟩ := Binding.exists_inlet hg hb hv
    refine Or.inr ⟨c, cs, p.close, ?_, ?_, hnil, rfl⟩
    · rw [Execution.await, hin]
    · show b.graph.closePools.pool? c = _
      rw [Graph.pool?_closePools, hp]
      rfl
  refine ⟨⟨(w.scheduler.startUp b n).threads.load.countP (!·.hasEnded), fun m w' hw' =>
    Nat.le_of_add_right_le (hw'.leftover hstart).count⟩, fun _ => canGoOn,
    fun {m w'} hw' hrest => ?_⟩
  have hleft := hw'.leftover hstart
  have hreleased : w'.scheduler.isReleased = true := by
    simp only [Scheduler.isReleased, Scheduler.isIdle, hleft.binding, Bool.and_eq_true,
      List.all_eq_true]
    refine ⟨hidle, fun x hx => ?_⟩
    replace hx := Threads.executions_subset_load _ hx
    exact (hleft.dismissed x hx).ended (hrest b' hleft.binding x hx)
  obtain ⟨xs, hxs⟩ := Threads.exists_nodes hleft.strategy
  refine ⟨b'.graph.thaw, ?_⟩
  unfold Scheduler.unbind
  rw [hleft.binding]
  refine (if_pos hreleased).trans (congrArg (fun s => some (Except.ok (b'.graph.thaw, s))) ?_)
  rw [hxs]
  exact (Scheduler.mk.injEq ..).mpr
    ⟨hleft.settings, hthreads.symm, hnone.symm, rfl, hleft.isShutDown⟩

end World

end Dataflow
