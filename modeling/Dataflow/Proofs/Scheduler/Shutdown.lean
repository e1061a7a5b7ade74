import Dataflow.Proofs.Scheduler.Reachable

/-!
# What a shutdown leaves

A scheduler that was shut down stays so (`World.Step.isShutDown`). No call for a run or for
the binding of a graph succeeds any more, a further shutdown comes back at once, and no
thread goes on, because all of them have ended (`World.Reachable.ended_of_shutDown`).

Nothing but a shutdown cancels runs (`World.Reachable.cancelled_eq_nil`), and every cell was
made for a run that was accepted (`World.Reachable.exists_ticket`).
-/

namespace Dataflow

variable {α : Type}

namespace Threads

/-- Workers are told to end. The threads of nodes were dismissed before. -/
def stop : Threads α → Threads α
  | crew c => crew c.stop
  | nodes xs => nodes xs

/-- The threads of nodes go with their graph, and workers stay. -/
def release : Threads α → Threads α
  | crew c => crew c
  | nodes _ => nodes #[]

theorem load_stop (ts : Threads α) : ts.stop.load = ts.load := by
  cases ts with
  | crew c => exact c.load_stop
  | nodes xs => rfl

theorem load_release_subset (ts : Threads α) : ts.release.load ⊆ ts.load := by
  cases ts with
  | crew c => exact List.Subset.refl _
  | nodes xs => exact List.nil_subset _

end Threads

namespace Scheduler

variable {s s' : Scheduler α}

theorem new_eq_ok {k : Strategy} {settings : Settings} {processors : Nat}
    (h : Scheduler.new k settings processors = .ok s) :
    s.futures = {} ∧ s.isShutDown = false := by
  unfold Scheduler.new at h
  split at h
  · cases h
  · split at h
    · obtain rfl := Except.ok.inj h
      exact ⟨rfl, rfl⟩
    · simp only at h
      split at h
      · cases h
      · obtain rfl := Except.ok.inj h
        exact ⟨rfl, rfl⟩

/-! ### Calls after a shutdown -/

theorem run_of_shutDown (h : s.isShutDown = true) (inputs : List (NodeId × α)) :
    s.run inputs = .refused (.scheduling .shutDown) := by
  rw [run, if_pos h]

theorem bind_of_shutDown (h : s.isShutDown = true) (g : Graph α) :
    s.bind g = .error (.error (.scheduling .shutDown)) := by
  rw [bind, if_pos h]

theorem beginShutDown_of_shutDown (h : s.isShutDown = true) : s.beginShutDown = s := by
  rw [beginShutDown, if_pos h]

theorem finishShutDown_of_shutDown (h : s.isShutDown = true) : s.finishShutDown = some s := by
  rw [finishShutDown, if_pos h]

/-! ### What a call leaves alone -/

theorem dismiss_eq (s : Scheduler α) : s.dismiss = { s with binding := s.dismiss.binding } := by
  unfold dismiss
  split
  · split <;> rfl
  · rfl

theorem beginShutDown_eq (s : Scheduler α) : s.beginShutDown = { s with
    binding := s.beginShutDown.binding
    futures := s.beginShutDown.futures } := by
  unfold beginShutDown
  split
  · rfl
  · split <;> rfl

/-- **Giving a graph back**: nobody uses it any more, and only the threads of its nodes go
with it. -/
theorem unbind_eq_ok {g : Graph α} (h : s.unbind = some (.ok (g, s'))) :
    s.isReleased = true ∧ s' = { s with binding := none, threads := s.threads.release } ∧
      ∃ b, s.binding = some b ∧ g = b.graph.thaw := by
  unfold unbind at h
  split at h
  · cases h
  next b hb =>
  split at h
  swap
  · cases h
  next hr =>
  obtain ⟨rfl, rfl⟩ := Prod.mk.inj (Except.ok.inj (Option.some.inj h))
  refine ⟨hr, ?_, b, hb, rfl⟩
  cases s.threads <;> rfl

/-- **A shutdown is complete**: it was before, or nobody uses the graph any more. -/
theorem finishShutDown_eq_some (h : s.finishShutDown = some s') :
    s.isShutDown = true ∧ s' = s ∨
      s.isReleased = true ∧ s' = { s with isShutDown := true, threads := s.threads.stop } := by
  unfold finishShutDown at h
  split at h
  · next hs => exact Or.inl ⟨hs, (Option.some.inj h).symm⟩
  · split at h
    · cases h
    · next hr =>
      obtain rfl := Option.some.inj h
      refine Or.inr ⟨by simpa using hr, ?_⟩
      cases s.threads <;> rfl

/-- A graph is bound to a scheduler that was not shut down. -/
theorem isShutDown_bind {g : Graph α} (h : s.bind g = .ok s') :
    s.isShutDown = false ∧ s'.isShutDown = false := by
  unfold bind at h
  split at h
  · cases h
  next hs =>
  replace hs : s.isShutDown = false := by simpa using hs
  split at h
  · cases h
  split at h
  · cases h
  split at h
  · obtain rfl := Except.ok.inj h
    exact ⟨hs, hs⟩
  · split at h
    · cases h
    · obtain rfl := Except.ok.inj h
      exact ⟨hs, hs⟩

/-- **A run is accepted**: the threads are told about it, and its future gets a cell. -/
theorem run_eq_accepted {inputs : List (NodeId × α)} {run : ObjectId} {cell : CellId}
    (h : s.run inputs = .accepted s' run cell) : s.isShutDown = false ∧
      cell = s.futures.nextCell ∧ ∃ b b' tasks, s.binding = some b ∧
        b.submit inputs s.futures.nextCell = .accepted b' run tasks ∧ s' = { s with
          binding := some b'
          threads := s.threads.inject tasks
          futures := s.futures.extend } := by
  unfold Scheduler.run at h
  split at h
  · cases h
  next hs =>
  split at h
  · cases h
  next b hb =>
  simp only at h
  split at h
  · cases h
  · cases h
  next b' run' tasks hsub =>
  obtain ⟨rfl, rfl, rfl⟩ := RunAnswer.accepted.inj h
  exact ⟨by simpa using hs, rfl, b, b', tasks, hb, hsub, rfl⟩

theorem isShutDown_of_broken {inputs : List (NodeId × α)} {fault : Fault}
    (h : s.run inputs = .broken s' fault) : s'.isShutDown = s.isShutDown := by
  unfold Scheduler.run at h
  split at h
  · cases h
  split at h
  · cases h
  simp only at h
  split at h
  · cases h
  · obtain ⟨rfl, -⟩ := RunAnswer.broken.inj h
    rfl
  · cases h

end Scheduler

namespace World

variable [Payload α] {k : Strategy} {w w' : World α}

/-- Only the end of a shutdown changes whether a scheduler was shut down. -/
theorem Step.isShutDown_eq (h : w.Step w') :
    w'.scheduler.isShutDown = w.scheduler.isShutDown ∨
      w'.scheduler.isShutDown = true ∧ w'.owner = .free := by
  cases h with
  | thread h =>
    rcases Scheduler.step_eq_some h with ⟨c, c', -, -, -, rfl⟩ | ⟨x, b, -, -, -, rfl⟩
    · exact Or.inl rfl
    · exact Or.inl rfl
  | notice h =>
    obtain ⟨c, c', -, -, rfl⟩ := Scheduler.stepNotice_eq_some h
    exact Or.inl rfl
  | bind ho hg h hb =>
    obtain ⟨hs, hs'⟩ := Scheduler.isShutDown_bind h
    exact Or.inl (hs'.trans hs.symm)
  | accept ho hb hi h =>
    obtain ⟨-, -, b, b', tasks, -, -, rfl⟩ := Scheduler.run_eq_accepted h
    exact Or.inl rfl
  | burst ho h => exact Or.inl (Scheduler.isShutDown_of_broken h)
  | use h => exact Or.inl rfl
  | leave ho hb => exact Or.inl rfl
  | dismiss ho =>
    rw [Scheduler.dismiss_eq]
    exact Or.inl rfl
  | unbind ho h =>
    obtain ⟨-, rfl, -⟩ := Scheduler.unbind_eq_ok h
    exact Or.inl rfl
  | beginShutDown ho hs =>
    simp only [record]
    rw [Scheduler.beginShutDown_eq]
    exact Or.inl rfl
  | finishShutDown ho h =>
    obtain ⟨-, rfl⟩ | ⟨-, rfl⟩ := Scheduler.finishShutDown_eq_some h
    · exact Or.inl rfl
    · exact Or.inr ⟨rfl, rfl⟩

/-- **Whoever was shut down stays so.** -/
theorem Step.isShutDown (h : w.Step w') (hs : w.scheduler.isShutDown = true) :
    w'.scheduler.isShutDown = true := by
  rcases h.isShutDown_eq with he | ⟨he, -⟩
  · rw [he, hs]
  · exact he

/-- A shutdown begins only where there was none. -/
theorem Step.closing (h : w.Step w') (ho : w'.owner = .closing) :
    w.owner = .closing ∨ w.scheduler.isShutDown = false := by
  cases h with
  | leave hfree hb => cases ho
  | unbind hleave h => cases ho
  | beginShutDown hfree hs => exact Or.inr hs
  | finishShutDown hclose h => cases ho
  | _ => exact Or.inl ho

/-- As long as a shutdown goes on, the scheduler was not shut down. -/
theorem Reachable.isShutDown_of_closing (h : w.Reachable k) (ho : w.owner = .closing) :
    w.scheduler.isShutDown = false := by
  induction h with
  | start h => cases ho
  | @step w w' hw hstep ih =>
    rcases hstep.isShutDown_eq with he | ⟨-, hfree⟩
    · rw [he]
      exact (hstep.closing ho).elim ih id
    · rw [ho] at hfree
      cases hfree

/-! ### Threads after a shutdown -/

/-- When nobody uses the graph any more, all threads have ended. -/
theorem Orderly.ended_of_released (h : w.Orderly k) (hr : w.scheduler.isReleased = true) :
    ∀ x ∈ w.scheduler.threads.load, x.hasEnded = true := by
  intro x hx
  cases hth : w.scheduler.threads with
  | crew c =>
    -- workers have nothing to do, whether a graph is bound or not
    have hk : k = .stealing := by
      rw [← h.strategy, hth]
      rfl
    have hnil : w.scheduler.threads.load = [] := by
      cases hb : w.scheduler.binding with
      | none => exact (h.unbound hb).1
      | some b =>
        obtain ⟨t, ts, -, hrun, -⟩ := h.bound hb
        exact (hrun.ended h.strategy hb hr).2 hk
    rw [hnil] at hx
    cases hx
  | nodes xs =>
    simp only [Scheduler.isReleased, hth, Bool.and_eq_true, List.all_eq_true] at hr
    rw [hth] at hx
    exact hr.2 x hx

omit [Payload α] in
theorem not_canAdvance_of_ended {x : Execution α} {b : Binding α} (h : x.hasEnded = true) :
    x.canAdvance b = false := by
  cases hst : x.stage <;> simp_all [Execution.hasEnded, Execution.canAdvance]

/-- **After a shutdown all threads have ended**, and nothing is left for any. -/
theorem Reachable.ended_of_shutDown (h : w.Reachable k)
    (hs : w.scheduler.isShutDown = true) : ∀ x ∈ w.scheduler.threads.load, x.hasEnded = true := by
  induction h with
  | start h =>
    rw [(Scheduler.new_eq_ok h).2] at hs
    cases hs
  | @step w w' hw hstep ih =>
    cases hstep with
    | @thread i choice s h =>
      rcases Scheduler.step_eq_some h with ⟨c, c', hc, -, hc', rfl⟩ | ⟨x, b, hx, -, hcan, rfl⟩
      · intro y hy
        refine ih hs y ?_
        rw [hc]
        exact (Crew.perm_advance hc').mem_iff.mp hy
      · -- whoever has ended does not go on
        obtain ⟨rest, hload, -⟩ := Threads.perm_put hx
        have := not_canAdvance_of_ended (b := b)
          (ih hs x (hload.mem_iff.mpr (List.mem_cons_self ..)))
        rw [hcan] at this
        cases this
    | notice h =>
      obtain ⟨c, c', hc, hperm, rfl⟩ := Scheduler.stepNotice_eq_some h
      intro y hy
      refine ih hs y ?_
      rw [hc]
      exact hperm.mem_iff.mp hy
    | bind ho hg h hb =>
      rw [(Scheduler.isShutDown_bind h).2] at hs
      cases hs
    | accept ho hb hi h =>
      obtain ⟨hno, -, b, b', tasks, -, -, rfl⟩ := Scheduler.run_eq_accepted h
      rw [show w.scheduler.isShutDown = true from hs] at hno
      cases hno
    | burst ho h => exact absurd h (hw.orderly.not_burst ho _ _)
    | use h => exact ih hs
    | leave ho hb => exact ih hs
    | dismiss ho =>
      rw [Scheduler.dismiss_eq] at hs ⊢
      exact ih hs
    | unbind ho h =>
      obtain ⟨-, rfl, -⟩ := Scheduler.unbind_eq_ok h
      exact fun y hy => ih hs y (Threads.load_release_subset _ hy)
    | beginShutDown ho hno =>
      simp only [record] at hs
      rw [Scheduler.beginShutDown_eq] at hs
      rw [show w.scheduler.isShutDown = true from hs] at hno
      cases hno
    | finishShutDown ho h =>
      obtain ⟨hs', rfl⟩ | ⟨hr, rfl⟩ := Scheduler.finishShutDown_eq_some h
      · exact ih hs'
      · intro y hy
        replace hy : y ∈ w.scheduler.threads.stop.load := hy
        rw [Threads.load_stop] at hy
        exact hw.orderly.ended_of_released hr y hy

/-! ### Runs before a shutdown -/

omit [Payload α] in
/-- What is added to the record of the last tenure cancels nothing, unless it says so. -/
theorem cancelled_record {s : Scheduler α} {f : Tenure α → Tenure α}
    (hf : ∀ t, (f t).cancelled = t.cancelled) (h : ∀ t ∈ w.tenures, t.cancelled = []) :
    ∀ t ∈ (w.record s f).tenures, t.cancelled = [] := by
  show ∀ t ∈ w.tenures.modifyHead f, t.cancelled = []
  cases hts : w.tenures with
  | nil => exact nofun
  | cons t' ts =>
    rw [hts] at h
    intro t ht
    rcases List.mem_cons.mp ht with rfl | ht
    · rw [hf]
      exact h t' (List.mem_cons_self ..)
    · exact h t (List.mem_cons_of_mem _ ht)

/-- **Nothing but a shutdown cancels runs.** -/
theorem Reachable.cancelled_eq_nil (h : w.Reachable k) (hs : w.scheduler.isShutDown = false)
    (ho : w.owner ≠ .closing) : ∀ t ∈ w.tenures, t.cancelled = [] := by
  induction h with
  | start h => nofun
  | @step w w' hw hstep ih =>
    have hbefore : w.scheduler.isShutDown = false := by
      cases hno : w.scheduler.isShutDown with
      | false => rfl
      | true =>
        rw [hstep.isShutDown hno] at hs
        cases hs
    cases hstep with
    | thread h => exact cancelled_record (fun _ => rfl) (ih hbefore ho)
    | notice h => exact ih hbefore ho
    | bind hfree hg h hb =>
      intro t ht
      rcases List.mem_cons.mp ht with rfl | ht
      · rfl
      · exact ih hbefore ho t ht
    | accept hfree hb hi h => exact cancelled_record (fun _ => rfl) (ih hbefore ho)
    | burst hfree h => exact ih hbefore ho
    | use h => exact ih hbefore ho
    | leave hfree hb => exact ih hbefore (by simp [hfree])
    | dismiss hbusy => exact ih hbefore ho
    | unbind hleave h => exact ih hbefore (by simp [hleave])
    | beginShutDown hfree hno => exact absurd rfl ho
    | finishShutDown hclose h =>
      obtain ⟨hs', -⟩ | ⟨-, rfl⟩ := Scheduler.finishShutDown_eq_some h
      · rw [hbefore] at hs'
        cases hs'
      · cases hs

omit [Payload α] in
/-- What is added to the record of the last tenure leaves the runs on record. -/
theorem exists_ticket_record {s : Scheduler α} {f : Tenure α → Tenure α}
    (hf : ∀ t, t.tickets ⊆ (f t).tickets) {id : CellId}
    (h : ∃ t ∈ w.tenures, ∃ a ∈ t.tickets, a.cell = id) :
    ∃ t ∈ (w.record s f).tenures, ∃ a ∈ t.tickets, a.cell = id := by
  obtain ⟨t, ht, a, ha, hid⟩ := h
  show ∃ t ∈ w.tenures.modifyHead f, _
  cases hts : w.tenures with
  | nil =>
    rw [hts] at ht
    cases ht
  | cons t' ts =>
    rw [hts] at ht
    rcases List.mem_cons.mp ht with rfl | ht
    · exact ⟨f t, List.mem_cons_self .., a, hf t ha, hid⟩
    · exact ⟨t, List.mem_cons_of_mem _ ht, a, ha, hid⟩

/-- **Every cell was made for a run that was accepted.** -/
theorem Reachable.exists_ticket (h : w.Reachable k) {id : CellId}
    (hid : id < w.scheduler.futures.cells.size) :
    ∃ t ∈ w.tenures, ∃ a ∈ t.tickets, a.cell = id := by
  induction h with
  | start h =>
    rw [(Scheduler.new_eq_ok h).1] at hid
    cases hid
  | @step w w' hw hstep ih =>
    have horderly := hw.orderly
    cases hstep with
    | thread h =>
      refine exists_ticket_record ?_ (ih ?_)
      · exact fun t => List.Subset.refl _
      rcases Scheduler.step_eq_some h with ⟨c, c', -, -, -, rfl⟩ | ⟨x, b, hx, hb, hcan, hs'⟩
      · exact hid
      · obtain ⟨t, ts, -, hrun, -⟩ := horderly.bound hb
        exact (hrun.advance horderly.strategy hx hcan hs').1 ▸ hid
    | notice h =>
      obtain ⟨c, c', -, -, rfl⟩ := Scheduler.stepNotice_eq_some h
      exact ih hid
    | bind ho hg h hb =>
      obtain ⟨-, -, hf, -⟩ := Scheduler.bind_eq_ok h hb
      obtain ⟨t, ht, hticket⟩ := ih (hf ▸ hid)
      exact ⟨t, List.mem_cons_of_mem _ ht, hticket⟩
    | @accept inputs b staged s run cell ho hb hi h =>
      obtain ⟨-, hcell, b', b₁, tasks, -, -, rfl⟩ := Scheduler.run_eq_accepted h
      rcases Nat.lt_or_eq_of_le (Nat.le_of_lt_succ (show id < _ + 1 by
        simpa [record, Futures.extend] using hid)) with hlt | rfl
      · exact exists_ticket_record (fun t => List.subset_append_left ..) (ih hlt)
      · -- the new cell is that of the new run
        obtain ⟨t, ts, hts, -⟩ := horderly.bound hb
        refine ⟨{ t with tickets := t.tickets ++ [⟨run, staged, cell⟩] },
          by simp only [record, hts, List.modifyHead_cons, List.mem_cons_self], _,
          List.mem_append_right _ (List.mem_singleton_self _), hcell⟩
    | burst ho h => exact absurd h (horderly.not_burst ho _ _)
    | use h => exact ih (by simpa only [Futures.size_setCell] using hid)
    | leave ho hb => exact ih hid
    | dismiss ho =>
      rw [Scheduler.dismiss_eq] at hid
      exact ih hid
    | unbind ho h =>
      obtain ⟨-, rfl, -⟩ := Scheduler.unbind_eq_ok h
      exact ih hid
    | beginShutDown ho hs =>
      refine exists_ticket_record (s := w.scheduler.beginShutDown) ?_ (ih ?_)
      · exact fun t => List.Subset.refl _
      cases hb : w.scheduler.binding with
      | none => simpa [record, Scheduler.beginShutDown, hs, hb] using hid
      | some b =>
        obtain ⟨t, ts, -, hrun, -⟩ := horderly.bound hb
        exact (hrun.close hb hs).2.2.1 ▸ hid
    | finishShutDown ho h =>
      obtain ⟨-, rfl⟩ | ⟨-, rfl⟩ := Scheduler.finishShutDown_eq_some h
      · exact ih hid
      · exact ih hid

end World

end Dataflow
