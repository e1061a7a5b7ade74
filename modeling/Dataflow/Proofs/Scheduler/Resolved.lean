import Dataflow.Proofs.Scheduler.Foresight
import Dataflow.Proofs.Scheduler.Once
import Dataflow.Proofs.Scheduler.Schedules

/-!
# Every accepted run is resolved once

Whatever the owner calls, and however the threads go on meanwhile, the cell of an accepted
run is resolved once: with the outcome of the run, or because it still waited when a shutdown
closed the table (`Course.Accounted`). By the time a graph is given back, or a shutdown is
complete, this has come about for all runs of the graph.

All of it is read off the world ahead, where the runs that waited are cancelled already
(`Course.Foresees`), and off the log of attempts.
-/

namespace Dataflow

variable {α : Type}

namespace Course

/-- Somebody has resolved the cell with the outcome. -/
def Resolves (c : Course α) (id : CellId) (o : RunOutcome α) : Prop :=
  ∃ r ∈ c.log, r.cell = id ∧ r.outcome = o

/-- **The cell was resolved, and once only.** -/
def Resolved (c : Course α) (id : CellId) : Prop :=
  (c.log.map (·.cell)).count id = 1

variable [Payload α]

/-- **What goes on without further calls.** Threads and notifications go on, holders use
their futures, and the owner cancels the runs that are left to him. The number is that of the
operations of executions. -/
inductive Schedule (c : Course α) : Nat → Course α → Prop where
  | start : c.Schedule 0 c
  | thread {n : Nat} {c' : Course α} {i : Nat} {choice : Choice} {s : Scheduler α}
      (h : c.Schedule n c') (hs : c'.world.scheduler.step i choice = some s) :
      c.Schedule (if (c'.world.scheduler.threads.execution? i).isSome then n + 1 else n) { c' with
        world := c'.world.record s fun t =>
          { t with executed := t.executed ++ c'.world.scheduler.fired s i }
        log := c'.log ++ c'.world.scheduler.resolutions i }
  | notice {n : Nat} {c' : Course α} {j : Nat} {choice : Choice} {s : Scheduler α}
      (h : c.Schedule n c') (hs : c'.world.scheduler.stepNotice j choice = some s) :
      c.Schedule n { c' with world := { c'.world with scheduler := s } }
  | use {n : Nat} {c' : Course α} {cell : CellId} {got : Option (RunOutcome α)} {x : Cell α}
      (h : c.Schedule n c') (hx : (c'.world.scheduler.futures.cell cell).Used got x) :
      c.Schedule n { c' with world := { c'.world with
        scheduler := { c'.world.scheduler with
          futures := c'.world.scheduler.futures.setCell cell x }
        taken := c'.world.taken ++ got.toList.map (cell, ·) } }
  | cancel {n : Nat} {c' : Course α} {id : CellId} {ids : List CellId}
      (h : c.Schedule n c') (hd : c'.owed = id :: ids) :
      c.Schedule n {
        world := c'.world.withFutures (c'.world.scheduler.futures.cancel [id])
        owed := ids
        log := c'.log ++ [c'.world.scheduler.futures.resolution id
          (.error (.scheduling .cancelled))] }

/-- **The account of all accepted runs.** -/
structure Accounted (c : Course α) : Prop where
  /-- No attempt to resolve a cell has failed, -/
  succeeded : ∀ r ∈ c.log, r.succeeded = true
  /-- none was made for a cell that had been resolved, -/
  once : (c.log.map (·.cell)).Nodup
  /-- and none for another cell than those of accepted runs. -/
  accepted : ∀ r ∈ c.log, ∃ t ∈ c.world.tenures, ∃ a ∈ t.tickets, a.cell = r.cell
  /-- What a cell was resolved with is what its future comes to. -/
  yields : ∀ id o, c.world.Yields id o ↔ c.Resolves id o
  /-- A run is cancelled if it waited when the table was closed, and no other is; -/
  cancelled : ∀ t ∈ c.world.tenures, ∀ a ∈ t.tickets, a.run ∈ t.cancelled ↔
    a.cell ∈ c.owed ∨ c.Resolves a.cell (.error (.scheduling .cancelled))
  /-- all others have their own result or error. -/
  answered : ∀ t ∈ c.world.tenures, ∀ a ∈ t.tickets, a.run ∉ t.cancelled →
    ∀ o, c.Resolves a.cell o → t.graph.Answers a.staged a.run o
  /-- No run is forgotten: it is resolved, or the owner has still to cancel it, or some thread
  can go on; -/
  pending : ∀ t ∈ c.world.tenures, ∀ a ∈ t.tickets,
    c.Resolved a.cell ∨ a.cell ∈ c.owed ∨ ¬ c.world.AtRest
  /-- and threads do not go on for ever. -/
  finite : ∃ bound, ∀ n c', c.Schedule n c' → n ≤ bound
  /-- Nothing but a shutdown cancels runs. -/
  spared : c.world.scheduler.isShutDown = false → c.world.owner ≠ .closing →
    ∀ t ∈ c.world.tenures, t.cancelled = []
  /-- When the owner gets a graph back, all its runs are resolved, and those that were not
  cancelled have been through all nodes. Giving it back resolves nothing. -/
  unbound : ∀ {g s}, c.world.owner = .leaving →
    c.world.scheduler.unbind = some (.ok (g, s)) →
    s.futures = c.world.scheduler.futures ∧ ∃ t ts, c.world.tenures = t :: ts ∧
      ∀ a ∈ t.tickets, c.Resolved a.cell ∧
        (a.run ∉ t.cancelled → ∀ v < t.graph.nodes.size, t.executed.count (v, a.run) = 1)
  /-- When a shutdown is complete, all runs are resolved. -/
  finished : ∀ {s}, c.world.owner = .closing → c.owed = [] →
    c.world.scheduler.finishShutDown = some s →
    s.isShutDown = true ∧ s.futures = c.world.scheduler.futures ∧
      ∀ t ∈ c.world.tenures, ∀ a ∈ t.tickets, c.Resolved a.cell
  /-- It is for ever, all calls for runs and for the binding of graphs are refused, and a
  further shutdown changes nothing. -/
  shutDown : c.world.scheduler.isShutDown = true →
    (∀ t ∈ c.world.tenures, ∀ a ∈ t.tickets, c.Resolved a.cell) ∧
    (∀ c', c.Step c' → c'.world.scheduler.isShutDown = true) ∧
    (∀ inputs, c.world.scheduler.run inputs = .refused (.scheduling .shutDown)) ∧
    (∀ g, c.world.scheduler.bind g = .error (.error (.scheduling .shutDown))) ∧
    c.world.scheduler.beginShutDown = c.world.scheduler ∧
    c.world.scheduler.finishShutDown = some c.world.scheduler

/-! ### Read off the world ahead -/

namespace Foresees

variable {c c' : Course α} {f : Futures α} {k : Strategy} {t : Tenure α} {a : Ticket α}
  {o : RunOutcome α} {n : Nat}

omit [Payload α] in
theorem yields_iff (h : c.Foresees f) {id : CellId} (hid : id ∉ c.owed) :
    (c.world.withFutures f).Yields id o ↔ c.Resolves id o := by
  show f.Yields c.world.taken id o ↔ _
  rw [Futures.Yields, h.cell_eq hid]
  exact h.logged.yields_iff id o

omit [Payload α] in
/-- What was resolved is not left to the owner. -/
theorem not_owed_of_resolves (h : c.Foresees f) {id : CellId} (hr : c.Resolves id o) :
    id ∉ c.owed := by
  intro hid
  obtain ⟨r, hr, rfl, -⟩ := hr
  have := (h.logged.resolved_iff _).mpr (List.mem_map_of_mem hr)
  rw [(h.owed _ hid).2] at this
  cases this

omit [Payload α] in
/-- What is resolved in the world ahead is so here, if it is not left to the owner. -/
theorem resolved (h : c.Foresees f) {id : CellId} (hid : id ∉ c.owed)
    (hf : (f.cell id).resolved = true) : c.Resolved id := by
  rw [h.cell_eq hid, h.logged.resolved_iff] at hf
  exact List.count_eq_one_of_mem h.logged.nodup hf

/-- A run has the prescribed outcome, or was cancelled. -/
theorem outcome (h : c.Foresees f) (hw : (c.world.withFutures f).Reachable k)
    (ht : t ∈ c.world.tenures) (ha : a ∈ t.tickets) (hr : c.Resolves a.cell o) :
    if a.run ∈ t.cancelled then o = .error (.scheduling .cancelled)
      else t.graph.Prescribed a.staged a.run o := by
  have hs := hw.standing (t := t) ht
  obtain ⟨isOpen, dues, hdocket⟩ := hs.docket
  exact (hdocket.outcome (Tenure.request_of_mem hs.numbers ha)
    ((h.yields_iff (h.not_owed_of_resolves hr)).mpr hr)).2

/-- Whoever is cancelled waited when the table was closed, and the other way round. -/
theorem cancelled_iff (h : c.Foresees f) (hw : (c.world.withFutures f).Reachable k)
    (ht : t ∈ c.world.tenures) (ha : a ∈ t.tickets) : a.run ∈ t.cancelled ↔
      a.cell ∈ c.owed ∨ c.Resolves a.cell (.error (.scheduling .cancelled)) := by
  have hs := hw.standing (t := t) ht
  obtain ⟨isOpen, dues, hdocket⟩ := hs.docket
  have hq := Tenure.request_of_mem hs.numbers ha
  constructor
  · intro hc
    by_cases hd : a.cell ∈ c.owed
    · exact Or.inl hd
    · -- no thread is about to resolve the cell of a cancelled run
      have hresolved : ((c.world.withFutures f).scheduler.futures.cell a.cell).resolved = true := by
        refine (hdocket.settled hq (hdocket.not_open hc)).resolve_left ?_
        rintro ⟨o, hdue⟩
        obtain ⟨r, q, hq', hcell, -, hnot, -⟩ := hdocket.due hdue
        exact hnot (hdocket.run_unique hq hq' hcell.symm ▸ hc)
      obtain ⟨o, ho⟩ := hdocket.kept hq hresolved
      have hout := (hdocket.outcome hq ho).2
      rw [if_pos hc] at hout
      exact Or.inr ((h.yields_iff hd).mp (hout ▸ ho))
  · intro hor
    by_contra hc
    have hprescribed : t.graph.Prescribed a.staged a.run (.error (.scheduling .cancelled)) := by
      rcases hor with hd | hr
      · have hcell : (f.cell a.cell).outcome = some (.error (.scheduling .cancelled)) := by
          rw [h.cell, if_pos hd]
          rfl
        have := (hdocket.outcome hq (Or.inl hcell)).2
        rwa [if_neg hc] at this
      · have := h.outcome hw ht ha hr
        rwa [if_neg hc] at this
    rcases hprescribed with ⟨-, he⟩ | ⟨e, -, he⟩
    · cases he
    · cases he

/-- When nobody can go on, every run is resolved that is not left to the owner. -/
theorem resolved_of_rest (h : c.Foresees f) (hw : (c.world.withFutures f).Reachable k)
    (hrest : c.world.AtRest) (ht : t ∈ c.world.tenures) (ha : a ∈ t.tickets)
    (hd : a.cell ∉ c.owed) : c.Resolved a.cell := by
  have hs := hw.standing (t := t) ht
  exact h.resolved hd (hs.settled hrest (Tenure.request_of_mem hs.numbers ha))

/-- When all threads have ended and nothing is left to the owner, every run is resolved. -/
theorem resolved_of_ended (h : c.Foresees f) (hw : (c.world.withFutures f).Reachable k)
    (hended : ∀ x ∈ c.world.scheduler.threads.load, x.hasEnded = true) (hd : c.owed = [])
    (ht : t ∈ c.world.tenures) (ha : a ∈ t.tickets) : c.Resolved a.cell := by
  refine h.resolved_of_rest hw (fun b _ x hx => ?_) ht ha (by simp [hd])
  exact World.not_canAdvance_of_ended (hended x hx)

omit [Payload α] in
/-- Only cells that were made are resolved. -/
theorem lt_size_of_mem (h : c.Foresees f) {r : Resolution α} (hr : r ∈ c.log) :
    r.cell < f.cells.size := by
  have hres := (h.logged.resolved_iff r.cell).mpr (List.mem_map_of_mem hr)
  by_contra hge
  rw [h.size] at hge
  simp [Futures.cell, Array.getElem?_eq_none (Nat.not_lt.mp hge)] at hres

/-- After a shutdown nothing is left to the owner. -/
theorem owed_eq_nil_of_shutDown (h : c.Foresees f) (hw : (c.world.withFutures f).Reachable k)
    (hs : c.world.scheduler.isShutDown = true) : c.owed = [] := by
  refine h.owed_eq_nil fun ho => ?_
  have hno : c.world.scheduler.isShutDown = false := hw.isShutDown_of_closing ho
  rw [hs] at hno
  cases hno

/-- When nobody uses the graph any more, every run that was not cancelled has been through
all nodes, and all are resolved. -/
theorem through_of_released (h : c.Foresees f) (hw : (c.world.withFutures f).Reachable k)
    (hr : c.world.scheduler.isReleased = true) {b : Binding α}
    (hb : c.world.scheduler.binding = some b) (hd : c.owed = []) :
    ∃ t ts, c.world.tenures = t :: ts ∧ ∀ a ∈ t.tickets, c.Resolved a.cell ∧
      (a.run ∉ t.cancelled → ∀ v < t.graph.nodes.size, t.executed.count (v, a.run) = 1) := by
  obtain ⟨t, ts, hts, -⟩ := hw.orderly.bound (b := b) hb
  replace hts : c.world.tenures = t :: ts := hts
  have ht : t ∈ c.world.tenures := hts ▸ List.mem_cons_self ..
  have hended := hw.orderly.ended_of_released hr
  have hrest : c.world.AtRest := fun b _ x hx =>
    World.not_canAdvance_of_ended (hended x hx)
  refine ⟨t, ts, hts, fun a ha => ⟨h.resolved_of_ended hw hended hd ht ha, ?_⟩⟩
  intro hc v hv
  obtain ⟨T, hT⟩ := hw.recorded
  obtain ⟨-, -, hregister, -⟩ := hT.precedence (b := b) hb hts
  obtain ⟨o, ho⟩ := hw.yields_of_rest (t := t) ht ha hrest
  have hcount := (hT.through (b := b) hb hts ha hc ho).fired v hv
  rwa [show Deed.fires T = t.executed from hregister.fires] at hcount

/-- What goes on without further calls goes on in the world ahead. -/
theorem schedule (h : c.Foresees f) (hw : (c.world.withFutures f).Reachable k)
    (hs : c.Schedule n c') : ∃ f', c'.Foresees f' ∧
      (c.world.withFutures f).Schedule n (c'.world.withFutures f') := by
  induction hs with
  | start => exact ⟨f, h, .start⟩
  | thread _ hs ih =>
    obtain ⟨f₁, h₁, hw₁⟩ := ih
    obtain ⟨f₂, h₂, hahead⟩ := h₁.thread (hw₁.reachable hw) hs
    exact ⟨f₂, h₂, hw₁.thread hahead⟩
  | notice _ hs ih =>
    obtain ⟨f₁, h₁, hw₁⟩ := ih
    refine ⟨f₁, h₁.congr ?_ rfl h₁.closing, hw₁.notice (Scheduler.stepNotice_withFutures hs)⟩
    obtain ⟨cr, cr', -, -, rfl⟩ := Scheduler.stepNotice_eq_some hs
    rfl
  | use _ hx ih =>
    obtain ⟨f₁, h₁, hw₁⟩ := ih
    obtain ⟨f₂, h₂, ⟨rfl, rfl⟩ | ⟨hused, rfl⟩⟩ := h₁.use hx
    · refine ⟨_, h₂, ?_⟩
      rw [Option.toList_none, List.map_nil, List.append_nil]
      exact hw₁
    · exact ⟨_, h₂, hw₁.use hused⟩
  | cancel _ hd ih =>
    obtain ⟨f₁, h₁, hw₁⟩ := ih
    exact ⟨f₁, h₁.cancel hd, hw₁⟩

end Foresees

end Course

/-- Without a graph there is no execution to go on with. -/
theorem World.Schedule.eq_zero [Payload α] {w w' : World α} {n : Nat} (h : w.Schedule n w')
    (hb : w.scheduler.binding = none) : n = 0 ∧ w'.scheduler.binding = none := by
  induction h with
  | start => exact ⟨rfl, hb⟩
  | @thread n w' i choice s _ hs ih =>
    obtain ⟨rfl, hb'⟩ := ih
    rcases Scheduler.step_eq_some hs with ⟨c, c', hc, hx, -, rfl⟩ | ⟨x, b, -, hb'', -⟩
    · have hnone : w'.scheduler.threads.execution? i = none := by
        rw [hc]
        exact hx
      rw [hnone]
      exact ⟨rfl, hb'⟩
    · rw [hb'] at hb''
      cases hb''
  | notice _ hs ih =>
    obtain ⟨c, c', -, -, rfl⟩ := Scheduler.stepNotice_eq_some hs
    exact ih
  | use _ _ ih => exact ih

namespace Course

variable [Payload α] {c : Course α} {k : Strategy}

/-- Threads do not go on for ever. -/
theorem Reachable.finite (h : c.Reachable k) : ∃ bound, ∀ n c', c.Schedule n c' → n ≤ bound := by
  obtain ⟨f, hc, hw⟩ := h.foreseen
  cases hb : c.world.scheduler.binding with
  | none =>
    refine ⟨0, fun n c' hs => ?_⟩
    obtain ⟨f', -, hs'⟩ := hc.schedule hw hs
    exact Nat.le_of_eq (hs'.eq_zero hb).1
  | some b =>
    obtain ⟨t, ts, hts, -⟩ := hw.orderly.bound (b := b) hb
    refine ⟨t.effort k (c.world.withFutures f).scheduler b, fun n c' hs => ?_⟩
    obtain ⟨f', -, hs'⟩ := hc.schedule hw hs
    obtain ⟨b', more, -, -, hle⟩ := hs'.tenure hw hb hts
    exact Nat.le_of_add_right_le hle

/-- **Every accepted run is resolved once**, whatever happens. -/
theorem Reachable.accounted (h : c.Reachable k) : c.Accounted := by
  obtain ⟨f, hc, hw⟩ := h.foreseen
  have horderly := hw.orderly
  exact {
    succeeded := hc.logged.succeeded
    once := hc.logged.nodup
    accepted := fun r hr => hw.exists_ticket (hc.lt_size_of_mem hr)
    yields := hc.logged.yields_iff
    cancelled := fun t ht a ha => hc.cancelled_iff hw ht ha
    answered := fun t ht a ha hnot o hr => by
      have hout := hc.outcome hw ht ha hr
      rw [if_neg hnot] at hout
      exact (hw.standing (t := t) ht).frozen.answers hout
    pending := fun t ht a ha => by
      by_cases hd : a.cell ∈ c.owed
      · exact Or.inr (Or.inl hd)
      by_cases hrest : c.world.AtRest
      · exact Or.inl (hc.resolved_of_rest hw hrest ht ha hd)
      · exact Or.inr (Or.inr hrest)
    finite := h.finite
    spared := fun hs ho => hw.cancelled_eq_nil hs ho
    unbound := fun {g s} ho hu => by
      obtain ⟨hr, rfl, b, hb, -⟩ := Scheduler.unbind_eq_ok hu
      exact ⟨rfl, hc.through_of_released hw hr hb (hc.owed_eq_nil (by simp [ho]))⟩
    finished := fun {s} ho hd hf => by
      have hno : c.world.scheduler.isShutDown = false := hw.isShutDown_of_closing ho
      obtain ⟨hs, -⟩ | ⟨hr, rfl⟩ := Scheduler.finishShutDown_eq_some hf
      · rw [hno] at hs
        cases hs
      · exact ⟨rfl, rfl, fun t ht a ha =>
          hc.resolved_of_ended hw (horderly.ended_of_released hr) hd ht ha⟩
    shutDown := fun hs => by
      have hd := hc.owed_eq_nil_of_shutDown hw hs
      refine ⟨fun t ht a ha => hc.resolved_of_ended hw (hw.ended_of_shutDown hs) hd ht ha,
        fun c' hstep => ?_, Scheduler.run_of_shutDown hs, Scheduler.bind_of_shutDown hs,
        Scheduler.beginShutDown_of_shutDown hs, Scheduler.finishShutDown_of_shutDown hs⟩
      obtain ⟨f', -, hahead⟩ := hc.step hw hstep
      rcases (Relation.reflGen_iff ..).mp hahead with he | hahead
      · exact (congrArg (·.scheduler.isShutDown) he).trans hs
      · exact hahead.isShutDown hs }

end Course

/-! ### The relay is shut down -/

namespace Relay

/-- The shutdown begins while the last run waits for a slot. -/
def closing (k : Strategy) : World Nat :=
  { (submitted k).record (submitted k).scheduler.beginShutDown fun t =>
      { t with cancelled := t.cancelled ++ (submitted k).scheduler.waiting } with
    owner := .closing }

theorem reachable_closing (k : Strategy) : (closing k).Reachable k := by
  have hfree : (submitted k).owner = .free := by cases k <;> decide +kernel
  have hopen : (submitted k).scheduler.isShutDown = false := by cases k <;> decide +kernel
  exact (reachable_submitted k).step (.beginShutDown hfree hopen)

/-- The other runs have ended, and so have the threads of the nodes. -/
def dismissed (k : Strategy) : World Nat :=
  let w := (closing k).settle
  ({ w with scheduler := w.scheduler.dismiss } : World Nat).settle

theorem reachable_dismissed (k : Strategy) : (dismissed k).Reachable k := by
  have hbusy : (closing k).settle.owner ≠ .free := by cases k <;> decide +kernel
  exact ((reachable_closing k).settle.step (.dismiss hbusy)).settle

/-- The shutdown is complete. -/
def closed (k : Strategy) : World Nat :=
  { dismissed k with
    scheduler := (dismissed k).scheduler.finishShutDown.getD (dismissed k).scheduler
    owner := .free }

theorem reachable_closed (k : Strategy) : (closed k).Reachable k := by
  have hclosing : (dismissed k).owner = .closing := by cases k <;> decide +kernel
  have hdone : (dismissed k).scheduler.finishShutDown.isSome := by cases k <;> decide +kernel
  obtain ⟨s, hs⟩ := Option.isSome_iff_exists.mp hdone
  have hstep := (reachable_dismissed k).step (.finishShutDown hclosing hs)
  simp only [closed, hs, Option.getD_some]
  exact hstep

/-- Of the three runs of the relay the first fails, the second comes to its result, and the
last is cancelled. No cell was resolved but these. -/
theorem accounted_closed : ∃ c : Course Nat, c.world = closed .dedicated ∧ c.Accounted ∧
    c.world.scheduler.isShutDown = true ∧ (c.log.map (·.cell)).Perm [0, 1, 2] ∧
    c.Resolves 0 (.error (.execution (.workFailed 1 "zero"))) ∧
    c.Resolves 1 (.ok ⟨1, [(1, 5)]⟩) ∧ c.Resolves 2 (.error (.scheduling .cancelled)) := by
  obtain ⟨log, hc⟩ := (reachable_closed .dedicated).course
  have haccounted := hc.accounted
  have htickets : ∀ t ∈ (closed .dedicated).tenures, ∀ a ∈ t.tickets, a.cell < 3 := by
    decide +kernel
  have hcells : ∀ r ∈ log, r.cell < 3 := by
    intro r hr
    obtain ⟨t, ht, a, ha, hcell⟩ := haccounted.accepted r hr
    exact hcell ▸ htickets t ht a ha
  have hyields : ∀ id o, (closed .dedicated).Yields id o →
      (⟨closed .dedicated, [], log⟩ : Course Nat).Resolves id o := fun id o =>
    (haccounted.yields id o).mp
  have hfailed := hyields 0 (.error (.execution (.workFailed 1 "zero"))) (.inl (by decide +kernel))
  have hresult := hyields 1 (.ok ⟨1, [(1, 5)]⟩) (.inl (by decide +kernel))
  have hcancelled := hyields 2 (.error (.scheduling .cancelled)) (.inl (by decide +kernel))
  have hshut : (closed .dedicated).scheduler.isShutDown = true := by decide +kernel
  have hmem : ∀ {id o}, (⟨closed .dedicated, [], log⟩ : Course Nat).Resolves id o →
      id ∈ log.map (·.cell) := by
    rintro id o ⟨r, hr, rfl, -⟩
    exact List.mem_map_of_mem hr
  refine ⟨⟨closed .dedicated, [], log⟩, rfl, haccounted, hshut, ?_, hfailed, hresult,
    hcancelled⟩
  refine (List.perm_ext_iff_of_nodup haccounted.once (by decide)).mpr fun id => ?_
  constructor
  · intro hid
    obtain ⟨r, hr, rfl⟩ := List.mem_map.mp hid
    have hlt : r.cell < 3 := hcells r hr
    show r.cell ∈ [0, 1, 2]
    generalize r.cell = id at hlt
    revert id
    decide
  · intro hid
    simp only [List.mem_cons, List.not_mem_nil, or_false] at hid
    rcases hid with rfl | rfl | rfl
    · exact hmem hfailed
    · exact hmem hresult
    · exact hmem hcancelled

end Relay

end Dataflow
