import Mathlib.Logic.Relation
import Dataflow.Proofs.Scheduler.Course

/-!
# Looking ahead of a shutdown

While the owner cancels the runs that waited, nobody else has to do with their cells, so it
makes no difference when he comes to them. If we look ahead to the futures as they will be
once he has done (`Course.Foresees`), what happens in a course is a step of a world, or
nothing at all (`Course.Foresees.step`). So what holds of all reachable worlds is known of
all courses, `Course.Reachable.foreseen`.

The log says all the time what has become of the cells. What it needs for that is known from
the world ahead: a thread that is about to resolve a cell finds it unresolved there, and so
the owner has nothing to do with it.
-/

namespace Dataflow

variable {α : Type} [Payload α]

/-! ### Who is about to resolve which cell -/

namespace Tenure.Running

variable {t : Tenure α} {k : Strategy} {s : Scheduler α} {owner : Owner} {b : Binding α}
  {taken : List (CellId × RunOutcome α)}

/-- A thread resolves a cell that was not resolved. -/
theorem pending_of_resolved (h : t.Running k s owner taken b) {i : Nat} {x : Execution α}
    (hx : s.threads.execution? i = some x) (hcan : x.canAdvance b = true) {id : CellId}
    {o : RunOutcome α} (hr : (x.advance k b).resolved = some (id, o)) :
    id < s.futures.cells.size ∧ (s.futures.cell id).resolved = false := by
  obtain ⟨rest, hload, -⟩ := Threads.perm_put hx
  obtain ⟨closed, launched, post, hsound, -⟩ := h.sound
  have heffect := ((hsound.perm hload).turn h.frozen h.size hcan).effect
  have hstage : x.stage = .resolving id o := by
    cases heffect with
    | quiet _ _ hnone => simp [hnone] at hr
    | ended _ _ _ _ hnone => simp [hnone] at hr
    | resolved hst _ hsome =>
      obtain ⟨rfl, rfl⟩ := Prod.mk.inj (Option.some.inj (hsome.symm.trans hr))
      exact hst
  have hdue : (id, o) ∈ Execution.dues s.threads.load := by
    refine List.mem_filterMap.mpr ⟨x, hload.mem_iff.mpr (List.mem_cons_self ..), ?_⟩
    rw [hstage]
    rfl
  obtain ⟨r, q, hq, rfl, -, -, -, hpending⟩ := h.docket.due hdue
  exact ⟨h.docket.cell_lt (List.mem_of_getElem? hq), hpending⟩

/-- The runs that wait have different cells, and none of them was resolved. -/
theorem pending_of_waiting (h : t.Running k s owner taken b) (hb : s.binding = some b) :
    s.waitingCells.Nodup ∧ ∀ id ∈ s.waitingCells,
      id < s.futures.cells.size ∧ (s.futures.cell id).resolved = false := by
  obtain ⟨closed, launched, post, hsound, -⟩ := h.sound
  have hledger := hsound.ledger
  have hcells : s.waitingCells = b.table.backlog.map (·.cell) := by
    simp [Scheduler.waitingCells, hb, Table.close]
  have hids : (b.table.backlog.map (·.objectId)).Nodup := by
    rw [hledger.backlog_ids]
    exact List.nodup_range'
  rw [hcells]
  constructor
  · refine List.pairwise_map.mpr ((List.pairwise_map.mp hids).imp_of_mem ?_)
    intro p p' hp hp' hne he
    exact hne (h.docket.run_unique (hledger.backlog_mem hp) (hledger.backlog_mem hp') he)
  · intro id hid
    obtain ⟨p, hp, rfl⟩ := List.mem_map.mp hid
    have hq := hledger.backlog_mem hp
    exact ⟨h.docket.cell_lt (List.mem_of_getElem? hq),
      h.docket.pending hq (Or.inr (List.mem_map_of_mem hp))⟩

end Tenure.Running

/-! ### The world ahead -/

namespace Course

omit [Payload α] in
/-- **The futures as they will be** when the owner has resolved all that is left to him. -/
structure Foresees (c : Course α) (f : Futures α) : Prop where
  size : f.cells.size = c.world.scheduler.futures.cells.size
  cell : ∀ id, f.cell id =
    if id ∈ c.owed then .cancelled else c.world.scheduler.futures.cell id
  owed : ∀ id ∈ c.owed, id < c.world.scheduler.futures.cells.size ∧
    (c.world.scheduler.futures.cell id).resolved = false
  nodup : c.owed.Nodup
  closing : c.owed ≠ [] → c.world.owner = .closing
  logged : c.world.scheduler.futures.Logged c.world.taken c.log

namespace Foresees

variable {c c' : Course α} {f : Futures α} {k : Strategy}

omit [Payload α] in
theorem owed_eq_nil (h : c.Foresees f) (ho : c.world.owner ≠ .closing) : c.owed = [] := by
  by_contra hne
  exact ho (h.closing hne)

omit [Payload α] in
theorem cell_eq (h : c.Foresees f) {id : CellId} (hid : id ∉ c.owed) :
    f.cell id = c.world.scheduler.futures.cell id := by
  rw [h.cell, if_neg hid]

omit [Payload α] in
/-- A cell that is not resolved in the world ahead is not left to the owner. -/
theorem not_owed (h : c.Foresees f) {id : CellId} (hp : (f.cell id).resolved = false) :
    id ∉ c.owed := fun hid => by
  rw [h.cell, if_pos hid] at hp
  cases hp

omit [Payload α] in
/-- Nobody has got anything from a cell that is left to the owner. -/
theorem outcome_eq_none (h : c.Foresees f) {id : CellId} (hid : id ∈ c.owed) :
    (c.world.scheduler.futures.cell id).outcome = none := by
  cases ho : (c.world.scheduler.futures.cell id).outcome with
  | none => rfl
  | some o =>
    obtain ⟨r, hr, rfl, -⟩ := (h.logged.yields_iff id o).mp (Or.inl ho)
    have := (h.logged.resolved_iff _).mpr (List.mem_map_of_mem hr)
    rw [(h.owed _ hid).2] at this
    cases this

omit [Payload α] in
/-- What concerns neither futures nor what is owed. -/
theorem congr (h : c.Foresees f) {w : World α}
    (hf : w.scheduler.futures = c.world.scheduler.futures) (ht : w.taken = c.world.taken)
    (ho : c.owed ≠ [] → w.owner = .closing) : ({ c with world := w } : Course α).Foresees f where
  size := hf ▸ h.size
  cell := hf ▸ h.cell
  owed := hf ▸ h.owed
  nodup := h.nodup
  closing := ho
  logged := hf ▸ ht ▸ h.logged

omit [Payload α] in
/-- **A cell is resolved**, here and in the world ahead, if it is not left to the owner. -/
theorem resolve (h : c.Foresees f) {id : CellId} {o : RunOutcome α} {w : World α}
    {f₁ f₂ : Futures α} (hid : id < f.cells.size) (hp : (f.cell id).resolved = false)
    (h₁ : c.world.scheduler.futures.resolve id o = some f₁) (h₂ : f.resolve id o = some f₂)
    (hf : w.scheduler.futures = f₁) (ht : w.taken = c.world.taken)
    (ho : w.owner = c.world.owner) :
    ({ c with world := w, log := c.log ++ [c.world.scheduler.futures.resolution id o] } :
      Course α).Foresees f₂ := by
  have hnot := h.not_owed hp
  have hp' : (c.world.scheduler.futures.cell id).resolved = false := h.cell_eq hnot ▸ hp
  obtain ⟨f₁', h₁', hsize₁, hself₁, hother₁⟩ := Futures.resolve_of_pending (h.size ▸ hid) hp' o
  obtain ⟨f₂', h₂', hsize₂, hself₂, hother₂⟩ := Futures.resolve_of_pending hid hp o
  obtain rfl := Option.some.inj (h₁'.symm.trans h₁)
  obtain rfl := Option.some.inj (h₂'.symm.trans h₂)
  refine {
    size := by rw [hf, hsize₁, hsize₂, h.size]
    cell := fun id' => ?_
    owed := fun id' hid' => ?_
    nodup := h.nodup
    closing := fun hd => ho.trans (h.closing hd)
    logged := hf ▸ ht ▸ h.logged.resolve (h.size ▸ hid) hp' h₁ }
  · rw [hf]
    by_cases he : id' = id
    · subst he
      rw [hself₁, hself₂, if_neg hnot]
    · rw [hother₁ id' he, hother₂ id' he, h.cell]
  · have he : id' ≠ id := fun he => hnot (he ▸ hid')
    rw [hf, hsize₁, hother₁ id' he]
    exact h.owed id' hid'

/-- **A thread performs its next operation.** -/
theorem thread (h : c.Foresees f) (hw : (c.world.withFutures f).Reachable k) {i : Nat}
    {choice : Choice} {s : Scheduler α} (hs : c.world.scheduler.step i choice = some s) :
    ∃ f', ({ c with
        world := c.world.record s fun t =>
          { t with executed := t.executed ++ c.world.scheduler.fired s i }
        log := c.log ++ c.world.scheduler.resolutions i } : Course α).Foresees f' ∧
      (c.world.scheduler.withFutures f).step i choice = some (s.withFutures f') := by
  have horderly := hw.orderly
  rcases Scheduler.step_eq_some hs with
    ⟨cr, cr', hc, hx, hadv, rfl⟩ | ⟨x, b, hx, hb, hcan, hs'⟩
  · -- a worker has looked for tasks
    have hnone : c.world.scheduler.resolutions i = [] := by
      simp [Scheduler.resolutions, hc, Threads.execution?, hx]
    rw [hnone, List.append_nil]
    exact ⟨f, h.congr rfl rfl h.closing,
      Scheduler.step_of_search (s := c.world.scheduler.withFutures f) hc hx hadv⟩
  · have hk : c.world.scheduler.threads.strategy = k := horderly.strategy
    obtain ⟨t, ts, -, hrun, -⟩ := horderly.bound (b := b) hb
    have hahead := Scheduler.step_of_execution (s := c.world.scheduler.withFutures f)
      hx hb hcan choice
    have hlog : c.world.scheduler.resolutions i = (x.advance k b).resolved.toList.map fun p =>
        c.world.scheduler.futures.resolution p.1 p.2 := by
      simp only [Scheduler.resolutions, hx, hb, hk]
    rw [hlog]
    simp only [Scheduler.withFutures, hk] at hahead hs'
    cases hr : (x.advance k b).resolved with
    | none =>
      rw [Scheduler.absorb_of_none hr] at hahead hs'
      subst hs'
      rw [Option.toList_none, List.map_nil, List.append_nil]
      exact ⟨f, h.congr rfl rfl h.closing, hahead⟩
    | some p =>
      obtain ⟨id, o⟩ := p
      obtain ⟨hid, hp⟩ : id < f.cells.size ∧ (f.cell id).resolved = false :=
        hrun.pending_of_resolved hx hcan hr
      obtain ⟨f₂, hf₂, -⟩ := Futures.resolve_of_pending hid hp o
      obtain ⟨f₁, hf₁, -⟩ := Futures.resolve_of_pending (f := c.world.scheduler.futures)
        (h.size ▸ hid) (h.cell_eq (h.not_owed hp) ▸ hp) o
      rw [Scheduler.absorb_of_resolve hr hf₂] at hahead
      rw [Scheduler.absorb_of_resolve hr hf₁] at hs'
      subst hs'
      rw [Option.toList_some, List.map_singleton]
      exact ⟨f₂, h.resolve hid hp hf₁ hf₂ rfl rfl rfl, hahead⟩

omit [Payload α] in
/-- Whoever asks for the outcome of a run that is left to the owner gets nothing, and to the
world ahead it is as if he had not asked. -/
theorem use_of_owed (h : c.Foresees f) {cell : CellId} (hd : cell ∈ c.owed)
    {got : Option (RunOutcome α)} {x : Cell α}
    (hx : (c.world.scheduler.futures.cell cell).Used got x) {w : World α}
    (hf : w.scheduler.futures = c.world.scheduler.futures.setCell cell x)
    (ht : w.taken = c.world.taken ++ got.toList.map (cell, ·)) (ho : w.owner = c.world.owner) :
    got = none ∧ ({ c with world := w } : Course α).Foresees f := by
  have hspent := hx.spent
  have hcell := c.world.scheduler.futures.cell_setCell_eq cell x
  have hgot : got = none := by
    cases got with
    | none => rfl
    | some o => simp [Cell.Spent, h.outcome_eq_none hd] at hspent
  refine ⟨hgot, {
    size := by rw [hf, Futures.size_setCell, h.size]
    cell := fun id => ?_
    owed := fun id hid => ?_
    nodup := h.nodup
    closing := fun hne => ho.trans (h.closing hne)
    logged := hf ▸ ht ▸ h.logged.keep (Futures.keeps_setCell hspent) }⟩
  · rw [hf, h.cell, hcell]
    by_cases hid : id ∈ c.owed
    · rw [if_pos hid, if_pos hid]
    · rw [if_neg hid, if_neg hid, if_neg]
      rintro ⟨rfl, -⟩
      exact hid hd
  · rw [hf, Futures.size_setCell, hcell]
    refine ⟨(h.owed id hid).1, ?_⟩
    split
    · rw [hspent.1]
      exact (h.owed cell hd).2
    · exact (h.owed id hid).2

omit [Payload α] in
/-- Whoever asks for the outcome of another run gets what he gets in the world ahead. -/
theorem use_of_not_owed (h : c.Foresees f) {cell : CellId} (hd : cell ∉ c.owed)
    {got : Option (RunOutcome α)} {x : Cell α}
    (hx : (c.world.scheduler.futures.cell cell).Used got x) {w : World α}
    (hf : w.scheduler.futures = c.world.scheduler.futures.setCell cell x)
    (ht : w.taken = c.world.taken ++ got.toList.map (cell, ·)) (ho : w.owner = c.world.owner) :
    (f.cell cell).Used got x ∧ ({ c with world := w } : Course α).Foresees (f.setCell cell x) := by
  have hcell := c.world.scheduler.futures.cell_setCell_eq cell x
  refine ⟨h.cell_eq hd ▸ hx, {
    size := by rw [hf, Futures.size_setCell, Futures.size_setCell, h.size]
    cell := fun id => ?_
    owed := fun id hid => ?_
    nodup := h.nodup
    closing := fun hne => ho.trans (h.closing hne)
    logged := hf ▸ ht ▸ h.logged.keep (Futures.keeps_setCell hx.spent) }⟩
  · rw [hf, hcell, f.cell_setCell_eq, h.size, h.cell]
    by_cases hid : id ∈ c.owed
    · rw [if_pos hid, if_pos hid, if_neg]
      rintro ⟨rfl, -⟩
      exact hd hid
    · rw [if_neg hid, if_neg hid]
  · rw [hf, Futures.size_setCell, hcell, if_neg]
    · exact h.owed id hid
    · rintro ⟨rfl, -⟩
      exact hd hid

omit [Payload α] in
/-- **The holder of a future asks for its outcome.** -/
theorem use (h : c.Foresees f) {cell : CellId} {got : Option (RunOutcome α)} {x : Cell α}
    (hx : (c.world.scheduler.futures.cell cell).Used got x) : ∃ f', ({ c with world := { c.world with
        scheduler := { c.world.scheduler with
          futures := c.world.scheduler.futures.setCell cell x }
        taken := c.world.taken ++ got.toList.map (cell, ·) } } : Course α).Foresees f' ∧
      (got = none ∧ f' = f ∨ (f.cell cell).Used got x ∧ f' = f.setCell cell x) := by
  let w : World α := { c.world with
    scheduler := { c.world.scheduler with futures := c.world.scheduler.futures.setCell cell x }
    taken := c.world.taken ++ got.toList.map (cell, ·) }
  by_cases hd : cell ∈ c.owed
  · obtain ⟨hgot, h'⟩ := h.use_of_owed hd hx (w := w) rfl rfl rfl
    exact ⟨f, h', Or.inl ⟨hgot, rfl⟩⟩
  · obtain ⟨hused, h'⟩ := h.use_of_not_owed hd hx (w := w) rfl rfl rfl
    exact ⟨_, h', Or.inr ⟨hused, rfl⟩⟩

omit [Payload α] in
/-- **A run is accepted**, and its future gets a cell that looks like none. -/
theorem accept (h : c.Foresees f) {w : World α} (ho : c.world.owner = .free)
    (hf : w.scheduler.futures = c.world.scheduler.futures.extend) (ht : w.taken = c.world.taken) :
    ({ c with world := w } : Course α).Foresees f.extend := by
  have hnil : c.owed = [] := h.owed_eq_nil (by simp [ho])
  refine {
    size := by simp [hf, Futures.extend, h.size]
    cell := fun id => by rw [f.cell_extend_eq, hf, Futures.cell_extend_eq, h.cell]
    owed := fun id hid => by simp [hnil] at hid
    nodup := h.nodup
    closing := fun hd => absurd hnil hd
    logged := ?_ }
  rw [hf, ht]
  exact h.logged.keep fun id => .of_cell_eq (Futures.cell_extend_eq _ id)

/-- **The table is closed.** In the world ahead the runs that waited are cancelled at once. -/
theorem close (h : c.Foresees f) (hw : (c.world.withFutures f).Reachable k)
    (ho : c.world.owner = .free) (hs : c.world.scheduler.isShutDown = false) {w : World α}
    (hworld : w = { c.world.record c.world.scheduler.close fun t =>
      { t with cancelled := t.cancelled ++ c.world.scheduler.waiting } with owner := .closing }) :
    ({ c with world := w, owed := c.world.scheduler.waitingCells } : Course α).Foresees
        (f.cancel c.world.scheduler.waitingCells) ∧
      (c.world.withFutures f).Step
        (w.withFutures (f.cancel c.world.scheduler.waitingCells)) := by
  have hnil : c.owed = [] := h.owed_eq_nil (by simp [ho])
  have hsame : ∀ id, f.cell id = c.world.scheduler.futures.cell id := fun id =>
    h.cell_eq (by simp [hnil])
  obtain ⟨hnodup, hpending⟩ : c.world.scheduler.waitingCells.Nodup ∧
      ∀ id ∈ c.world.scheduler.waitingCells, id < f.cells.size ∧ (f.cell id).resolved = false := by
    cases hb : c.world.scheduler.binding with
    | none =>
      rw [show c.world.scheduler.waitingCells = [] by simp [Scheduler.waitingCells, hb]]
      exact ⟨List.nodup_nil, nofun⟩
    | some b =>
      obtain ⟨t, ts, -, hrun, -⟩ := hw.orderly.bound (b := b) hb
      exact hrun.pending_of_waiting hb
  obtain ⟨hsize, hcell⟩ := Futures.cell_cancel hnodup hpending
  have hbegin : (c.world.scheduler.withFutures f).beginShutDown =
      c.world.scheduler.close.withFutures (f.cancel c.world.scheduler.waitingCells) :=
    Scheduler.beginShutDown_eq_close hs
  subst hworld
  refine ⟨{
    size := hsize.trans h.size
    cell := fun id => by rw [hcell, hsame]; rfl
    owed := fun id hid => ?_
    nodup := hnodup
    closing := fun _ => rfl
    logged := h.logged }, ?_⟩
  · show id < c.world.scheduler.futures.cells.size ∧
      (c.world.scheduler.futures.cell id).resolved = false
    rw [← h.size, ← hsame]
    exact hpending id hid
  · have hstep := World.Step.beginShutDown (w := c.world.withFutures f) ho hs
    rw [show (c.world.withFutures f).scheduler.beginShutDown = _ from hbegin] at hstep
    exact hstep

omit [Payload α] in
/-- **The owner cancels the next run**, as he has in the world ahead. -/
theorem cancel (h : c.Foresees f) {id : CellId} {ids : List CellId} (hd : c.owed = id :: ids) :
    (⟨c.world.withFutures (c.world.scheduler.futures.cancel [id]), ids,
      c.log ++ [c.world.scheduler.futures.resolution id (.error (.scheduling .cancelled))]⟩ :
        Course α).Foresees f := by
  obtain ⟨hfresh, hnodup⟩ := List.nodup_cons.mp (hd ▸ h.nodup)
  have hmem : ∀ {id'}, id' ∈ ids → id' ∈ c.owed := fun hid' =>
    hd ▸ List.mem_cons_of_mem _ hid'
  obtain ⟨hid, hp⟩ := h.owed id (hd ▸ List.mem_cons_self ..)
  obtain ⟨hsize, hcell⟩ := Futures.cell_cancel (List.nodup_singleton id)
    (f := c.world.scheduler.futures) (by simp [hid, hp])
  obtain ⟨f₁, hf₁, -⟩ := Futures.resolve_of_pending hid hp (.error (.scheduling .cancelled))
  have hcancel : c.world.scheduler.futures.cancel [id] = f₁ := by
    simp [Futures.cancel, hf₁]
  refine {
    size := h.size.trans hsize.symm
    cell := fun id' => ?_
    owed := fun id' hid' => ?_
    nodup := hnodup
    closing := fun _ => h.closing (by simp [hd])
    logged := ?_ }
  · show f.cell id' = if id' ∈ ids then _ else (c.world.scheduler.futures.cancel [id]).cell id'
    rw [h.cell, hcell, hd]
    by_cases he : id' = id
    · simp [he]
    · simp [he]
  · have he : id' ≠ id := fun he => hfresh (he ▸ hid')
    show id' < (c.world.scheduler.futures.cancel [id]).cells.size ∧
      ((c.world.scheduler.futures.cancel [id]).cell id').resolved = false
    rw [hsize, hcell, if_neg (by simpa using he)]
    exact h.owed id' (hmem hid')
  · show (c.world.scheduler.futures.cancel [id]).Logged _ _
    rw [hcancel]
    exact h.logged.resolve hid hp hf₁

/-- **What happens in a course happens in the world ahead**, or nothing happens there. -/
theorem step (h : c.Foresees f) (hw : (c.world.withFutures f).Reachable k) (hs : c.Step c') :
    ∃ f', c'.Foresees f' ∧
      Relation.ReflGen World.Step (c.world.withFutures f) (c'.world.withFutures f') := by
  have hfree : ∀ {p : Prop}, c.world.owner ≠ .closing → c.owed ≠ [] → p := fun ho hd =>
    absurd (h.owed_eq_nil ho) hd
  cases hs with
  | thread hs =>
    obtain ⟨f', h', hahead⟩ := h.thread hw hs
    exact ⟨f', h', .single (.thread hahead)⟩
  | notice hs =>
    refine ⟨f, h.congr ?_ rfl h.closing, .single (.notice (Scheduler.stepNotice_withFutures hs))⟩
    obtain ⟨cr, cr', -, -, rfl⟩ := Scheduler.stepNotice_eq_some hs
    rfl
  | bind ho hg hs hb =>
    obtain ⟨-, -, hf, -⟩ := Scheduler.bind_eq_ok hs hb
    refine ⟨f, h.congr hf rfl (hfree (by simp [ho])), .single (.bind ho hg ?_ hb)⟩
    show (c.world.scheduler.withFutures f).bind _ = _
    rw [Scheduler.bind_withFutures, hs]
    rfl
  | accept ho hb hi hs =>
    have hahead := Scheduler.run_withFutures h.size hs
    obtain ⟨-, -, b, b', tasks, -, -, rfl⟩ := Scheduler.run_eq_accepted hs
    exact ⟨f.extend, h.accept ho rfl rfl, .single (.accept ho hb hi hahead)⟩
  | burst ho hs =>
    obtain ⟨s', hahead⟩ := Scheduler.run_broken_withFutures h.size hs
    exact absurd hahead (hw.orderly.not_burst ho _ _)
  | use hx =>
    obtain ⟨f', h', ⟨rfl, rfl⟩ | ⟨hused, rfl⟩⟩ := h.use hx
    · refine ⟨_, h', ?_⟩
      rw [Option.toList_none, List.map_nil, List.append_nil]
      exact .refl
    · exact ⟨_, h', .single (.use hused)⟩
  | waitIdle ho hs => exact ⟨f, h, .refl⟩
  | leave ho hb => exact ⟨f, h.congr rfl rfl (hfree (by simp [ho])), .single (.leave ho hb)⟩
  | dismiss ho hd =>
    refine ⟨f, h.congr ?_ rfl h.closing, ?_⟩
    · show c.world.scheduler.dismiss.futures = _
      rw [Scheduler.dismiss_eq]
    · have hstep := World.Step.dismiss (w := c.world.withFutures f) ho
      rw [show (c.world.withFutures f).scheduler.dismiss = _ from
        Scheduler.dismiss_withFutures ..] at hstep
      exact .single hstep
  | unbind ho hs =>
    refine ⟨f, h.congr ?_ rfl (hfree (by simp [ho])),
      .single (.unbind ho (Scheduler.unbind_withFutures hs))⟩
    obtain ⟨-, rfl, -⟩ := Scheduler.unbind_eq_ok hs
    rfl
  | close ho hs =>
    obtain ⟨h', hstep⟩ := h.close hw ho hs rfl
    exact ⟨_, h', .single hstep⟩
  | cancel hd => exact ⟨f, h.cancel hd, .refl⟩
  | finish ho hd hs =>
    refine ⟨f, h.congr ?_ rfl (absurd hd), .single (.finishShutDown ho ?_)⟩
    · obtain ⟨-, rfl⟩ | ⟨-, rfl⟩ := Scheduler.finishShutDown_eq_some hs
      · rfl
      · rfl
    · show (c.world.scheduler.withFutures f).finishShutDown = _
      rw [Scheduler.finishShutDown_withFutures, hs]
      rfl
  | again ho hs hagain =>
    rw [Scheduler.beginShutDown_of_shutDown hs, Scheduler.finishShutDown_of_shutDown hs] at hagain
    obtain rfl := Option.some.inj hagain
    exact ⟨f, h, .refl⟩

end Foresees

/-- **Every course has a world ahead**, and that is reachable. -/
theorem Reachable.foreseen {c : Course α} {k : Strategy} (h : c.Reachable k) :
    ∃ f, c.Foresees f ∧ (c.world.withFutures f).Reachable k := by
  induction h with
  | @start settings processors s h =>
    have hf := (Scheduler.new_eq_ok h).1
    refine ⟨s.futures, {
      size := rfl
      cell := fun id => rfl
      owed := nofun
      nodup := List.nodup_nil
      closing := fun hd => absurd rfl hd
      logged := ?_ }, .start h⟩
    rw [hf]
    exact .nil fun id => rfl
  | step _ hs ih =>
    obtain ⟨f, hc, hw⟩ := ih
    obtain ⟨f', hc', hstep⟩ := hc.step hw hs
    refine ⟨f', hc', ?_⟩
    rcases (Relation.reflGen_iff ..).mp hstep with he | hstep
    · exact he ▸ hw
    · exact hw.step hstep

end Course

end Dataflow
