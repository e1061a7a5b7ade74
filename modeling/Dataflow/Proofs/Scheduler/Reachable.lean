import Dataflow.Proofs.Engine.Rest
import Dataflow.Proofs.Scheduler.World

/-!
# What holds in every reachable world

As long as a graph is bound, the binding and the load of the threads are `Sound`, and the
docket of the accepted runs is in order (`Tenure.Running`). Once the graph is given back,
all its runs are settled, and whatever happens later does not concern them
(`Tenure.Over`). A world is `Orderly` if this is so for all tenures. Every operation of
anybody keeps it that way, `World.Reachable.orderly`.
-/

namespace Dataflow

variable {α : Type}

namespace Tenure

/-- The cells of the accepted runs. -/
def cells (t : Tenure α) : List CellId :=
  t.tickets.map (·.cell)

theorem map_cell_requests (t : Tenure α) : t.requests.map (·.cell) = t.cells := by
  rw [requests, List.map_map]
  rfl

end Tenure

variable [Payload α]

namespace Docket

/-- **What an operation of an execution does to the futures.** Only cells of accepted runs
are touched, and no cell is resolved twice. -/
theorem absorb {g : Graph α} {k : Strategy} {requests : List (Request α)}
    {cancelled : List ObjectId} {t : Table α} {x : Execution α} {rest : List (Execution α)}
    {f : Futures α} {taken : List (CellId × RunOutcome α)} {a : Advance α}
    (h : Docket g requests cancelled t.Open (Execution.dues (x :: rest)) f taken)
    (he : Effect g requests x.stage t a) :
    (Scheduler.absorb f a).2 = a.stage ∧
      (Scheduler.absorb f a).1.cells.size = f.cells.size ∧
      (∀ id, id ∉ requests.map (·.cell) → (Scheduler.absorb f a).1.cell id = f.cell id) ∧
      Docket g requests cancelled a.binding.table.Open
        (Execution.dues (x.onward k g a.stage ++ a.ready.map .ofTask ++ rest))
        (Scheduler.absorb f a).1 taken := by
  rw [Execution.dues_append, Execution.dues_append, Execution.dues_ofTask, List.append_nil]
  cases he with
  | quiet hx ha hr hopen =>
    have honward : Execution.dues (x.onward k g a.stage) = [] := by
      refine Execution.dues_eq_nil.mpr fun y hy => ?_
      unfold Execution.onward at hy
      split at hy
      · split at hy
        · cases hy
        · rw [List.mem_singleton.mp hy]
          rfl
      · rw [List.mem_singleton.mp hy]
        exact ha
    rw [Execution.dues_cons, hx, Option.toList_none, List.nil_append] at h
    rw [honward, List.nil_append, show Scheduler.absorb f a = (f, a.stage) by
      simp [Scheduler.absorb, hr]]
    exact ⟨rfl, rfl, fun _ _ => rfl, h.congr hopen (.refl _)⟩
  | @ended r q o hx hq ha ho hr hwas hopen =>
    have honward : Execution.dues (x.onward k g a.stage) = [(q.cell, o)] := by
      rw [ha]
      rfl
    rw [Execution.dues_cons, hx, Option.toList_none, List.nil_append] at h
    rw [honward, List.singleton_append, show Scheduler.absorb f a = (f, a.stage) by
      simp [Scheduler.absorb, hr]]
    exact ⟨rfl, rfl, fun _ _ => rfl, h.ended hq ho hwas hopen⟩
  | @resolved cell o hx ha hr hopen =>
    have honward : Execution.dues (x.onward k g a.stage) = [] := by
      rw [ha]
      cases k <;> rfl
    have hdue : x.stage.due? = some (cell, o) := by rw [hx]; rfl
    rw [Execution.dues_cons, hdue, Option.toList_some, List.singleton_append] at h
    obtain ⟨f', hf', hsize, hother, hmem, h'⟩ := h.resolve
    rw [honward, List.nil_append, show Scheduler.absorb f a = (f', a.stage) by
      simp [Scheduler.absorb, hr, hf']]
    refine ⟨rfl, hsize, fun id hid => hother id fun hc => hid (hc ▸ hmem), ?_⟩
    exact h'.congr hopen (.refl _)

end Docket

omit [Payload α] in
/-- **What the binding of a graph comes to.** Workers go on with what they have to do, and
nodes get threads. -/
theorem Scheduler.bind_eq_ok {s s' : Scheduler α} {b : Binding α} {g : Graph α}
    (h : s.bind g = .ok s') (hb : s'.binding = some b) :
    s.binding = none ∧ s'.settings = s.settings ∧ s'.futures = s.futures ∧
      s'.threads.strategy = s.threads.strategy ∧
      Binding.new g s.settings.pipelineDepth s.settings.backlogCapacity = .ok b ∧
      (s.threads.load = [] → s'.threads.load = firstLoad s.threads.strategy b.graph) := by
  unfold Scheduler.bind at h
  split at h
  · cases h
  split at h
  · cases h
  next hnone =>
  split at h
  · cases h
  next b' hnew =>
  have hnone' : s.binding = none := by simpa using hnone
  split at h
  · next c hc =>
    obtain rfl := Except.ok.inj h
    obtain rfl := Option.some.inj hb
    refine ⟨hnone', rfl, rfl, rfl, hnew, fun hload => ?_⟩
    show s.threads.load = _
    rw [hload, hc]
    rfl
  · next xs hxs =>
    split at h
    · cases h
    · obtain rfl := Except.ok.inj h
      obtain rfl := Option.some.inj hb
      exact ⟨hnone', rfl, rfl, by rw [hxs]; rfl, hnew, fun _ => by
        simp [hxs, Threads.load, Threads.strategy, firstLoad]⟩

/-! ### One tenure -/

namespace Tenure

/-- **The graph was given back**, and all runs are settled. -/
structure Over (t : Tenure α) (k : Strategy) (f : Futures α)
    (taken : List (CellId × RunOutcome α)) : Prop where
  frozen : t.graph.Frozen
  numbers : t.tickets.map (·.run) = List.range t.tickets.length
  ordered : k = .dedicated → ∀ v,
    ∃ n, (t.executed.filter (·.1 == v)).map (·.2) = List.range n
  docket : Docket t.graph t.requests t.cancelled (fun _ => False) [] f taken

/-- **The graph is bound.** Pools are closed only when no run is accepted any more. -/
structure Running (t : Tenure α) (k : Strategy) (s : Scheduler α) (owner : Owner)
    (taken : List (CellId × RunOutcome α)) (b : Binding α) : Prop where
  frozen : t.graph.Frozen
  numbers : t.tickets.map (·.run) = List.range t.tickets.length
  size : 0 < t.graph.nodes.size
  depth_pos : 0 < s.settings.pipelineDepth
  sound : ∃ closed launched post, Sound k t.graph s.settings.pipelineDepth closed t.requests
    launched post t.executed b s.threads.load ∧
    (closed = true → owner ≠ .free ∨ s.isShutDown = true)
  crowded : b.table.backlog ≠ [] → b.table.free = []
  cancelled_lt : ∀ r ∈ t.cancelled, r < t.tickets.length
  docket : Docket t.graph t.requests t.cancelled b.table.Open (Execution.dues s.threads.load)
    s.futures taken

variable {t : Tenure α} {k : Strategy} {s s' : Scheduler α} {owner : Owner} {b : Binding α}
  {f f' : Futures α} {taken taken' : List (CellId × RunOutcome α)}

/-- What others do does not concern the runs of an earlier graph. -/
theorem Over.keep (h : t.Over k f taken) (hsize : f.cells.size ≤ f'.cells.size)
    (htaken : ∀ {c o}, (c, o) ∈ taken' → c < f'.cells.size)
    (hc : ∀ id ∈ t.cells, f.Keeps taken f' taken' id) : t.Over k f' taken' where
  frozen := h.frozen
  numbers := h.numbers
  ordered := h.ordered
  docket := h.docket.keep hsize htaken fun q hq => hc _ (by
    rw [← t.map_cell_requests]
    exact List.mem_map_of_mem hq)

namespace Running

/-- **A graph is bound.** -/
theorem bind {g : Graph α} (hg : g.Built) (h : s.bind g = .ok s') (hb : s'.binding = some b)
    (hk : s.threads.strategy = k) (hload : s.threads.load = [])
    (htaken : ∀ {c o}, (c, o) ∈ taken → c < s.futures.cells.size) :
    s.binding = none ∧ s'.futures = s.futures ∧ s'.threads.strategy = k ∧
      ({ graph := b.graph } : Tenure α).Running k s' .free taken b := by
  obtain ⟨hnone, hsettings, hf, hk', hnew, hfirst⟩ := Scheduler.bind_eq_ok h hb
  replace hfirst := hfirst hload
  subst hk
  obtain ⟨hfrozen, hdepth, hsize, -, -, hempty, hsound⟩ :=
    Sound.bind hg.linked hnew s.threads.strategy
  refine ⟨hnone, hf, hk', ?_⟩
  have hdues : Execution.dues (firstLoad s.threads.strategy b.graph) = [] :=
    Execution.dues_eq_nil.mpr fun y hy => by
      cases hs : s.threads.strategy with
      | stealing =>
        rw [hs] at hy
        cases hy
      | dedicated =>
        rw [hs] at hy
        obtain ⟨v, -, rfl⟩ := List.mem_map.mp hy
        rfl
  exact {
    frozen := hfrozen
    numbers := rfl
    size := hsize
    depth_pos := hsettings ▸ hdepth
    sound := ⟨false, 0, _, by rw [hfirst, hsettings]; exact hsound, nofun⟩
    crowded := fun hne => absurd hempty hne
    cancelled_lt := nofun
    docket := by
      rw [hf, hfirst, hdues]
      exact .nil b.graph _ htaken }

/-- Neither the order of the load matters, nor the owner unless pools were closed. -/
theorem congr (h : t.Running k s owner taken b) {owner' : Owner} (hs : s'.settings = s.settings)
    (hp : s'.threads.load.Perm s.threads.load) (hf : s'.futures = s.futures)
    (ho : owner ≠ .free ∨ s.isShutDown = true → owner' ≠ .free ∨ s'.isShutDown = true) :
    t.Running k s' owner' taken b where
  frozen := h.frozen
  numbers := h.numbers
  size := h.size
  depth_pos := hs ▸ h.depth_pos
  sound := by
    obtain ⟨closed, launched, post, hsound, hc⟩ := h.sound
    exact ⟨closed, launched, post, hs ▸ hsound.perm hp.symm, fun hcl => ho (hc hcl)⟩
  crowded := h.crowded
  cancelled_lt := h.cancelled_lt
  docket := hf ▸ h.docket.congr (fun _ => Iff.rfl) (hp.symm.filterMap _)

/-- What an operation of an execution means to the threads: the execution is replaced by what
it has come to, and the record gains what has fired. -/
theorem operation (h : t.Running k s owner taken b) (hk : s.threads.strategy = k) {i : Nat}
    {x : Execution α} (hx : s.threads.execution? i = some x) (hcan : x.canAdvance b = true)
    (hs' : s' = { s with
        threads := s.threads.put i (x.advance s.threads.strategy b).binding.graph x
          (x.advance s.threads.strategy b).ready
          (Scheduler.absorb s.futures (x.advance s.threads.strategy b)).2
        binding := some (x.advance s.threads.strategy b).binding
        futures := (Scheduler.absorb s.futures (x.advance s.threads.strategy b)).1 }) :
    s.fired s' i = x.fired (x.advance k b).stage ∧
      ∃ rest : List (Execution α), s.threads.load.Perm (x :: rest) ∧
        s'.threads.load.Perm (x.onward k t.graph (x.advance k b).stage ++
          (x.advance k b).ready.map .ofTask ++ rest) := by
  subst hk
  obtain ⟨rest, hload, hput⟩ := Threads.perm_put hx
  obtain ⟨closed, launched, post, hsound, -⟩ := h.sound
  have hturn := (hsound.perm hload).turn h.frozen h.size hcan
  obtain ⟨launched', post', hsound'⟩ := hturn.sound
  have hready : s.threads.strategy = .dedicated →
      (x.advance s.threads.strategy b).ready = [] := by
    intro hd
    have hbefore := (hsound.perm hload).manned
    have hafter := hsound'.manned
    rw [hd] at hbefore hafter ⊢
    exact hbefore.ready_eq_nil hafter
  have hstage := ((h.docket.congr (fun _ => Iff.rfl) (hload.filterMap _)).absorb
    (k := s.threads.strategy) hturn.effect).1
  generalize ha : x.advance s.threads.strategy b = a at *
  have hperm := hput a.binding.graph a.ready a.stage hready
  rw [Threads.onward_of_alike hsound'.alike] at hperm
  rw [hstage] at hs'
  -- what the record gains is read off the thread, which shows the stage that was reached
  have hfired : s.fired s' i = x.fired a.stage := by
    rw [← Threads.fired_put hx a.binding.graph a.ready a.stage, hs']
    simp only [Scheduler.fired, hx]
    cases (s.threads.put i a.binding.graph x a.ready a.stage).execution? i <;> rfl
  subst hs'
  exact ⟨hfired, rest, hload, hperm⟩

/-- **A thread performs an operation** of its execution. -/
theorem advance (h : t.Running k s owner taken b) (hk : s.threads.strategy = k) {i : Nat}
    {x : Execution α} (hx : s.threads.execution? i = some x) (hcan : x.canAdvance b = true)
    (hs' : s' = { s with
        threads := s.threads.put i (x.advance s.threads.strategy b).binding.graph x
          (x.advance s.threads.strategy b).ready
          (Scheduler.absorb s.futures (x.advance s.threads.strategy b)).2
        binding := some (x.advance s.threads.strategy b).binding
        futures := (Scheduler.absorb s.futures (x.advance s.threads.strategy b)).1 }) :
    s'.futures.cells.size = s.futures.cells.size ∧
      (∀ id, id ∉ t.cells → s'.futures.cell id = s.futures.cell id) ∧
      ({ t with executed := t.executed ++ s.fired s' i } : Tenure α).Running k s' owner taken
        (x.advance s.threads.strategy b).binding := by
  obtain ⟨hfired, rest, hload, hperm⟩ := h.operation hk hx hcan hs'
  subst hk
  obtain ⟨closed, launched, post, hsound, hclosed⟩ := h.sound
  have hturn := (hsound.perm hload).turn h.frozen h.size hcan
  obtain ⟨launched', post', hsound'⟩ := hturn.sound
  obtain ⟨-, hsize, hother, hdocket⟩ := (h.docket.congr (fun _ => Iff.rfl)
    (hload.filterMap _)).absorb (k := s.threads.strategy) hturn.effect
  rw [t.map_cell_requests] at hother
  rw [hfired]
  subst hs'
  exact ⟨hsize, hother, {
    frozen := h.frozen
    numbers := h.numbers
    size := h.size
    depth_pos := h.depth_pos
    sound := ⟨closed, launched', post', hsound'.perm hperm.symm, hclosed⟩
    crowded := hturn.crowded h.crowded
    cancelled_lt := h.cancelled_lt
    docket := hdocket.congr (fun _ => Iff.rfl) (hperm.symm.filterMap _) }⟩

/-- **A submission** is refused or accepted, and never ends in a panic. -/
theorem run (h : t.Running k s owner taken b) (hk : s.threads.strategy = k)
    (hb : s.binding = some b) (ho : owner = .free) (inputs : List (NodeId × α)) :
    (∃ e, s.run inputs = .refused e) ∨ ∃ staged s' b', b.graph.stageInputs inputs = .ok staged ∧
      s.run inputs = .accepted s' t.tickets.length s.futures.nextCell ∧
      s'.binding = some b' ∧ s'.threads.strategy = k ∧ s'.futures = s.futures.extend ∧
      ({ t with tickets := t.tickets ++ [⟨t.tickets.length, staged, s.futures.nextCell⟩] } :
        Tenure α).Running k s' owner taken b' := by
  subst hk
  unfold Scheduler.run
  by_cases hshut : s.isShutDown = true
  · exact Or.inl ⟨.scheduling .shutDown, by simp [hshut]⟩
  obtain ⟨closed, launched, post, hsound, hclosed⟩ := h.sound
  -- pools are closed for an owner of the scheduler only, or once it is shut down
  obtain rfl : closed = false := by
    by_contra hc
    rcases hclosed (by simpa using hc) with ho' | hs
    · exact ho' ho
    · exact hshut hs
  rw [if_neg hshut, hb]
  simp only
  have hlen : t.requests.length = t.tickets.length := by simp [Tenure.requests]
  rcases hsound.submit h.frozen h.size h.crowded inputs s.futures.nextCell with
    ⟨e, he⟩ | ⟨staged, b', tasks, hstaged, heq, hadm⟩
  · exact Or.inl ⟨e, by rw [he]⟩
  obtain ⟨launched', post', hsound'⟩ := hadm.sound
  have hperm := s.threads.perm_inject tasks
  refine Or.inr ⟨staged, { s with
      binding := some b'
      threads := s.threads.inject tasks
      futures := s.futures.extend }, b', hstaged, by rw [heq, hlen], rfl,
    s.threads.strategy_inject tasks, rfl, ?_⟩
  have hrequests : ({ t with
      tickets := t.tickets ++ [⟨t.tickets.length, staged, s.futures.nextCell⟩] } :
        Tenure α).requests = t.requests ++ [⟨staged, s.futures.nextCell⟩] := by
    simp [Tenure.requests]
  have hdues : (Execution.dues s.threads.load).Perm
      (Execution.dues (s.threads.inject tasks).load) := by
    have hp : (Execution.dues (s.threads.inject tasks).load).Perm _ := hperm.filterMap _
    rw [← Execution.dues, Execution.dues_append, Execution.dues_ofTask, List.nil_append] at hp
    exact hp.symm
  constructor
  · exact h.frozen
  · rw [List.map_append, h.numbers, List.length_append, List.length_singleton, List.range_succ]
    rfl
  · exact h.size
  · exact h.depth_pos
  · refine ⟨false, launched', post', ?_, nofun⟩
    rw [hrequests]
    exact hsound'.perm hperm.symm
  · exact hadm.crowded
  · intro r hr
    rw [List.length_append]
    exact Nat.lt_add_right _ (h.cancelled_lt r hr)
  · rw [hrequests]
    have hfresh : t.requests.length ∉ t.cancelled := fun hr =>
      Nat.lt_irrefl _ (hlen ▸ h.cancelled_lt _ hr)
    exact (h.docket.accept hfresh staged hadm.isOpen).congr (fun _ => Iff.rfl) hdues

/-- **A shutdown begins**, and the runs of the backlog are cancelled. -/
theorem close (h : t.Running k s owner taken b) (hb : s.binding = some b)
    (hs : s.isShutDown = false) :
    s.beginShutDown.binding = some { b with table := b.table.close.1 } ∧
      s.beginShutDown.threads = s.threads ∧
      s.beginShutDown.futures.cells.size = s.futures.cells.size ∧
      (∀ id, id ∉ t.cells → s.beginShutDown.futures.cell id = s.futures.cell id) ∧
      ({ t with cancelled := t.cancelled ++ s.waiting } : Tenure α).Running k s.beginShutDown
        .closing taken { b with table := b.table.close.1 } := by
  obtain ⟨closed, launched, post, hsound, -⟩ := h.sound
  have hledger := hsound.ledger
  have hstate : s.beginShutDown = { s with
      binding := some { b with table := b.table.close.1 }
      futures := s.futures.cancel (b.table.backlog.map (·.cell)) } := by
    simp [Scheduler.beginShutDown, hs, hb, Table.close]
  have hwaiting : s.waiting = b.table.backlog.map (·.objectId) := by
    simp [Scheduler.waiting, hb]
  have hnodup : (b.table.backlog.map (·.objectId)).Nodup := by
    rw [hledger.backlog_ids]
    exact List.nodup_range'
  -- no run waits and holds a slot at once, so those of the backlog end and no others
  have hopen : ∀ r, b.table.close.1.Open r ↔
      b.table.Open r ∧ r ∉ b.table.backlog.map (·.objectId) := by
    intro r
    constructor
    · rintro (hr | hr)
      · refine ⟨Or.inl hr, fun hmem => ?_⟩
        exact Nat.not_le.mpr (hledger.lt_launched hr) (hledger.launched_le_of_mem hmem)
      · cases hr
    · rintro ⟨hr | hr, hmem⟩
      · exact Or.inl hr
      · exact absurd hr hmem
  obtain ⟨hsize, hother, hdocket⟩ := h.docket.cancel hnodup
    (fun p hp => ⟨hledger.backlog_mem hp, Or.inr (List.mem_map_of_mem hp)⟩) hopen
  rw [t.map_cell_requests] at hother
  rw [hstate, hwaiting]
  refine ⟨rfl, rfl, hsize, hother, ?_⟩
  exact {
    frozen := h.frozen
    numbers := h.numbers
    size := h.size
    depth_pos := h.depth_pos
    sound := ⟨closed, launched, post, hsound.close, fun _ => Or.inl (by decide)⟩
    crowded := fun hne => absurd rfl hne
    cancelled_lt := fun r hr => by
      rcases List.mem_append.mp hr with hr | hr
      · exact h.cancelled_lt r hr
      · have := hledger.lt_length_of_open (Or.inr hr)
        rwa [Tenure.requests, List.length_map] at this
    docket := hdocket }

/-- **The threads of nodes are dismissed**, if no run is in flight. -/
theorem dismiss (h : t.Running k s owner taken b) (hb : s.binding = some b) (ho : owner ≠ .free) :
    s.dismiss.threads = s.threads ∧ s.dismiss.futures = s.futures ∧
      ∃ b', s.dismiss.binding = some b' ∧ t.Running k s.dismiss owner taken b' := by
  unfold Scheduler.dismiss
  rw [hb]
  split
  · next xs b' hxs hb' =>
    obtain rfl := Option.some.inj hb'
    split
    · next hidle =>
      refine ⟨rfl, rfl, _, rfl, ?_⟩
      obtain ⟨closed, launched, post, hsound, -⟩ := h.sound
      exact { h with
        sound := ⟨true, launched, post, hsound.dismiss (by simpa [Table.isIdle] using hidle),
          fun _ => Or.inl ho⟩ }
    · exact ⟨rfl, rfl, b, hb, h⟩
  · exact ⟨rfl, rfl, b, hb, h⟩

/-- **When nobody uses the graph any more**, all runs are settled, and workers have
nothing to do. -/
theorem ended (h : t.Running k s owner taken b) (hk : s.threads.strategy = k)
    (hb : s.binding = some b) (hr : s.isReleased = true) :
    t.Over k s.futures taken ∧ (k = .stealing → s.threads.load = []) := by
  obtain ⟨closed, launched, post, hsound, -⟩ := h.sound
  simp only [Scheduler.isReleased, Scheduler.isIdle, hb, Bool.and_eq_true, List.all_eq_true,
    Table.isIdle, beq_iff_eq] at hr
  obtain ⟨hidle, hended⟩ := hr
  have hno := hsound.ledger.inFlight_eq_zero.mp hidle
  have hopen := hsound.ledger.not_open h.depth_pos h.crowded hidle
  have hrests : ∀ x ∈ s.threads.load, x.isEngaged k t.graph = false := by
    intro x hx
    by_contra he
    obtain ⟨r, σ, st, q, -, hs, -⟩ := hsound.serving hx (by simpa using he)
    exact hno r ⟨σ, st, hs⟩
  -- whoever has ended is not about to resolve a cell
  have hmem : ∀ x ∈ s.threads.load, x.hasEnded = true ∧ k = .dedicated := by
    intro x hx
    have hrest := hsound.manned.resting hx (hrests x hx)
    cases hts : s.threads with
    | crew c =>
      rw [hts] at hx hended hk
      subst hk
      rcases Crew.mem_load hx with hx | ⟨task, rfl⟩
      · have := hended x hx
        cases hst : x.stage <;> simp_all [Execution.Rests, Execution.hasEnded, Threads.strategy]
      -- a task that nobody has started is never at rest
      · have := hrests _ (by rw [hts]; exact hx)
        simp [Execution.isEngaged, Execution.ofTask] at this
    | nodes xs =>
      rw [hts] at hx hended hk
      exact ⟨hended x hx, hk.symm⟩
  refine ⟨⟨h.frozen, h.numbers, hsound.chronicle.ordered, ?_⟩, fun hs => ?_⟩
  · have hdues : Execution.dues s.threads.load = [] :=
      Execution.dues_eq_nil.mpr fun x hx => by
        have := (hmem x hx).1
        cases hst : x.stage <;> simp_all [Execution.hasEnded, Stage.due?]
    have hdocket := h.docket
    rw [hdues] at hdocket
    exact hdocket.congr (fun r => (iff_false_intro (hopen r)).symm) (.refl _)
  · refine List.eq_nil_iff_forall_not_mem.mpr fun x hx => ?_
    have := (hmem x hx).2
    rw [hs] at this
    cases this

/-- **When nobody can go on**, the cells of all runs are resolved. -/
theorem settled (h : t.Running k s owner taken b)
    (hrest : ∀ x ∈ s.threads.load, x.canAdvance b = false) {r : ObjectId} {q : Request α}
    (hq : t.requests[r]? = some q) : (s.futures.cell q.cell).resolved = true := by
  obtain ⟨closed, launched, post, hsound, -⟩ := h.sound
  have hidle := hsound.idle_of_rest h.frozen hrest
  refine (h.docket.settled hq ?_).resolve_left ?_
  · exact hsound.ledger.not_open h.depth_pos h.crowded hidle r
  · -- whoever is about to resolve a cell can go on
    rintro ⟨o, hd⟩
    obtain ⟨x, hx, hdue⟩ := List.mem_filterMap.mp hd
    have := hrest x hx
    cases hst : x.stage <;> simp_all [Stage.due?, Execution.canAdvance]

end Running

end Tenure

/-! ### The world -/

namespace World

/-- **All tenures are in order.** -/
structure Orderly (k : Strategy) (w : World α) : Prop where
  strategy : w.scheduler.threads.strategy = k
  /-- No two futures share a cell. -/
  nodup : (w.tenures.flatMap (·.cells)).Nodup
  taken_lt : ∀ {c o}, (c, o) ∈ w.taken → c < w.scheduler.futures.cells.size
  unbound : w.scheduler.binding = none → w.scheduler.threads.load = [] ∧
    ∀ t ∈ w.tenures, t.Over k w.scheduler.futures w.taken
  bound : ∀ {b}, w.scheduler.binding = some b → ∃ t ts, w.tenures = t :: ts ∧
    t.Running k w.scheduler w.owner w.taken b ∧ ∀ t' ∈ ts, t'.Over k w.scheduler.futures w.taken

namespace Orderly

variable {k : Strategy} {w w' : World α} {s : Scheduler α} {owner : Owner}

omit [Payload α] in
/-- A cell of the last tenure belongs to no other. -/
theorem disjoint {t : Tenure α} {ts : List (Tenure α)}
    (h : ((t :: ts).flatMap (·.cells)).Nodup) {t' : Tenure α} (ht : t' ∈ ts) {id : CellId}
    (hid : id ∈ t'.cells) : id ∉ t.cells := by
  intro hmem
  rw [List.flatMap_cons, List.nodup_append] at h
  exact h.2.2 id hmem id (List.mem_flatMap.mpr ⟨t', ht, hid⟩) rfl

/-- The last tenure is that of the graph that is bound. -/
theorem running (h : w.Orderly k) {b : Binding α} (hb : w.scheduler.binding = some b)
    {t : Tenure α} {ts : List (Tenure α)} (hts : w.tenures = t :: ts) :
    t.Running k w.scheduler w.owner w.taken b := by
  obtain ⟨t', ts', hts', hrun, -⟩ := h.bound hb
  obtain ⟨rfl, rfl⟩ := List.cons.inj (hts.symm.trans hts')
  exact hrun

/-- Earlier tenures are over, whatever has become of the last one. -/
theorem over_of_others {t : Tenure α} {ts : List (Tenure α)} {f f' : Futures α}
    {taken : List (CellId × RunOutcome α)} (hn : ((t :: ts).flatMap (·.cells)).Nodup)
    (hover : ∀ t' ∈ ts, t'.Over k f taken) (hsize : f'.cells.size = f.cells.size)
    (htaken : ∀ {c o}, (c, o) ∈ taken → c < f.cells.size)
    (hsame : ∀ id, id ∉ t.cells → f'.cell id = f.cell id) : ∀ t' ∈ ts, t'.Over k f' taken :=
  fun t' ht' => (hover t' ht').keep (Nat.le_of_eq hsize.symm) (fun hc => hsize ▸ htaken hc)
    fun id hid => .of_cell_eq (hsame id (disjoint hn ht' hid))

/-- The cells of all accepted runs were made, so the next one is new. -/
theorem cell_lt (h : w.Orderly k) {t : Tenure α} (ht : t ∈ w.tenures) {id : CellId}
    (hid : id ∈ t.cells) : id < w.scheduler.futures.nextCell := by
  have hdocket : ∃ isOpen dues, Docket t.graph t.requests t.cancelled isOpen dues
      w.scheduler.futures w.taken := by
    cases hb : w.scheduler.binding with
    | none => exact ⟨_, _, ((h.unbound hb).2 t ht).docket⟩
    | some b =>
      obtain ⟨t', ts, hts, hrun, hover⟩ := h.bound hb
      rw [hts] at ht
      rcases List.mem_cons.mp ht with rfl | ht
      · exact ⟨_, _, hrun.docket⟩
      · exact ⟨_, _, (hover t ht).docket⟩
  obtain ⟨_, _, hd⟩ := hdocket
  rw [← t.map_cell_requests] at hid
  obtain ⟨q, hq, rfl⟩ := List.mem_map.mp hid
  exact hd.cell_lt hq

/-- Neither the order of the load matters, nor the owner unless pools were closed. -/
theorem congr (h : w.Orderly k) (hk : s.threads.strategy = w.scheduler.threads.strategy)
    (hb : s.binding = w.scheduler.binding) (hs : s.settings = w.scheduler.settings)
    (hp : s.threads.load.Perm w.scheduler.threads.load) (hf : s.futures = w.scheduler.futures)
    (ho : w.owner ≠ .free ∨ w.scheduler.isShutDown = true →
      owner ≠ .free ∨ s.isShutDown = true) :
    ({ w with scheduler := s, owner } : World α).Orderly k where
  strategy := hk.trans h.strategy
  nodup := h.nodup
  taken_lt := fun hc => hf ▸ h.taken_lt hc
  unbound := by
    intro hnone
    obtain ⟨hload, hover⟩ := h.unbound (hb ▸ hnone)
    rw [hload] at hp
    exact ⟨hp.eq_nil, fun t ht => hf ▸ hover t ht⟩
  bound := by
    intro b hbound
    obtain ⟨t, ts, hts, hrun, hover⟩ := h.bound (hb ▸ hbound)
    exact ⟨t, ts, hts, hrun.congr hs hp hf ho, fun t' ht' => hf ▸ hover t' ht'⟩

theorem thread (h : w.Orderly k) {i : Nat} {choice : Choice}
    (hs : w.scheduler.step i choice = some s) : (w.record s fun t =>
      { t with executed := t.executed ++ w.scheduler.fired s i }).Orderly k := by
  rcases Scheduler.step_eq_some hs with ⟨c, c', hc, hx, hstep, hs'⟩ | ⟨x, b, hx, hb, hcan, hs'⟩
  · -- a worker has looked for tasks
    have hp : (c'.load Execution.ofTask).Perm w.scheduler.threads.load := by
      rw [hc]
      exact Crew.perm_advance hstep
    have hfired : w.scheduler.fired s i = [] := by
      simp [Scheduler.fired, hc, Threads.execution?, hx]
    have hsame : (w.record s fun t =>
        { t with executed := t.executed ++ w.scheduler.fired s i }) =
        { w with scheduler := s } := by
      simp only [record, hfired, List.append_nil]
      cases w.tenures <;> rfl
    rw [hsame]
    subst hs'
    exact h.congr (by rw [hc]; rfl) rfl rfl hp rfl id
  · obtain ⟨t, ts, hts, hrun, hover⟩ := h.bound hb
    obtain ⟨hsize, hother, hrun'⟩ := hrun.advance h.strategy hx hcan hs'
    have hn := h.nodup
    rw [hts] at hn
    have hbinding : s.binding = some (x.advance w.scheduler.threads.strategy b).binding := by
      rw [hs']
    constructor
    · show s.threads.strategy = k
      rw [hs', ← h.strategy]
      exact Threads.strategy_put ..
    · simp only [record, hts]
      exact hn
    · intro c o hc
      exact hsize ▸ h.taken_lt hc
    · intro hnone
      rw [show s.binding = none from hnone] at hbinding
      cases hbinding
    · intro b' hb'
      obtain rfl := Option.some.inj (hbinding.symm.trans hb')
      refine ⟨_, ts, by simp only [record, hts, List.modifyHead_cons], hrun', ?_⟩
      exact over_of_others hn hover hsize h.taken_lt hother

theorem notice (h : w.Orderly k) {n : Nat} {choice : Choice}
    (hs : w.scheduler.stepNotice n choice = some s) :
    ({ w with scheduler := s } : World α).Orderly k := by
  obtain ⟨c, c', hc, hperm, rfl⟩ := Scheduler.stepNotice_eq_some hs
  refine h.congr (by rw [hc]; rfl) rfl rfl ?_ rfl id
  rw [hc]
  exact hperm

theorem bind (h : w.Orderly k) {g : Graph α} {b : Binding α} (ho : w.owner = .free)
    (hg : g.Built) (hs : w.scheduler.bind g = .ok s) (hb : s.binding = some b) :
    ({ w with scheduler := s, tenures := { graph := b.graph } :: w.tenures } :
      World α).Orderly k := by
  obtain ⟨hload, hover⟩ := h.unbound (Scheduler.bind_eq_ok hs hb).1
  obtain ⟨-, hf, hk, hrun⟩ := Tenure.Running.bind hg hs hb h.strategy hload h.taken_lt
  exact {
    strategy := hk
    nodup := h.nodup
    taken_lt := fun hc => hf ▸ h.taken_lt hc
    unbound := fun hnone' => by
      rw [show s.binding = none from hnone'] at hb
      cases hb
    bound := fun {b'} hb' => by
      obtain rfl := Option.some.inj (hb.symm.trans hb')
      exact ⟨_, _, rfl, ho ▸ hrun, fun t ht => hf ▸ hover t ht⟩ }

theorem accept (h : w.Orderly k) {inputs : List (NodeId × α)} {b : Binding α}
    {staged : Staged α} {run : ObjectId} {cell : CellId} (ho : w.owner = .free)
    (hb : w.scheduler.binding = some b) (hi : b.graph.stageInputs inputs = .ok staged)
    (hs : w.scheduler.run inputs = .accepted s run cell) :
    (w.record s fun t => { t with tickets := t.tickets ++ [⟨run, staged, cell⟩] }).Orderly k := by
  obtain ⟨t, ts, hts, hrun, hover⟩ := h.bound hb
  rcases hrun.run h.strategy hb ho inputs with
    ⟨e, he⟩ | ⟨staged', s', b', hi', hs', hb', hk, hf, hrun'⟩
  · rw [he] at hs
    cases hs
  rw [hs'] at hs
  cases hs
  obtain rfl := Except.ok.inj (hi.symm.trans hi')
  have hn := h.nodup
  rw [hts] at hn
  have hlt : ∀ t' ∈ t :: ts, ∀ id ∈ t'.cells, id < w.scheduler.futures.nextCell :=
    fun t' ht' id hid => h.cell_lt (hts ▸ ht') hid
  have htaken : ∀ {c o}, (c, o) ∈ w.taken → c < s.futures.cells.size := by
    intro c o hc
    rw [hf]
    exact Nat.lt_of_lt_of_le (h.taken_lt hc) (by simp [Futures.extend])
  constructor
  · exact hk
  · simp only [record, hts, List.modifyHead_cons, List.flatMap_cons]
    have hcells : ({ t with
        tickets := t.tickets ++ [⟨t.tickets.length, staged, w.scheduler.futures.nextCell⟩] } :
          Tenure α).cells = t.cells ++ [w.scheduler.futures.nextCell] := by
      simp [Tenure.cells]
    rw [hcells, List.append_assoc]
    refine (List.perm_middle.nodup_iff).mpr (List.nodup_cons.mpr ⟨fun hmem => ?_, hn⟩)
    obtain ⟨t', ht', hid⟩ := List.mem_flatMap.mp (show _ ∈ (t :: ts).flatMap (·.cells) from hmem)
    exact Nat.lt_irrefl _ (hlt t' ht' _ hid)
  · exact htaken
  · intro hnone
    rw [show s.binding = none from hnone] at hb'
    cases hb'
  · intro b'' hb''
    obtain rfl := Option.some.inj (hb'.symm.trans hb'')
    refine ⟨_, ts, by simp only [record, hts, List.modifyHead_cons], hrun', fun t' ht' => ?_⟩
    refine (hover t' ht').keep ?_ htaken fun id hid => .of_cell_eq ?_
    · rw [show (w.record s _).scheduler.futures = s.futures from rfl, hf]
      simp [Futures.extend]
    · rw [show (w.record s _).scheduler.futures = s.futures from rfl, hf]
      exact Futures.cell_extend _ (hlt t' (List.mem_cons_of_mem _ ht') id hid)

/-- No call for a run ends in a panic. -/
theorem not_burst (h : w.Orderly k) (ho : w.owner = .free) (inputs : List (NodeId × α))
    (f : Fault) : w.scheduler.run inputs ≠ .broken s f := by
  intro hs
  cases hb : w.scheduler.binding with
  | none =>
    unfold Scheduler.run at hs
    rw [hb] at hs
    split at hs <;> cases hs
  | some b =>
    obtain ⟨t, ts, hts, hrun, -⟩ := h.bound hb
    rcases hrun.run h.strategy hb ho inputs with ⟨e, he⟩ | ⟨_, _, _, -, he, -⟩
    · rw [he] at hs
      cases hs
    · rw [he] at hs
      cases hs

theorem use (h : w.Orderly k) {cell : CellId} {got : Option (RunOutcome α)} {c : Cell α}
    (hc : (w.scheduler.futures.cell cell).Used got c) : ({ w with
      scheduler := { w.scheduler with futures := w.scheduler.futures.setCell cell c }
      taken := w.taken ++ got.toList.map (cell, ·) } : World α).Orderly k := by
  have hsize := Futures.size_setCell w.scheduler.futures cell c
  have hkeeps : ∀ id, w.scheduler.futures.Keeps w.taken _ _ id :=
    Futures.keeps_setCell hc.spent
  have htaken : ∀ {id o}, (id, o) ∈ w.taken ++ got.toList.map (cell, ·) →
      id < (w.scheduler.futures.setCell cell c).cells.size := by
    intro id o hmem
    rw [hsize]
    rcases List.mem_append.mp hmem with hmem | hmem
    · exact h.taken_lt hmem
    · obtain ⟨o', ho', he⟩ := List.mem_map.mp hmem
      obtain rfl := Option.mem_toList.mp ho'
      obtain rfl : cell = id := (Prod.mk.inj he).1
      exact Futures.lt_of_spent hc.spent
  -- one use of a future is all that happens, whoever the future belongs to
  have hover : ∀ {t : Tenure α}, t.Over k w.scheduler.futures w.taken →
      t.Over k (w.scheduler.futures.setCell cell c) (w.taken ++ got.toList.map (cell, ·)) :=
    fun ht => ht.keep (Nat.le_of_eq hsize.symm) htaken fun id _ => hkeeps id
  constructor
  · exact h.strategy
  · exact h.nodup
  · exact htaken
  · intro hnone
    obtain ⟨hload, hall⟩ := h.unbound hnone
    exact ⟨hload, fun t ht => hover (hall t ht)⟩
  · intro b hb
    obtain ⟨t, ts, hts, hrun, hall⟩ := h.bound hb
    refine ⟨t, ts, hts, ?_, fun t' ht' => hover (hall t' ht')⟩
    exact { hrun with
      docket := hrun.docket.keep (Nat.le_of_eq hsize.symm) htaken fun q _ => hkeeps q.cell }

theorem dismiss (h : w.Orderly k) (ho : w.owner ≠ .free) :
    ({ w with scheduler := w.scheduler.dismiss } : World α).Orderly k := by
  cases hb : w.scheduler.binding with
  | none =>
    have hsame : w.scheduler.dismiss = w.scheduler := by
      unfold Scheduler.dismiss
      rw [hb]
      split
      · next hb' => cases hb'
      · rfl
    rw [hsame]
    exact h
  | some b =>
    obtain ⟨t, ts, hts, hrun, hover⟩ := h.bound hb
    obtain ⟨hthreads, hf, b', hb', hrun'⟩ := hrun.dismiss hb ho
    exact {
      strategy := by
        show w.scheduler.dismiss.threads.strategy = k
        rw [hthreads]
        exact h.strategy
      nodup := h.nodup
      taken_lt := fun hc => hf ▸ h.taken_lt hc
      unbound := fun hnone => by
        rw [show w.scheduler.dismiss.binding = none from hnone] at hb'
        cases hb'
      bound := fun {b''} hb'' => by
        obtain rfl := Option.some.inj (hb'.symm.trans hb'')
        refine ⟨t, ts, hts, hrun', fun t' ht' => ?_⟩
        show t'.Over k w.scheduler.dismiss.futures w.taken
        rw [hf]
        exact hover t' ht' }

theorem unbind (h : w.Orderly k) {g : Graph α}
    (hs : w.scheduler.unbind = some (.ok (g, s))) :
    ({ w with scheduler := s, owner := .free } : World α).Orderly k := by
  unfold Scheduler.unbind at hs
  split at hs
  · cases hs
  next b hb =>
  split at hs
  swap
  · cases hs
  next hr =>
  obtain ⟨-, rfl⟩ := Prod.mk.inj (Except.ok.inj (Option.some.inj hs))
  obtain ⟨t, ts, hts, hrun, hover⟩ := h.bound hb
  -- the last tenure joins those that are over
  obtain ⟨hover', hload⟩ := hrun.ended h.strategy hb hr
  have hall : ∀ t' ∈ w.tenures, t'.Over k w.scheduler.futures w.taken := by
    intro t' ht'
    rw [hts] at ht'
    rcases List.mem_cons.mp ht' with rfl | ht'
    · exact hover'
    · exact hover t' ht'
  cases hth : w.scheduler.threads with
  | crew c =>
    have hk := h.strategy
    rw [hth] at hk hload
    exact {
      strategy := hk
      nodup := h.nodup
      taken_lt := h.taken_lt
      unbound := fun _ => ⟨hload hk.symm, hall⟩
      bound := nofun }
  | nodes xs =>
    have hk := h.strategy
    rw [hth] at hk
    exact {
      strategy := hk
      nodup := h.nodup
      taken_lt := h.taken_lt
      unbound := fun _ => ⟨rfl, hall⟩
      bound := nofun }

theorem beginShutDown (h : w.Orderly k) (hs : w.scheduler.isShutDown = false) :
    ({ w.record w.scheduler.beginShutDown fun t =>
      { t with cancelled := t.cancelled ++ w.scheduler.waiting } with owner := .closing } :
      World α).Orderly k := by
  cases hb : w.scheduler.binding with
  -- without a graph there is no backlog to cancel
  | none =>
    have hsame : w.scheduler.beginShutDown = w.scheduler := by
      simp [Scheduler.beginShutDown, hs, hb]
    have htenures : (w.tenures.modifyHead fun t =>
        { t with cancelled := t.cancelled ++ w.scheduler.waiting }) = w.tenures := by
      simp only [Scheduler.waiting, hb, List.append_nil]
      cases w.tenures <;> rfl
    simp only [record, hsame, htenures]
    exact h.congr rfl rfl rfl (.refl _) rfl fun _ => Or.inl nofun
  | some b =>
    obtain ⟨t, ts, hts, hrun, hover⟩ := h.bound hb
    obtain ⟨hb', hthreads, hsize, hother, hrun'⟩ := hrun.close hb hs
    have hn := h.nodup
    rw [hts] at hn
    exact {
      strategy := by
        show w.scheduler.beginShutDown.threads.strategy = k
        rw [hthreads]
        exact h.strategy
      nodup := by
        simp only [record, hts]
        exact hn
      taken_lt := fun hc => hsize ▸ h.taken_lt hc
      unbound := fun hnone => by
        rw [show w.scheduler.beginShutDown.binding = none from hnone] at hb'
        cases hb'
      bound := fun {b''} hb'' => by
        obtain rfl := Option.some.inj (hb'.symm.trans hb'')
        refine ⟨_, ts, by simp only [record, hts, List.modifyHead_cons], hrun', ?_⟩
        exact over_of_others hn hover hsize h.taken_lt hother }

theorem finishShutDown (h : w.Orderly k) (hs : w.scheduler.finishShutDown = some s) :
    ({ w with scheduler := s, owner := .free } : World α).Orderly k := by
  unfold Scheduler.finishShutDown at hs
  split at hs
  · next hshut =>
    obtain rfl := Option.some.inj hs
    exact h.congr rfl rfl rfl (.refl _) rfl fun _ => Or.inr hshut
  · split at hs
    · cases hs
    · obtain rfl := Option.some.inj hs
      cases hth : w.scheduler.threads with
      | crew c =>
        refine h.congr (by rw [hth]; rfl) rfl rfl ?_ rfl fun _ => Or.inr rfl
        rw [hth]
        exact .of_eq c.load_stop
      | nodes xs =>
        refine h.congr (by rw [hth]) rfl rfl ?_ rfl fun _ => Or.inr rfl
        rw [hth]

/-- **Every operation of anybody** keeps all tenures in order. -/
theorem step (h : w.Orderly k) (hs : w.Step w') : w'.Orderly k := by
  cases hs with
  | thread hs => exact h.thread hs
  | notice hs => exact h.notice hs
  | bind ho hg hs hb => exact h.bind ho hg hs hb
  | accept ho hb hi hs => exact h.accept ho hb hi hs
  | burst ho hs => exact absurd hs (h.not_burst ho _ _)
  | use hc => exact h.use hc
  | leave ho hb => exact h.congr rfl rfl rfl (.refl _) rfl fun _ => Or.inl nofun
  | dismiss ho => exact h.dismiss ho
  | unbind ho hs => exact h.unbind hs
  | beginShutDown ho hs => exact h.beginShutDown hs
  | finishShutDown ho hs => exact h.finishShutDown hs

end Orderly

/-- **All tenures are in order** in every reachable world. -/
theorem Reachable.orderly {k : Strategy} {w : World α} (h : w.Reachable k) : w.Orderly k := by
  induction h with
  | @start settings processors s h =>
    -- a new scheduler has no graph, and its threads have nothing to do
    have hnew : s.threads.strategy = k ∧ s.binding = none ∧ s.threads.load = [] := by
      unfold Scheduler.new at h
      split at h
      · cases h
      · split at h
        · obtain rfl := Except.ok.inj h
          exact ⟨rfl, rfl, rfl⟩
        · simp only at h
          split at h
          · cases h
          · obtain rfl := Except.ok.inj h
            exact ⟨rfl, rfl, Crew.load_new _⟩
    exact {
      strategy := hnew.1
      nodup := List.nodup_nil
      taken_lt := nofun
      unbound := fun _ => ⟨hnew.2.2, nofun⟩
      bound := fun {b} hb => by
        rw [show s.binding = some b from hb] at hnew
        cases hnew.2.1 }
  | step _ hs ih => exact ih.step hs

end World

end Dataflow
