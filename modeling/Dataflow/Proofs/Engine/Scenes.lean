import Dataflow.Proofs.Engine.Moves

/-!
# Invariants of histories

A `Scene` is what threads share and have to do, together with the record of executions and
the history of deeds. What holds of all scenes is shown by following four kinds of change,
`Stable`: a graph is bound, a move is made, the oldest run of the backlog is launched, or
something happens that concerns neither slots nor executions. An operation of an
execution is a move, or a move and a launch (`Stable.advance`); the acceptance of a run is
nothing but a launch, if a slot is free (`Stable.accept`).
-/

namespace Dataflow

variable {α : Type}

/-! ### Counts of executions -/

namespace Graph

variable {g : Graph α}

/-- How often a node was executed, and how often its callback has come to an end. -/
def tally (g : Graph α) (v : NodeId) : Option (Nat × Nat) :=
  g.stations[v]?.map fun p => (p.runs, p.timed)

theorem tally_modify (f : Station α → Station α) (u v : NodeId)
    (hf : ∀ p, (f p).runs = p.runs ∧ (f p).timed = p.timed) :
    ({ g with stations := g.stations.modify u f } : Graph α).tally v = g.tally v := by
  simp only [tally, Array.getElem?_modify]
  split
  · cases g.stations[v]? <;> simp [hf]
  · rfl

@[simp] theorem tally_setPool (c : Channel) (p : Pool (Entry α)) (v : NodeId) :
    (g.setPool c p).tally v = g.tally v := by
  cases c with
  | staging u => exact tally_modify _ u v fun _ => ⟨rfl, rfl⟩
  | edge u w => exact tally_modify _ u v fun _ => ⟨rfl, rfl⟩

theorem tally_closePools (v : NodeId) : g.closePools.tally v = g.tally v := by
  simp only [tally, closePools, Array.getElem?_map]
  cases g.stations[v]? <;> rfl

theorem tally_stageEntries {staged : Staged α} {run : ObjectId} {g' : Graph α}
    (h : Binding.stageEntries g run staged = (.ok (), g')) (v : NodeId) :
    g'.tally v = g.tally v := by
  induction staged generalizing g with
  | nil =>
    obtain rfl := (Prod.mk.inj h).2
    rfl
  | cons p staged ih =>
    obtain ⟨u, e⟩ := p
    simp only [Binding.stageEntries] at h
    split at h
    · cases h
    · split at h
      · cases h
      · rw [ih h, tally_setPool]

theorem tally_start {b b' : Binding α} {a : Admitted α} {tasks : List Task}
    (h : b.start a = (.ok tasks, b')) (v : NodeId) : b'.graph.tally v = b.graph.tally v := by
  unfold Binding.start at h
  split at h
  · cases h
  · next hstage =>
    rw [← (Prod.mk.inj h).2]
    exact tally_stageEntries hstage v

end Graph

/-! ### Scenes -/

/-- What threads share and have to do, and what has been done so far. -/
structure Scene (α : Type) where
  /-- The graph as it was bound. -/
  graph : Graph α
  requests : List (Request α)
  /-- The runs that waited in the backlog when the scheduler was shut down. -/
  cancelled : List ObjectId
  executed : List (NodeId × ObjectId)
  binding : Binding α
  load : List (Execution α)
  /-- The deeds since the graph was bound. -/
  trail : List (Deed α)

namespace Scene

/-- Nothing has been done yet. -/
def first (k : Strategy) (b : Binding α) : Scene α where
  graph := b.graph
  requests := []
  cancelled := []
  executed := []
  binding := b
  load := firstLoad k b.graph
  trail := []

/-- An execution makes a move. -/
def move (s : Scene α) (k : Strategy) (x : Execution α) (rest : List (Execution α))
    (a : Advance α) (ds : List (Deed α)) : Scene α :=
  { s with
    executed := s.executed ++ x.fired a.stage
    binding := a.binding
    load := x.onward k s.graph a.stage ++ a.ready.map .ofTask ++ rest
    trail := s.trail ++ ds }

/-- A run is launched from the backlog into a free slot, and staged. -/
def launch (s : Scene α) (k : Strategy) (seat : Seat) (graph : Graph α) : Scene α :=
  { s with
    binding := ⟨graph, s.binding.table.promote⟩
    load := (firstTasks k s.graph seat.slot).map .ofTask ++ s.load
    trail := s.trail ++ Deed.launch seat (firstTasks k s.graph seat.slot) }

/-- The run waits for a slot, or did so when it was cancelled. -/
def Waits (s : Scene α) (r : ObjectId) : Prop :=
  r ∈ s.binding.table.backlog.map (·.objectId) ∨ r ∈ s.cancelled

/-- What happens concerns neither slots nor executions, except for their order. Runs that
are accepted have to wait, and those that wait are not forgotten. -/
structure Aside (s s' : Scene α) : Prop where
  graph : s'.graph = s.graph
  requests : s.requests <+: s'.requests
  waits : ∀ r, s'.Waits r ↔ s.Waits r ∨ s.requests.length ≤ r ∧ r < s'.requests.length
  executed : s'.executed = s.executed
  statuses : s'.binding.table.statuses = s.binding.table.statuses
  tally : ∀ v, s'.binding.graph.tally v = s.binding.graph.tally v
  load : s.load.Perm s'.load
  trail : s'.trail = s.trail

variable [Payload α]

/-- The scene is sound, and its graph can be executed. -/
structure Sound (s : Scene α) (k : Strategy) : Prop where
  frozen : s.graph.Frozen
  size : 0 < s.graph.nodes.size
  sound : ∃ depth closed launched post, Dataflow.Sound k s.graph depth closed s.requests launched
    post s.executed s.binding s.load

end Scene

variable [Payload α]

/-- The next run of the backlog is launched, and what is left to do is then in some order. -/
inductive Scene.Succeeds (k : Strategy) (s : Scene α) : Scene α → Prop where
  | intro {next : Pending α} {backlog : List (Pending α)} {σ : SlotId} {free : List SlotId}
      {graph : Graph α} {load : List (Execution α)}
      (hb : s.binding.table.backlog = next :: backlog) (hf : s.binding.table.free = σ :: free)
      (ht : ∀ v, graph.tally v = s.binding.graph.tally v)
      (hs : (s.launch k ⟨σ, next.objectId⟩ graph).Sound k)
      (hp : (s.launch k ⟨σ, next.objectId⟩ graph).load.Perm load) :
      Succeeds k s { s.launch k ⟨σ, next.objectId⟩ graph with load }

/-- **An operation of an execution is a move**, or the end of a run and the launch of the
next one. -/
theorem Scene.Sound.advance {s : Scene α} {k : Strategy} (hs : s.Sound k) {x : Execution α}
    {rest : List (Execution α)} (hload : s.load = x :: rest)
    (hcan : x.canAdvance s.binding = true) :
    ∃ a ds, Move k s.graph s.binding x a ds ∧ (s.move k x rest a ds).Sound k ∧
      (s.move k x rest (x.advance k s.binding) (x.deeds k s.binding) = s.move k x rest a ds ∨
      (s.move k x rest a ds).Succeeds k
        (s.move k x rest (x.advance k s.binding) (x.deeds k s.binding))) := by
  obtain ⟨depth, closed, launched, post, hsound⟩ := hs.sound
  rw [hload] at hsound
  obtain ⟨launched', post', hafter⟩ := (hsound.turn hs.frozen hs.size hcan).sound
  have hs' : (s.move k x rest (x.advance k s.binding) (x.deeds k s.binding)).Sound k :=
    ⟨hs.frozen, hs.size, depth, closed, launched', post', hafter⟩
  rcases hsound.advance_moves hs.frozen hs.size hcan with hm | ⟨seat, hst⟩
  · exact ⟨_, _, hm, hs', Or.inl rfl⟩
  rcases hsound.move_completing hs.frozen hst with
    hm | ⟨σ, st, a, ds, next, backlog, free, graph, hm, hb, hready, ⟨post'', hended⟩, hbacklog,
      hfree, hstage, hadvance, hdeeds⟩
  · exact ⟨_, _, hm, hs', Or.inl rfl⟩
  -- the run ends, and then the next one is launched
  have hfired : x.fired (x.advance k s.binding).stage = x.fired a.stage := by rw [hadvance]
  have hperm : ((s.move k x rest a ds).launch k ⟨σ, next.objectId⟩ graph).load.Perm
      (s.move k x rest (x.advance k s.binding) (x.deeds k s.binding)).load := by
    rw [hadvance]
    simp only [Scene.launch, Scene.move, hready, List.map_nil, List.append_nil]
    exact List.perm_append_comm_assoc .. |>.trans (.of_eq (List.append_assoc ..).symm)
  have heq : s.move k x rest (x.advance k s.binding) (x.deeds k s.binding) =
      { (s.move k x rest a ds).launch k ⟨σ, next.objectId⟩ graph with
        load := (s.move k x rest (x.advance k s.binding) (x.deeds k s.binding)).load } := by
    simp only [Scene.launch, Scene.move, hdeeds, hfired, List.append_assoc, Scene.mk.injEq,
      true_and, and_true]
    rw [hadvance]
  refine ⟨a, ds, hm, ⟨hs.frozen, hs.size, depth, false, launched, post'', hended⟩, Or.inr ?_⟩
  rw [heq]
  refine .intro hbacklog hfree (Graph.tally_stageEntries hstage) ?_ hperm
  refine ⟨hs.frozen, hs.size, depth, closed, launched', post', ?_⟩
  have hp := hafter.perm hperm.symm
  rw [hfired] at hp
  have hbinding : (x.advance k s.binding).binding = ⟨graph, a.binding.table.promote⟩ := by
    rw [hadvance]
  rw [hbinding] at hp
  exact hp

/-- **What all histories have in common** holds in the beginning, and is kept by every
change. -/
structure Stable (k : Strategy) (P : Scene α → Prop) : Prop where
  first : ∀ {depth : Nat} {b : Binding α}, b.graph.Frozen →
    Sound k b.graph depth false [] 0 (fun _ _ => .waiting) [] b (firstLoad k b.graph) →
    P (.first k b)
  aside : ∀ {s s' : Scene α}, s.Aside s' → P s → P s'
  move : ∀ {s : Scene α} {x : Execution α} {rest : List (Execution α)} {a : Advance α}
    {ds : List (Deed α)}, s.Sound k → s.load = x :: rest → Move k s.graph s.binding x a ds →
    (s.move k x rest a ds).Sound k → P s → P (s.move k x rest a ds)
  launch : ∀ {s : Scene α} {next : Pending α} {backlog : List (Pending α)} {σ : SlotId}
    {free : List SlotId} {graph : Graph α}, s.Sound k →
    s.binding.table.backlog = next :: backlog → s.binding.table.free = σ :: free →
    next.objectId ∉ s.cancelled → (∀ v, graph.tally v = s.binding.graph.tally v) →
    (s.launch k ⟨σ, next.objectId⟩ graph).Sound k → P s →
    P (s.launch k ⟨σ, next.objectId⟩ graph)

namespace Stable

variable {k : Strategy} {P Q : Scene α → Prop} {s : Scene α}

/-- The order of what is left to do does not matter. -/
theorem perm (hP : Stable k P) {load : List (Execution α)} (hp : s.load.Perm load) (h : P s) :
    P { s with load } := by
  refine hP.aside (s := s) ⟨rfl, List.prefix_rfl, fun r => ?_, rfl, rfl, fun _ => rfl, hp, rfl⟩ h
  exact (or_iff_left fun hr => Nat.not_lt.mpr hr.1 hr.2).symm

/-- **An operation of an execution** keeps what every change keeps. -/
theorem advance (hP : Stable k P) {x : Execution α} {rest : List (Execution α)}
    (hs : s.Sound k) (hload : s.load = x :: rest) (hcan : x.canAdvance s.binding = true)
    (hcancelled : ∀ r ∈ s.cancelled, ¬ s.binding.table.Open r) (h : P s) :
    P (s.move k x rest (x.advance k s.binding) (x.deeds k s.binding)) := by
  obtain ⟨a, ds, hm, hs', heq | hnext⟩ := hs.advance hload hcan
  · rw [heq]
    exact hP.move hs hload hm hs' h
  · have hmoved := hP.move hs hload hm hs' h
    generalize s.move k x rest (x.advance k s.binding) (x.deeds k s.binding) = s₁ at hnext ⊢
    obtain ⟨hb, hf, ht, hl, hp⟩ := hnext
    refine hP.perm hp (hP.launch hs' hb hf (fun hr => hcancelled _ hr (Or.inr ?_)) ht hl hmoved)
    rw [← hm.backlog, show a.binding.table.backlog = _ from hb]
    exact List.mem_cons_self ..

/-- A run that is put on the backlog waits, and nothing else has changed. -/
theorem queue (hP : Stable k P) {depth launched : Nat} {closed : Bool}
    {post : ObjectId → NodeId → Post α}
    (hs : Sound k s.graph depth closed s.requests launched post s.executed s.binding s.load)
    (staged : Staged α) (cell : CellId) (h : P s) :
    P { s with
      requests := s.requests ++ [⟨staged, cell⟩]
      binding := { s.binding with table := s.binding.table.enqueue ⟨staged, cell⟩ } } := by
  refine hP.aside (s := s)
    ⟨rfl, List.prefix_append .., fun r => ?_, rfl, rfl, fun _ => rfl, .refl _, rfl⟩ h
  have hnew : s.requests.length ≤ r ∧ r < s.requests.length + 1 ↔ r = s.requests.length := by
    rw [Nat.lt_succ_iff]
    exact and_comm.trans Nat.le_antisymm_iff.symm
  simp only [Scene.Waits, Table.enqueue, hs.ledger.nextId_eq, List.map_append,
    List.map_singleton, List.mem_append, List.mem_singleton, List.length_append,
    List.length_singleton, hnew]
  exact or_right_comm

/-- **The acceptance of a run** keeps what every change keeps: the run is put on the backlog,
and launched if a slot is free. -/
theorem accept (hP : Stable k P) {depth launched : Nat} {post : ObjectId → NodeId → Post α}
    (hg : s.graph.Frozen) (hsize : 0 < s.graph.nodes.size)
    (hs : Sound k s.graph depth false s.requests launched post s.executed s.binding s.load)
    (hcrowd : s.binding.table.backlog ≠ [] → s.binding.table.free = [])
    (hcancelled : ∀ r ∈ s.cancelled, r < s.requests.length) {inputs : List (NodeId × α)}
    {staged : Staged α} {cell : CellId} {b : Binding α} {run : ObjectId} {tasks : List Task}
    (hstaged : s.binding.graph.stageInputs inputs = .ok staged)
    (hsub : s.binding.submit inputs cell = .accepted b run tasks) (h : P s) :
    P { s with
      requests := s.requests ++ [⟨staged, cell⟩]
      binding := b
      load := (if k = .stealing then tasks else []).map .ofTask ++ s.load
      trail := s.trail ++ s.binding.admission k staged cell } := by
  simp only [Binding.submit, hstaged] at hsub
  have hopen : s.binding.table.isClosed = false := by
    by_contra hc
    rw [Bool.not_eq_false] at hc
    simp [Table.submit, hc] at hsub
  have hsources : staged.map (·.1) = s.graph.sources :=
    (Graph.map_fst_stageInputs hstaged).trans hs.alike.sources
  -- the run waits, at least for a moment
  let b₁ : Binding α := { s.binding with table := s.binding.table.enqueue ⟨staged, cell⟩ }
  let s₁ : Scene α := { s with requests := s.requests ++ [⟨staged, cell⟩], binding := b₁ }
  have hqueued : Sound k s.graph depth false (s.requests ++ [⟨staged, cell⟩]) launched post
      s.executed b₁ s.load := hs.enqueue hopen hsources
  have haside : P s₁ := hP.queue hs staged cell h
  have heq := hs.ledger.submit_eq hopen hcrowd ⟨staged, cell⟩
  cases hf : s.binding.table.free with
  | nil =>
    rw [hf] at heq
    by_cases hfull : s.binding.table.backlogCapacity ≤ s.binding.table.backlog.length
    · simp [heq, hfull] at hsub
    · simp only [heq, if_neg hfull, Binding.Accepted.accepted.injEq] at hsub
      obtain ⟨rfl, -, rfl⟩ := hsub
      simpa [Binding.admission, heq, hfull] using haside
  | cons σ free =>
    rw [hf] at heq
    have hnone : s.binding.table.backlog = [] := by
      by_contra hne
      simp [hcrowd hne] at hf
    have hb : b₁.table.backlog = ⟨s.binding.table.nextId, staged, cell⟩ :: [] := by
      simp [b₁, Table.enqueue, hnone]
    obtain ⟨graph, hstart, post', hlaunched⟩ := hqueued.launch hg hsize hb hf
    have htally := Graph.tally_start hstart
    simp only [b₁] at hstart
    simp only [heq, hstart, Binding.Accepted.accepted.injEq] at hsub
    obtain ⟨rfl, -, rfl⟩ := hsub
    have hwaited : s.binding.table.nextId ∉ s.cancelled := fun hr => by
      have := hcancelled _ hr
      rw [hs.ledger.nextId_eq] at this
      exact Nat.lt_irrefl _ this
    have hstep := hP.launch (s := s₁) ⟨hg, hsize, depth, false, launched, post, hqueued⟩ hb hf
      hwaited htally ⟨hg, hsize, depth, false, launched + 1, post', hlaunched⟩ haside
    simpa only [Scene.launch, s₁, b₁, Binding.admission, heq, firstTasks, hs.alike.sources]
      using hstep

end Stable

end Dataflow
