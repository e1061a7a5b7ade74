import Dataflow.Engine.Execution
import Dataflow.Proofs.Graph.Fresh

/-!
# The past of a graph

A graph that was given back remembers how often its nodes were executed, and the index of its
names has grown with it. A graph that was built anew in the same way has counted nothing. The
two differ in their `Past`, and in nothing else once they are bound: freezing throws away all
that pools held before.

Nobody who executes nodes, stages entries or admits runs ever looks at what a graph has
counted. So each of these operations comes to the same with any past, and leaves that past
alone (`Execution.advance_withPast`, `Binding.submit_withPast`).
-/

namespace Dataflow

variable {α : Type}

/-- What a graph may remember of earlier times: the index of its names, and for each node how
often it was executed, and its callback called. -/
structure Past where
  names : Std.HashMap String NodeId
  runs : NodeId → Nat
  timed : NodeId → Nat

/-- Adds to the counts of a node. -/
def Station.withPast (p : Station α) (runs timed : Nat) : Station α :=
  { p with runs := runs + p.runs, timed := timed + p.timed }

namespace Graph

/-- The same graph with another past before its own counts. -/
def withPast (g : Graph α) (h : Past) : Graph α :=
  { g with
    names := h.names
    stations := g.stations.mapIdx fun id p => p.withPast (h.runs id) (h.timed id) }

/-- What a graph remembers. -/
def past (g : Graph α) : Past where
  names := g.names
  runs id := (g.stations[id]?.map (·.runs)).getD 0
  timed id := (g.stations[id]?.map (·.timed)).getD 0

variable (g : Graph α) (h : Past)

@[simp] theorem pool?_withPast (c : Channel) : (g.withPast h).pool? c = g.pool? c := by
  cases c with
  | staging id =>
    simp only [pool?, withPast, Array.getElem?_mapIdx, Option.map_map]
    rfl
  | edge u v =>
    simp only [pool?, withPast, Array.getElem?_mapIdx, Option.bind_map]
    rfl

@[simp] theorem entryOf?_withPast (c : Channel) (run : ObjectId) :
    (g.withPast h).entryOf? c run = g.entryOf? c run := by
  simp only [entryOf?, pool?_withPast]

/-- A change of one station that does not look at its counts comes to the same with any
past. -/
theorem modify_withPast (id : NodeId) (f : Station α → Station α)
    (hf : ∀ p runs timed, f (p.withPast runs timed) = (f p).withPast runs timed) :
    ({ g.withPast h with stations := (g.withPast h).stations.modify id f } : Graph α) =
      ({ g with stations := g.stations.modify id f } : Graph α).withPast h := by
  have hstations : (g.withPast h).stations.modify id f =
      (g.stations.modify id f).mapIdx fun id p => p.withPast (h.runs id) (h.timed id) := by
    refine Array.ext_getElem? fun v => ?_
    simp only [withPast, Array.getElem?_modify, Array.getElem?_mapIdx]
    split
    · next hv =>
      subst hv
      simp only [Option.map_map]
      exact congrFun (congrArg Option.map (funext fun p => hf p _ _)) _
    · rfl
  rw [hstations]
  rfl

theorem setPool_withPast (c : Channel) (p : Pool (Entry α)) :
    (g.withPast h).setPool c p = (g.setPool c p).withPast h := by
  cases c with
  | staging id => exact g.modify_withPast h id _ fun _ _ _ => rfl
  | edge u v => exact g.modify_withPast h u _ fun _ _ _ => rfl

theorem countRun_withPast (id : NodeId) : (g.withPast h).countRun id = (g.countRun id).withPast h :=
  g.modify_withPast h id _ fun _ _ _ => rfl

theorem countCall_withPast (id : NodeId) :
    (g.withPast h).countCall id = (g.countCall id).withPast h :=
  g.modify_withPast h id _ fun _ _ _ => rfl

/-- A change of all stations that does not look at counts comes to the same with any past. -/
theorem map_withPast (f : Station α → Station α)
    (hf : ∀ p runs timed, f (p.withPast runs timed) = (f p).withPast runs timed) :
    (g.withPast h).stations.map f =
      (g.stations.map f).mapIdx fun id p => p.withPast (h.runs id) (h.timed id) := by
  refine Array.ext_getElem? fun v => ?_
  simp only [withPast, Array.getElem?_map, Array.getElem?_mapIdx, Option.map_map]
  exact congrFun (congrArg Option.map (funext fun p => hf p _ _)) _

theorem closePools_withPast : (g.withPast h).closePools = g.closePools.withPast h := by
  have hstations := g.map_withPast h (·.close) fun _ _ _ => rfl
  simp only [closePools, hstations]
  rfl

theorem thaw_withPast : (g.withPast h).thaw = g.thaw.withPast h := by
  have hstations := g.map_withPast h (·.release) fun _ _ _ => rfl
  simp only [thaw, hstations]
  rfl

/-- **Freezing throws away what pools held.** A graph is prepared in the same way as one that
was only built, and only its past is its own. -/
theorem prepare_of_fresh {g g₀ : Graph α} (hg : g.Linked) (h₀ : g₀.Fresh)
    (hn : g₀.nodes = g.nodes) (depth : Nat) (order : Array NodeId)
    (levels : Array (Option Nat)) :
    g.prepare depth order levels = (g₀.prepare depth order levels).withPast g.past := by
  have hstations : (g.prepare depth order levels).stations =
      ((g₀.prepare depth order levels).withPast g.past).stations := by
    refine Array.ext_getElem? fun v => ?_
    simp only [prepare, withPast, past, Array.getElem?_mapIdx, h₀.untouched.2, hn]
    by_cases hv : v < g.nodes.size
    · obtain ⟨n, hnode⟩ := node_of_lt hv
      have hlt : v < g.stations.size := hg.size_stations.symm ▸ hv
      simp only [hnode, Array.getElem?_replicate, hv, if_true, Array.getElem?_eq_getElem hlt,
        Option.map_some, Option.getD_some]
      rfl
    · have hle : g.stations.size ≤ v := hg.size_stations ▸ Nat.not_lt.mp hv
      simp [hv, Array.getElem?_eq_none hle]
  have hplan : (g.prepare depth order levels).plan = (g₀.prepare depth order levels).plan := by
    simp only [prepare, collect, hn]
  exact (Graph.mk.injEq ..).mpr ⟨hn.symm, rfl, hstations, hplan⟩

/-- **Any graph is frozen as if it had only been built**, apart from its past. -/
theorem freeze_of_fresh {g g₀ : Graph α} (hg : g.Linked) (h₀ : g₀.Fresh)
    (hn : g₀.nodes = g.nodes) (depth : Nat) :
    (∃ e, g.freeze depth = (.error e, g) ∧ g₀.freeze depth = (.error e, g₀)) ∨
      ∃ g', g₀.freeze depth = (.ok (), g') ∧ g.freeze depth = (.ok (), g'.withPast g.past) := by
  have hambiguous : g₀.ambiguous? = g.ambiguous? := by simp only [ambiguous?, hn]
  unfold freeze
  rw [hambiguous, hn]
  by_cases hd : (decide (depth = 0) || decide (sizeLimit < depth)) = true
  · rw [if_pos hd, if_pos hd]
    exact Or.inl ⟨_, rfl, rfl⟩
  rw [if_neg hd, if_neg hd]
  by_cases he : g.nodes.isEmpty = true
  · rw [if_pos he, if_pos he]
    exact Or.inl ⟨_, rfl, rfl⟩
  rw [if_neg he, if_neg he]
  cases g.ambiguous? with
  | some id => exact Or.inl ⟨_, rfl, rfl⟩
  | none =>
    cases sortNodes g.nodes with
    | sorted order levels =>
      refine Or.inr ⟨_, rfl, ?_⟩
      rw [← prepare_of_fresh hg h₀ hn]
    | cyclic => exact Or.inl ⟨_, rfl, rfl⟩
    | broken => exact Or.inl ⟨_, rfl, rfl⟩

/-- What a run is given has to do with nodes and sources only. -/
theorem stageInputs_withPast (inputs : List (NodeId × α)) :
    (g.withPast h).stageInputs inputs = g.stageInputs inputs := by
  have hall : ∀ (inputs : List (NodeId × α)) (staged : Staged α),
      (g.withPast h).stageAll staged inputs = g.stageAll staged inputs := by
    intro inputs
    induction inputs with
    | nil => exact fun _ => rfl
    | cons input inputs ih =>
      intro staged
      have hone : (g.withPast h).stageOne staged input.1 input.2 =
          g.stageOne staged input.1 input.2 := rfl
      simp only [stageAll, hone, ih]
  have hsources : (g.withPast h).sources = g.sources := rfl
  simp only [stageInputs, hall, hsources]
  rfl

end Graph

/-! ### Operations on a bound graph -/

namespace Binding

/-- The same binding of a graph with another past. -/
def withPast (b : Binding α) (h : Past) : Binding α :=
  { b with graph := b.graph.withPast h }

/-- The same answer to a submission. -/
def Accepted.withPast (h : Past) : Accepted α → Accepted α
  | .refused e => .refused e
  | .accepted b run tasks => .accepted (b.withPast h) run tasks
  | .broken b f => .broken (b.withPast h) f

variable (h : Past)

/-- **Any graph is bound as if it had only been built**, apart from its past. -/
theorem new_of_fresh {g g₀ : Graph α} (hg : g.Linked) (h₀ : g₀.Fresh) (hn : g₀.nodes = g.nodes)
    (depth backlogCapacity : Nat) : Binding.new g depth backlogCapacity =
      (Binding.new g₀ depth backlogCapacity).map (·.withPast g.past) := by
  rcases Graph.freeze_of_fresh hg h₀ hn depth with ⟨e, he, he₀⟩ | ⟨g', hok₀, hok⟩
  · simp only [Binding.new, he, he₀]
    rfl
  · simp only [Binding.new, hok, hok₀]
    rfl

theorem modifyGraph_withPast (b : Binding α) (f : Graph α → Graph α)
    (hf : ∀ g : Graph α, f (g.withPast h) = (f g).withPast h) :
    (b.withPast h).modifyGraph f = (b.modifyGraph f).withPast h := by
  simp only [modifyGraph, withPast, hf]

theorem setPool_withPast (b : Binding α) (c : Channel) (p : Pool (Entry α)) :
    (b.withPast h).modifyGraph (·.setPool c p) = (b.modifyGraph (·.setPool c p)).withPast h :=
  b.modifyGraph_withPast h _ fun g => g.setPool_withPast h c p

theorem stageEntries_withPast (g : Graph α) (run : ObjectId) (inputs : Staged α) :
    stageEntries (g.withPast h) run inputs =
      ((stageEntries g run inputs).1, (stageEntries g run inputs).2.withPast h) := by
  induction inputs generalizing g with
  | nil => rfl
  | cons input inputs ih =>
    simp only [stageEntries, Graph.pool?_withPast]
    split
    · rfl
    · split
      · rfl
      · rw [Graph.setPool_withPast, ih]

theorem start_withPast (b : Binding α) (a : Admitted α) :
    (b.withPast h).start a = ((b.start a).1, (b.start a).2.withPast h) := by
  have hstage := stageEntries_withPast h b.graph a.objectId a.inputs
  simp only [start, withPast, hstage]
  rcases stageEntries b.graph a.objectId a.inputs with ⟨f | _, g⟩ <;> rfl

theorem submit_withPast (b : Binding α) (inputs : List (NodeId × α)) (cell : CellId) :
    (b.withPast h).submit inputs cell = (b.submit inputs cell).withPast h := by
  have hstaged : (b.withPast h).graph.stageInputs inputs = b.graph.stageInputs inputs :=
    b.graph.stageInputs_withPast h inputs
  have htable : (b.withPast h).table = b.table := rfl
  simp only [submit, hstaged, htable]
  cases b.graph.stageInputs inputs with
  | error e => rfl
  | ok staged =>
    dsimp only
    cases b.table.submit staged cell with
    | refused e => rfl
    | queued table run => rfl
    | broken table f => rfl
    | admitted table a =>
      have hstart : Binding.start { graph := (b.withPast h).graph, table } a = _ :=
        start_withPast h { b with table } a
      dsimp only
      rw [hstart]
      rcases ({ b with table } : Binding α).start a with ⟨f | tasks, b'⟩ <;> rfl

end Binding

/-! ### Executions -/

/-- The same operation, on a graph with another past. -/
def Advance.withPast (a : Advance α) (h : Past) : Advance α :=
  { a with binding := a.binding.withPast h }

namespace Execution

variable (h : Past)

theorem canAdvance_withPast (b : Binding α) (x : Execution α) :
    x.canAdvance (b.withPast h) = x.canAdvance b := by
  have hpool : ∀ c, (b.withPast h).graph.pool? c = b.graph.pool? c := b.graph.pool?_withPast h
  simp only [canAdvance, hpool]

theorem conclude_withPast [Payload α] (b : Binding α) (id : NodeId) (n : Node α) (seat : Seat)
    (called : Bool) (result : Option (Except ExecutionError α)) :
    conclude (b.withPast h) id n seat called result =
      (conclude b id n seat called result).withPast h := by
  have hcount : ((b.withPast h).modifyGraph fun g =>
        (if called then g.countCall id else g).countRun id) =
      (b.modifyGraph fun g => (if called then g.countCall id else g).countRun id).withPast h := by
    refine b.modifyGraph_withPast h _ fun g => ?_
    cases called with
    | false => exact g.countRun_withPast h id
    | true =>
      rw [if_pos rfl, if_pos rfl, Graph.countCall_withPast]
      exact (g.countCall id).countRun_withPast h id
  rw [conclude, hcount]
  rfl

theorem publish_withPast (b : Binding α) (seat : Seat) (c : Channel) (e : Entry α)
    (rest : Deliveries α) (waiting : Bool) :
    publish (b.withPast h) seat c e rest waiting =
      (publish b seat c e rest waiting).withPast h := by
  have hpool : (b.withPast h).graph.pool? c = b.graph.pool? c := b.graph.pool?_withPast h c
  simp only [publish, hpool, Binding.setPool_withPast]
  cases b.graph.pool? c with
  | none => rfl
  | some p =>
    dsimp only
    rcases p.push ⟨seat.run, e⟩ with _ | _ | p'
    · cases waiting <;> rfl
    · rfl
    · rfl

theorem awaitOne_withPast (b : Binding α) (run : Option ObjectId) (taken : List (Entry α))
    (c : Channel) (rest : List Channel) :
    awaitOne (b.withPast h) run taken c rest = (awaitOne b run taken c rest).withPast h := by
  have hpool : (b.withPast h).graph.pool? c = b.graph.pool? c := b.graph.pool?_withPast h c
  simp only [awaitOne, hpool, Binding.setPool_withPast]
  cases b.graph.pool? c with
  | none => rfl
  | some p =>
    dsimp only
    rcases p.pop with _ | ⟨_ | x, p'⟩ <;> rfl

theorem complete_withPast (k : Strategy) (b : Binding α) (slot : SlotId) :
    complete k (b.withPast h) slot = (complete k b slot).withPast h := by
  have htable : (b.withPast h).table = b.table := rfl
  simp only [complete, htable]
  rcases b.table.complete slot with ⟨f | c, table⟩
  · rfl
  dsimp only
  cases c.next with
  | none => rfl
  | some a =>
    have hstart : Binding.start { graph := (b.withPast h).graph, table } a = _ :=
      Binding.start_withPast h { b with table } a
    dsimp only
    rw [hstart]
    rcases ({ b with table } : Binding α).start a with ⟨f | tasks, b'⟩ <;> rfl

/-- **An execution never looks at the past of the graph**, and leaves it alone. -/
theorem advance_withPast [Payload α] (k : Strategy) (b : Binding α) (x : Execution α) :
    x.advance k (b.withPast h) = (x.advance k b).withPast h := by
  obtain ⟨node, stage⟩ := x
  cases stage with
  | opening slot =>
    have htable : (b.withPast h).table = b.table := rfl
    simp only [advance, htable]
    cases b.table.statuses[slot]? <;> rfl
  | claiming seat taken rest =>
    cases rest with
    | nil => rfl
    | cons c rest =>
      have hentry : (b.withPast h).graph.entryOf? c seat.run = b.graph.entryOf? c seat.run :=
        b.graph.entryOf?_withPast h c seat.run
      simp only [advance, hentry, Binding.setPool_withPast]
      rcases b.graph.entryOf? c seat.run with _ | ⟨e, p⟩ <;> rfl
  | awaiting run taken rest =>
    cases rest with
    | nil => cases run <;> rfl
    | cons c rest =>
      simp only [advance]
      exact awaitOne_withPast h b run taken c rest
  | locating run taken =>
    have htable : (b.withPast h).table = b.table := rfl
    simp only [advance, htable]
    cases b.table.slotOf? run <;> rfl
  | entering seat inputs =>
    have htable : (b.withPast h).table = b.table := rfl
    have hnodes : (b.withPast h).graph.nodes = b.graph.nodes := rfl
    simp only [advance, htable, hnodes, conclude_withPast]
    rcases b.table.statuses[seat.slot]? with _ | s
    · rfl
    rcases b.graph.nodes[node]? with _ | n
    · rfl
    dsimp only
    rcases gather inputs s.failed with _ | xs
    · rfl
    · cases n.work <;> rfl
  | working seat xs c =>
    cases c with
    | hold barrier rest => rfl
    | done v =>
      have hnodes : (b.withPast h).graph.nodes = b.graph.nodes := rfl
      simp only [advance, hnodes, conclude_withPast]
      cases b.graph.nodes[node]? <;> rfl
  | publishing seat rest waiting =>
    cases rest with
    | nil => rfl
    | cons d rest => exact publish_withPast h b seat d.1 d.2 rest waiting
  | releasing seat rest =>
    cases rest with
    | nil => rfl
    | cons succ rest =>
      have htable : (b.withPast h).table = b.table := rfl
      simp only [advance, htable]
      cases b.table.dependencyVerdict seat.slot succ <;> rfl
  | finishing seat =>
    have htable : (b.withPast h).table = b.table := rfl
    simp only [advance, htable]
    cases b.table.sinkVerdict seat.slot <;> rfl
  | completing seat => exact complete_withPast h k b seat.slot
  | recording | resolving | «over» | stopped | broken => rfl

end Execution

end Dataflow
