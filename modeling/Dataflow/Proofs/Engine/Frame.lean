import Dataflow.Engine.Execution
import Dataflow.Proofs.Graph.Channels
import Dataflow.Proofs.Graph.Linked

/-!
# What executions leave alone

While a graph is bound, it is only used: entries come into pools and go out of them, pools are
closed, and executions are counted (`Graph.Used`). Nodes, names and plan stay as they are, and
all that is done is done to what stations hold (`Graph.Frame`), which keep their branches
(`Graph.Used.branches`). So what is given back in the end is one of the graphs that calls can
lead to (`Graph.Frame.built`).
-/

namespace Dataflow

variable {α : Type}

namespace Graph

/-- **Nothing has changed but what stations hold.** -/
structure Frame (g g' : Graph α) : Prop where
  rest : g' = { g with stations := g'.stations }
  size : g'.stations.size = g.stations.size

variable {g g' g'' : Graph α}

namespace Frame

theorem refl (g : Graph α) : g.Frame g := ⟨rfl, rfl⟩

theorem nodes (h : g.Frame g') : g'.nodes = g.nodes := by rw [h.rest]

theorem names (h : g.Frame g') : g'.names = g.names := by rw [h.rest]

theorem plan (h : g.Frame g') : g'.plan = g.plan := by rw [h.rest]

theorem trans (h : g.Frame g') (h' : g'.Frame g'') : g.Frame g'' where
  rest := (Graph.mk.injEq ..).mpr
    ⟨h'.nodes.trans h.nodes, h'.names.trans h.names, rfl, h'.plan.trans h.plan⟩
  size := h'.size.trans h.size

/-- Whatever calls have led to, it can be used. -/
theorem built (h : g.Frame g') (hg : g.Built) : g'.Built := by
  rw [h.rest]
  exact hg.use h.size

end Frame

/-- A station may change in other things than its branches. -/
theorem branches_modify (g : Graph α) (id v : NodeId) {f : Station α → Station α}
    (hf : ∀ p, (f p).outgoing.size = p.outgoing.size) :
    ((g.stations.modify id f)[v]?).map (·.outgoing.size) =
      (g.stations[v]?).map (·.outgoing.size) := by
  rw [Array.getElem?_modify]
  split
  · rw [Option.map_map]
    exact Option.map_congr fun p _ => hf p
  · rfl

/-- **What can be done to a graph by using it.** -/
inductive Used (g : Graph α) : Graph α → Prop where
  | unused : Used g g
  | setPool {g' : Graph α} (h : Used g g') (c : Channel) (p : Pool (Entry α)) :
      Used g (g'.setPool c p)
  | closePools {g' : Graph α} (h : Used g g') : Used g g'.closePools
  | countRun {g' : Graph α} (h : Used g g') (id : NodeId) : Used g (g'.countRun id)
  | countCall {g' : Graph α} (h : Used g g') (id : NodeId) : Used g (g'.countCall id)

namespace Used

theorem trans (h : g.Used g') (h' : g'.Used g'') : g.Used g'' := by
  induction h' with
  | unused => exact h
  | setPool _ c p ih => exact ih.setPool c p
  | closePools _ ih => exact ih.closePools
  | countRun _ id ih => exact ih.countRun id
  | countCall _ id ih => exact ih.countCall id

/-- Whatever it is used for, a graph changes in what stations hold. -/
theorem frame (h : g.Used g') : g.Frame g' := by
  induction h with
  | unused => exact .refl g
  | setPool _ c p ih =>
    exact ih.trans ⟨by cases c <;> rfl, size_stations_setPool _ c p⟩
  | closePools _ ih => exact ih.trans ⟨rfl, Array.size_map ..⟩
  | countRun _ id ih => exact ih.trans ⟨rfl, Array.size_modify ..⟩
  | countCall _ id ih => exact ih.trans ⟨rfl, Array.size_modify ..⟩

/-- Nobody loses a pool, or gets one. -/
theorem branches (h : g.Used g') (v : NodeId) :
    (g'.stations[v]?).map (·.outgoing.size) = (g.stations[v]?).map (·.outgoing.size) := by
  induction h with
  | unused => rfl
  | @setPool g' _ c p ih =>
    refine Eq.trans ?_ ih
    cases c with
    | staging id => exact branches_modify g' id v fun _ => rfl
    | edge u w => exact branches_modify g' u v fun _ => Array.size_setIfInBounds
  | @closePools g' _ ih =>
    refine Eq.trans ?_ ih
    rw [show g'.closePools.stations = g'.stations.map (·.close) from rfl, Array.getElem?_map,
      Option.map_map]
    exact Option.map_congr fun p _ => Array.size_map ..
  | @countRun g' _ id ih | @countCall g' _ id ih =>
    refine Eq.trans ?_ ih
    exact branches_modify g' id v fun _ => rfl

end Used

end Graph

namespace Binding

theorem used_stageEntries (g : Graph α) (run : ObjectId) (inputs : Staged α) :
    g.Used (stageEntries g run inputs).2 := by
  induction inputs generalizing g with
  | nil => exact .unused
  | cons input inputs ih =>
    unfold stageEntries
    split
    · exact .unused
    · split
      · exact .unused
      · exact (Graph.Used.unused.setPool _ _).trans (ih _)

theorem used_start (b : Binding α) (a : Admitted α) : b.graph.Used (b.start a).2.graph := by
  have hstage := used_stageEntries b.graph a.objectId a.inputs
  unfold start
  split <;> next hs => rwa [hs] at hstage

/-- **A submission** uses the graph. -/
theorem used_submit {b b' : Binding α} {inputs : List (NodeId × α)} {cell : CellId}
    {run : ObjectId} {tasks : List Task} (h : b.submit inputs cell = .accepted b' run tasks) :
    b.graph.Used b'.graph := by
  unfold submit at h
  split at h
  · cases h
  split at h
  · cases h
  · cases h
    exact .unused
  · cases h
  · next table a _ =>
    have hstart := used_start { b with table } a
    split at h
    · cases h
    · next hs =>
      cases h
      rwa [hs] at hstart

end Binding

namespace Execution

theorem used_conclude (b : Binding α) (id : NodeId) (n : Node α) (seat : Seat) (called : Bool)
    [Payload α] (result : Option (Except ExecutionError α)) :
    b.graph.Used (conclude b id n seat called result).binding.graph := by
  cases called with
  | false => exact .countRun .unused id
  | true => exact .countRun (.countCall .unused id) id

theorem used_publish (b : Binding α) (seat : Seat) (c : Channel) (e : Entry α)
    (rest : Deliveries α) (waiting : Bool) :
    b.graph.Used (publish b seat c e rest waiting).binding.graph := by
  unfold publish
  split
  · exact .unused
  · split
    · split
      · exact .unused
      · exact .setPool .unused c _
    · exact .setPool .unused c _
    · exact .unused

theorem used_awaitOne (b : Binding α) (run : Option ObjectId) (taken : List (Entry α))
    (c : Channel) (rest : List Channel) :
    b.graph.Used (awaitOne b run taken c rest).binding.graph := by
  unfold awaitOne
  split
  · exact .unused
  · split
    · exact .unused
    · exact .unused
    · exact .setPool .unused c _

theorem used_complete (k : Strategy) (b : Binding α) (slot : SlotId) :
    b.graph.Used (complete k b slot).binding.graph := by
  unfold complete
  split
  · exact .unused
  · next c table _ =>
    dsimp only
    split
    · exact .unused
    · next a _ =>
      have hstart := Binding.used_start { b with table } a
      split <;> next hs => rwa [hs] at hstart

/-- **An operation of an execution** uses the graph. -/
theorem used_advance [Payload α] (k : Strategy) (b : Binding α) (x : Execution α) :
    b.graph.Used (x.advance k b).binding.graph := by
  unfold advance
  split
  · split <;> exact .unused
  · exact .unused
  · split
    · exact .setPool .unused _ _
    · exact .unused
  · exact .unused
  · exact .unused
  · exact used_awaitOne ..
  · split <;> exact .unused
  · split
    · split
      · exact used_conclude ..
      · exact used_conclude ..
      · exact .unused
    · exact .unused
  · exact .unused
  · split
    · exact used_conclude ..
    · exact .unused
  · exact .unused
  · exact .unused
  · exact used_publish ..
  · exact .unused
  · split <;> exact .unused
  · split <;> exact .unused
  · exact used_complete ..
  · exact .unused
  · exact .unused

end Execution

end Dataflow
