import Dataflow.Proofs.Engine.FanOut
import Dataflow.Proofs.Scheduler.Once
import Dataflow.Proofs.Scheduler.Return

/-!
# What a graph has been through

A graph outlives the schedulers that it is bound to. It is built, used by hand, bound, given
back, extended and bound again, and its nodes count their executions all the while.
`Graph.Life` follows a graph through all of that, and says how often each node has been
executed since it was added. The counters say the same (`Graph.Life.runs`), because nothing
sets them back, and while the graph is bound they go up with what is on record
(`World.Recorded.runs`).
-/

namespace Dataflow

variable {α : Type} [Payload α] {k : Strategy}

/-! ### A tenure -/

/-- **While the graph is bound**, the counters go up with the executions on record. -/
theorem World.Recorded.runs {w : World α} {T : List (Deed α)} {b : Binding α} {t : Tenure α}
    {ts : List (Tenure α)} (h : w.Recorded k T) (hb : w.scheduler.binding = some b)
    (hts : w.tenures = t :: ts) (v : NodeId) :
    b.graph.runsOf v = (t.graph.runsOf v).map (· + occurrences v t.executed) := by
  obtain ⟨-, -, hr, -⟩ := h.precedence hb hts
  have htally : b.graph.tally v = (t.graph.tally v).map fun p =>
      (p.1 + occurrences v (Deed.fires T), p.2 + occurrences v (Deed.returns T)) := hr.tally v
  have hfires : Deed.fires T = t.executed := hr.fires
  rw [Graph.runsOf, htally, hfires, Graph.runsOf, Option.map_map, Option.map_map]
  rfl

namespace Graph

/-! ### Calls -/

omit [Payload α] in
theorem used_takeInputs (g : Graph α) (run : ObjectId) (taken : List (Entry α))
    (cs : List Channel) : g.Used (g.takeInputs run taken cs).2 := by
  induction cs generalizing g taken with
  | nil => exact .unused
  | cons c cs ih =>
    unfold takeInputs
    split
    · exact (Used.unused.setPool c _).trans (ih _ _)
    · exact .unused

/-- An execution by hand takes entries, and is counted. -/
theorem used_launch (g : Graph α) (v : NodeId) (run : ObjectId) :
    g.Used (g.launch v run).2 := by
  unfold launch
  split
  · exact .unused
  split
  · exact .unused
  have htaken := g.used_takeInputs run [] (g.inlets v)
  rcases hin : g.takeInputs run [] (g.inlets v) with ⟨e | inputs, g'⟩ <;> rw [hin] at htaken
  · exact htaken
  · dsimp only
    split
    · exact (htaken.countCall v).countRun v
    · exact htaken.countRun v

/-- Only nodes that exist are executed. -/
theorem exists_node_of_launch {g : Graph α} {v : NodeId} {run : ObjectId} {f : Firing α}
    (h : (g.launch v run).1.outcome = .ok f) : ∃ n, g.nodes[v]? = some n := by
  cases hn : g.nodes[v]? with
  | some n => exact ⟨n, rfl⟩
  | none =>
    unfold launch at h
    rw [hn] at h
    split at h <;> cases h

/-- An execution that does not happen is not counted. -/
theorem runsOf_launch_of_error {g : Graph α} {v : NodeId} {run : ObjectId} {e : Error}
    (h : (g.launch v run).1.outcome = .error e) (u : NodeId) :
    (g.launch v run).2.runsOf u = g.runsOf u := by
  cases hn : g.nodes[v]? with
  | some n => exact (launch_counts hn run).1 e h u
  | none =>
    unfold launch
    rw [hn]
    split <;> rfl

omit [Payload α] in
/-- A node that is added has not been executed, and the others are not concerned. -/
theorem runsOf_add {g : Graph α} {count : NodeId → Nat} (hg : g.Built)
    (h : ∀ {v}, v < g.nodes.size → g.runsOf v = some (count v)) (name : String)
    (work : Option (Work α)) {v : NodeId} (hv : v < (g.add name work).2.nodes.size) :
    (g.add name work).2.runsOf v = some (Function.update count g.nodes.size 0 v) := by
  rcases g.add_cases name work with ⟨e, he⟩ | ⟨-, -, -, he⟩
  · rw [he] at hv ⊢
    rw [Function.update_of_ne (Nat.ne_of_lt hv)]
    exact h hv
  · rw [he] at hv ⊢
    have hsize := hg.linked.size_stations
    simp only [extend, Array.size_push] at hv
    simp only [runsOf, tally, extend, Array.getElem?_push, hsize]
    by_cases hvs : v = g.nodes.size
    · simp [hvs]
    · rw [if_neg hvs, Function.update_of_ne hvs]
      exact h (Nat.lt_of_le_of_ne (Nat.le_of_lt_succ hv) hvs)

/-! ### A life -/

/-- **What a graph has been through**, and how often each of its nodes has been executed since
it was added. -/
inductive Life : Graph α → (NodeId → Nat) → Prop where
  | empty : Life .empty fun _ => 0
  | add {g : Graph α} {count : NodeId → Nat} (h : Life g count) (name : String)
      (work : Option (Work α)) :
      Life (g.add name work).2 (Function.update count g.nodes.size 0)
  | precede {g : Graph α} {count : NodeId → Nat} (h : Life g count) (source target : NodeId) :
      Life (g.precede source target).2 count
  | freeze {g : Graph α} {count : NodeId → Nat} (h : Life g count) (depth : Nat) :
      Life (g.freeze depth).2 count
  | thaw {g : Graph α} {count : NodeId → Nat} (h : Life g count) : Life g.thaw count
  /-- Entries are put into pools and taken out of them by hand. -/
  | setPool {g : Graph α} {count : NodeId → Nat} (h : Life g count) (c : Channel)
      (p : Pool (Entry α)) : Life (g.setPool c p) count
  /-- A node is executed by hand, -/
  | launch {g : Graph α} {count : NodeId → Nat} (h : Life g count) {v : NodeId}
      {run : ObjectId} {f : Firing α} (hf : (g.launch v run).1.outcome = .ok f) :
      Life (g.launch v run).2 (Function.update count v (count v + 1))
  /-- or is to be, but is not. -/
  | refuse {g : Graph α} {count : NodeId → Nat} (h : Life g count) {v : NodeId}
      {run : ObjectId} {e : Error} (he : (g.launch v run).1.outcome = .error e) :
      Life (g.launch v run).2 count
  /-- The graph is given back by a scheduler that it was bound to. -/
  | tenure {k : Strategy} {w : World α} {t : Tenure α} {ts : List (Tenure α)} {g : Graph α}
      {s : Scheduler α} {count : NodeId → Nat} (hw : w.Reachable k) (hts : w.tenures = t :: ts)
      (h : Life t.graph count) (hu : w.scheduler.unbind = some (.ok (g, s))) :
      Life g fun v => count v + occurrences v t.executed

variable {g : Graph α} {count : NodeId → Nat}

namespace Life

/-- All of that is done by calls. -/
theorem built (h : g.Life count) : g.Built := by
  induction h with
  | empty => exact .empty
  | add _ name work ih => exact ih.add name work
  | precede _ source target ih => exact ih.precede source target
  | freeze _ depth ih => exact ih.freeze depth
  | thaw _ ih => exact ih.thaw
  | setPool _ c p ih => exact (Used.unused.setPool c p).frame.built ih
  | launch _ _ ih | refuse _ _ ih => exact (used_launch ..).frame.built ih
  | tenure hw hts _ hu =>
    obtain ⟨-, -, b, hb, rfl⟩ := Scheduler.unbind_eq_ok hu
    obtain ⟨hbuilt, hframe⟩ := hw.framed hb hts
    exact (hframe.built hbuilt).thaw

/-- **A node counts its executions since it was added.** -/
theorem runs (h : g.Life count) : ∀ {v}, v < g.nodes.size → g.runsOf v = some (count v) := by
  induction h with
  | empty => exact fun hv => absurd hv (Nat.not_lt_zero _)
  | add h name work ih => exact runsOf_add h.built ih name work
  | @precede g _ _ source target ih =>
    intro v hv
    rcases g.precede_cases source target with ⟨e, he⟩ | ⟨-, -, -, -, -, he⟩
    · rw [he] at hv ⊢
      exact ih hv
    · rw [he] at hv ⊢
      exact ih (by simpa [link] using hv)
  | @freeze g _ _ depth ih =>
    intro v hv
    rcases g.freeze_cases depth with ⟨e, he⟩ | ⟨order, levels, -, -, -, he⟩
    · rw [he] at hv ⊢
      exact ih hv
    · rw [he] at hv ⊢
      rw [runsOf_of_tally (g.tally_prepare depth order levels v)]
      exact ih hv
  | @thaw g _ _ ih =>
    intro v hv
    rw [runsOf_of_tally (g.tally_thaw v)]
    exact ih hv
  | @setPool g _ _ c p ih =>
    intro v hv
    rw [runsOf_of_tally (tally_setPool c p v)]
    exact ih (by rwa [nodes_setPool] at hv)
  | @launch g count _ u run f hf ih =>
    intro v hv
    obtain ⟨n, hn⟩ := exists_node_of_launch hf
    obtain ⟨-, hcounts⟩ := (launch_counts hn run).2 f hf
    rw [(g.used_launch u run).frame.nodes] at hv
    rw [hcounts, ih hv]
    by_cases huv : u = v
    · simp [huv]
    · simp [huv, Function.update_of_ne (Ne.symm huv)]
  | @refuse g count _ u run e he ih =>
    intro v hv
    rw [(g.used_launch u run).frame.nodes] at hv
    rw [runsOf_launch_of_error he, ih hv]
  | @tenure k w t ts g s count hw hts h hu ih =>
    intro v hv
    obtain ⟨-, -, b, hb, rfl⟩ := Scheduler.unbind_eq_ok hu
    obtain ⟨T, hT⟩ := hw.recorded
    rw [show b.graph.thaw.nodes = b.graph.nodes from rfl, (hw.framed hb hts).2.nodes] at hv
    rw [runsOf_of_tally (b.graph.tally_thaw v), hT.runs hb hts, ih hv]
    rfl

end Life

end Graph

/-- No node of the relay has been executed before the relay is bound. -/
theorem Relay.life_bound : Relay.bound.Life fun _ => 0 := by
  have hcalls := ((Graph.Life.empty.add "source" none).add "sink" (some fun xs =>
    .done (if xs = [0] then .failure "zero" else .value (xs.sum + 1)))).precede 0 1
  have hnone : ∀ n : NodeId, Function.update (fun _ : NodeId => 0) n 0 = fun _ => 0 := fun n =>
    Function.update_eq_self n fun _ => 0
  rw [Relay.calls_graph, hnone, hnone] at hcalls
  have hfreeze : (Relay.graph.freeze 2).2 = Relay.bound := by cbv
  exact hfreeze ▸ hcalls.freeze 2

end Dataflow
