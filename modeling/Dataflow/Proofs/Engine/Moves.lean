import Dataflow.Proofs.Engine.Deeds
import Dataflow.Proofs.Engine.Turn

/-!
# What an operation can be

`Move` lists once and for all what an operation of an execution can be in a sound state:
the stage that it starts from, what it brings about, and what it does on behalf of its
run. Faults do not occur in the list, and neither does a producer that waits. What is to be
shown of all operations can be shown move by move.

The end of a run is the only operation that is more than one move: if a run waits, its
slot goes on to that run at once, as if it had been submitted just then
(`Sound.advance_moves`).
-/

namespace Dataflow

variable {α : Type} [Payload α]

/-- **What an operation can be**, with what it does. -/
inductive Move (k : Strategy) (g : Graph α) (b : Binding α) (x : Execution α) :
    Advance α → List (Deed α) → Prop where
  | opened {σ : SlotId} {r : ObjectId} {s : RunStatus α} (hst : x.stage = .opening σ)
      (hs : b.table.Holds σ r s) :
      Move k g b x { binding := b, stage := .claiming ⟨σ, r⟩ [] (g.inlets x.node) }
        [x.did ⟨σ, r⟩ .start]
  | claimed {σ : SlotId} {r : ObjectId} {s : RunStatus α} {taken : List (Entry α)} {c : Channel}
      {cs : List Channel} {e : Entry α} (p : Pool (Entry α))
      (hst : x.stage = .claiming ⟨σ, r⟩ taken (c :: cs)) (hs : b.table.Holds σ r s) :
      Move k g b x {
          binding := b.modifyGraph (·.setPool c p)
          stage := .claiming ⟨σ, r⟩ (taken ++ c.inputs e) cs }
        [x.did ⟨σ, r⟩ (.take c)]
  | gathered {seat : Seat} {taken : List (Entry α)} (hst : x.stage = .claiming seat taken []) :
      Move k g b x { binding := b, stage := .entering seat taken } []
  | drawn {run : Option ObjectId} {σ : SlotId} {r : ObjectId} {s : RunStatus α}
      {taken : List (Entry α)} {c : Channel} {cs : List Channel} {e : Entry α}
      (p : Pool (Entry α)) (hk : k = .dedicated) (hst : x.stage = .awaiting run taken (c :: cs))
      (hs : b.table.Holds σ r s) :
      Move k g b x {
          binding := b.modifyGraph (·.setPool c p)
          stage := .awaiting (some r) (taken ++ c.inputs e) cs }
        [.did none r x.node (.take c)]
  | dismissed {taken : List (Entry α)} {cs : List Channel} (hk : k = .dedicated)
      (hst : x.stage = .awaiting none taken cs) :
      Move k g b x { binding := b, stage := .stopped } []
  | assembled {r : ObjectId} {taken : List (Entry α)} (hk : k = .dedicated)
      (hst : x.stage = .awaiting (some r) taken []) :
      Move k g b x { binding := b, stage := .locating r taken } []
  | located {σ : SlotId} {r : ObjectId} {s : RunStatus α} {taken : List (Entry α)}
      (hk : k = .dedicated) (hst : x.stage = .locating r taken) (hs : b.table.Holds σ r s) :
      Move k g b x { binding := b, stage := .entering ⟨σ, r⟩ taken } [x.did ⟨σ, r⟩ .start]
  | called {σ : SlotId} {r : ObjectId} {s : RunStatus α} {inputs : List (Entry α)}
      {xs : List α} {n : Node α} {work : Work α} (hst : x.stage = .entering ⟨σ, r⟩ inputs)
      (hs : b.table.Holds σ r s) (hn : g.nodes[x.node]? = some n) (hw : n.work = some work)
      (hx : gather inputs s.failed = some xs) :
      Move k g b x { binding := b, stage := .working ⟨σ, r⟩ xs (work xs) }
        [x.did ⟨σ, r⟩ .look, x.did ⟨σ, r⟩ (.call xs)]
  | skipped {σ : SlotId} {r : ObjectId} {s : RunStatus α} {inputs : List (Entry α)} {n : Node α}
      {result : Option (Except ExecutionError α)} (hst : x.stage = .entering ⟨σ, r⟩ inputs)
      (hs : b.table.Holds σ r s) (hn : g.nodes[x.node]? = some n)
      (hwhy : gather inputs s.failed = none ∨ n.work = none) :
      Move k g b x (Execution.conclude b x.node n ⟨σ, r⟩ false result)
        [x.did ⟨σ, r⟩ .look, x.did ⟨σ, r⟩ (.fire false)]
  | held {seat : Seat} {xs : List α} {barrier : String} {c : Computation α}
      (hst : x.stage = .working seat xs (.hold barrier c)) :
      Move k g b x { binding := b, stage := .working seat xs c } []
  | returned {σ : SlotId} {r : ObjectId} {s : RunStatus α} {xs : List α} {v : Verdict α}
      {n : Node α} (hst : x.stage = .working ⟨σ, r⟩ xs (.done v)) (hs : b.table.Holds σ r s)
      (hn : g.nodes[x.node]? = some n) :
      Move k g b x (Execution.conclude b x.node n ⟨σ, r⟩ true (some (v.judge x.node)))
        [x.did ⟨σ, r⟩ (.fire true)]
  | recorded {σ : SlotId} {r : ObjectId} {s : RunStatus α} {f : Firing α}
      (hst : x.stage = .recording ⟨σ, r⟩ f) (hs : b.table.Holds σ r s)
      (hout : ((g.outlets x.node).zip f.outgoing).map (·.1) = g.outlets x.node) :
      Move k g b x {
          binding := b.modifyStatus σ (·.record x.node f.output f.error)
          stage := .publishing ⟨σ, r⟩ ((g.outlets x.node).zip f.outgoing) false }
        [x.did ⟨σ, r⟩ .record]
  | published {σ : SlotId} {r : ObjectId} {s : RunStatus α} {c : Channel} {e : Entry α}
      {ds : Deliveries α} {waiting : Bool} (p : Pool (Entry α))
      (hst : x.stage = .publishing ⟨σ, r⟩ ((c, e) :: ds) waiting) (hs : b.table.Holds σ r s) :
      Move k g b x {
          binding := b.modifyGraph (·.setPool c p)
          stage := .publishing ⟨σ, r⟩ ds false }
        [x.did ⟨σ, r⟩ (.publish c)]
  | passed {seat : Seat} {waiting : Bool} (hst : x.stage = .publishing seat [] waiting) :
      Move k g b x { binding := b, stage := Execution.afterPublishing k g x.node seat } []
  | released {σ : SlotId} {r : ObjectId} {s : RunStatus α} {w : NodeId} {ws : List NodeId}
      (last : Bool) (hk : k = .stealing) (hst : x.stage = .releasing ⟨σ, r⟩ (w :: ws))
      (hs : b.table.Holds σ r s) :
      Move k g b x {
          binding := b.modifyStatus σ (·.releaseDependency w)
          stage := .releasing ⟨σ, r⟩ ws
          ready := if last then [⟨w, σ⟩] else [] }
        (x.did ⟨σ, r⟩ (.release w) ::
          (if last then [(⟨w, σ⟩ : Task)] else []).map (.queued · r))
  | left {seat : Seat} (hst : x.stage = .releasing seat []) :
      Move k g b x { binding := b, stage := .over } []
  | finished {σ : SlotId} {r : ObjectId} {s : RunStatus α} (last : Bool)
      (hst : x.stage = .finishing ⟨σ, r⟩) (hs : b.table.Holds σ r s) :
      Move k g b x {
          binding := b.modifyStatus σ (·.finishSink)
          stage := if last then .completing ⟨σ, r⟩ else .over }
        [x.did ⟨σ, r⟩ .finish]
  | ended {σ : SlotId} {r : ObjectId} {s : RunStatus α} {cell : CellId} {o : RunOutcome α}
      (hst : x.stage = .completing ⟨σ, r⟩) (hs : b.table.Holds σ r s) :
      Move k g b x {
          binding := { b with table := b.table.retire σ s }
          stage := .resolving cell o }
        [x.did ⟨σ, r⟩ .complete, .taken ⟨σ, r⟩]
  | resolved {cell : CellId} {o : RunOutcome α} (hst : x.stage = .resolving cell o) :
      Move k g b x { binding := b, stage := .over, resolved := some (cell, o) } []

/-- No move changes the backlog. -/
theorem Move.backlog {k : Strategy} {g : Graph α} {b : Binding α} {x : Execution α}
    {a : Advance α} {ds : List (Deed α)} (hm : Move k g b x a ds) :
    a.binding.table.backlog = b.table.backlog := by
  cases hm <;> rfl

namespace Sound

variable {k : Strategy} {g : Graph α} {depth : Nat} {closed : Bool}
  {requests : List (Request α)} {launched : Nat} {post : ObjectId → NodeId → Post α}
  {executed : List (NodeId × ObjectId)} {b : Binding α} {x : Execution α}
  {rest : List (Execution α)}

/-! ### Taking the inputs -/

theorem move_opening
    (h : Sound k g depth closed requests launched post executed b (x :: rest)) {slot : SlotId}
    (hst : x.stage = .opening slot) : Move k g b x (x.advance k b) (x.deeds k b) := by
  obtain ⟨r, σ, s, q, -, hs, -, -, hserves, -⟩ :=
    h.engaged_head (by simp [Execution.isEngaged, hst])
  rw [hst] at hserves
  obtain rfl : slot = σ := hserves
  simp only [Execution.deeds, Execution.advance, hst, hs.1, hs.2.1, h.alike.inlets]
  exact .opened hst hs

theorem move_claiming (hg : g.Frozen)
    (h : Sound k g depth closed requests launched post executed b (x :: rest)) {seat : Seat}
    {taken : List (Entry α)} {cs : List Channel} (hst : x.stage = .claiming seat taken cs) :
    Move k g b x (x.advance k b) (x.deeds k b) := by
  obtain ⟨r, σ, s, q, hpost, hs, hq, -, hserves, -⟩ :=
    h.engaged_head (by simp [Execution.isEngaged, hst])
  rw [hst] at hserves
  obtain rfl : seat = ⟨σ, r⟩ := hserves
  cases cs with
  | nil =>
    simp only [Execution.deeds, Execution.advance, hst]
    exact .gathered hst
  | cons c cs =>
    obtain ⟨-, -, p, e, p', -, hentry, -⟩ := h.entry_of_claiming hg hpost hs hq hst
    simp only [Execution.deeds, Execution.advance, hst, hentry]
    exact .claimed p' hst hs

/-- What lies in an inlet belongs to a run in flight. -/
theorem holds_of_pop (h : Sound k g depth closed requests launched post executed b (x :: rest))
    {c : Channel} {p p' : Pool (Entry α)} {y : Tagged (Entry α)} (hp : b.graph.pool? c = some p)
    (hpop : p.pop = some (some y, p')) : ∃ σ s, b.table.Holds σ y.objectId s := by
  have hnodup : p.tags.Nodup := by
    rw [← Graph.tagsAt_of_pool hp]
    exact (h.tags c).imp Strategy.Before.ne
  obtain ⟨-, htags⟩ := Pool.pop_eq_some hnodup hpop
  refine h.tag_inFlight (c := c) ?_
  rw [Graph.tagsAt_of_pool hp, htags]
  exact List.mem_cons_self ..

theorem move_awaiting (hg : g.Frozen) (hsize : 0 < g.nodes.size)
    (h : Sound k g depth closed requests launched post executed b (x :: rest))
    {run : Option ObjectId} {taken : List (Entry α)} {cs : List Channel}
    (hst : x.stage = .awaiting run taken cs) (hcan : x.canAdvance b = true) :
    Move k g b x (x.advance k b) (x.deeds k b) := by
  -- no fault is met, so all that is left is to see which case this is
  obtain ⟨launched', post', hafter⟩ := (h.turn hg hsize hcan).sound
  have hno : ∀ f, (x.advance k b).stage ≠ .broken f := by
    intro f hf
    rw [hf] at hafter
    exact hafter.unbroken (x := ⟨x.node, .broken f⟩) (by simp [Execution.onward]) f rfl
  have hk : k = .dedicated := by
    cases run with
    | none =>
      have hrest := h.resting_head (by simp [Execution.isEngaged, hst])
      simp only [Execution.Rests, hst] at hrest
      exact hrest.1
    | some run =>
      obtain ⟨_, _, _, _, -, -, -, -, -, hfits⟩ :=
        h.engaged_head (by simp [Execution.isEngaged, hst])
      rw [hst] at hfits
      exact hfits.1
  cases cs with
  | nil =>
    cases run with
    | none => exact absurd (by simp only [Execution.advance, hst]) (hno .inputMissing)
    | some r =>
      simp only [Execution.deeds, Execution.advance, hst]
      exact .assembled hk hst
  | cons c cs =>
    cases hp : b.graph.pool? c with
    | none =>
      exact absurd (by simp only [Execution.advance, hst, Execution.awaitOne, hp]) (hno .outOfRange)
    | some p =>
      by_cases hent : p.entries = []
      · -- the thread does not wait, and only a thread that has begun with no run may stop
        have hclosed : p.isClosed = true := by
          simpa [Execution.canAdvance, hst, hp, Pool.popWaits_of_nil hent] using hcan
        cases run with
        | none =>
          simp only [Execution.deeds, Execution.advance, hst, Execution.awaitOne, hp,
            Pool.pop_of_nil hent, hclosed, if_true, Option.bind_some]
          exact .dismissed hk hst
        | some r =>
          obtain ⟨r', σ, s, q, -, hs, -⟩ :=
            h.engaged_head (by simp [Execution.isEngaged, hst])
          have := h.not_closed ⟨σ, s, hs⟩
          rw [← h.laid.closed hp, hclosed] at this
          cases this
      · obtain ⟨y, p', hpop⟩ := Pool.pop_of_ne_nil hent
        obtain ⟨σ, s, hs⟩ := h.holds_of_pop hp hpop
        have hall : run.all (· == y.objectId) = true := by
          by_contra hmixed
          refine hno .runsMixed ?_
          simp only [Execution.advance, hst, Execution.awaitOne, hp, hpop]
          cases run with
          | none => simp at hmixed
          | some r => simp_all
        have ha : x.advance k b = {
            binding := b.modifyGraph (·.setPool c p')
            stage := .awaiting (some y.objectId) (taken ++ c.inputs y.payload) cs } := by
          cases run <;> simp [Execution.advance, hst, Execution.awaitOne, hp, hpop, hall]
        have hd : x.deeds k b = [.did none y.objectId x.node (.take c)] := by
          simp only [Execution.deeds, hst, hp, hpop, Option.bind_some]
        rw [ha, hd]
        exact .drawn p' hk hst hs

theorem move_locating
    (h : Sound k g depth closed requests launched post executed b (x :: rest)) {run : ObjectId}
    {taken : List (Entry α)} (hst : x.stage = .locating run taken) :
    Move k g b x (x.advance k b) (x.deeds k b) := by
  obtain ⟨r, σ, s, q, -, hs, -, -, hserves, hfits⟩ :=
    h.engaged_head (by simp [Execution.isEngaged, hst])
  rw [hst] at hserves hfits
  obtain rfl : run = r := hserves
  simp only [Execution.deeds, Execution.advance, hst, h.ledger.slotOf?_eq hs]
  exact .located hfits.1 hst hs

/-! ### The callback -/

theorem move_entering
    (h : Sound k g depth closed requests launched post executed b (x :: rest)) {seat : Seat}
    {inputs : List (Entry α)} (hst : x.stage = .entering seat inputs) :
    Move k g b x (x.advance k b) (x.deeds k b) := by
  obtain ⟨r, σ, s, q, hpost, hs, hq, -, hserves, -⟩ :=
    h.engaged_head (by simp [Execution.isEngaged, hst])
  rw [hst] at hserves
  obtain rfl : seat = ⟨σ, r⟩ := hserves
  obtain ⟨n, hn⟩ := Graph.node_of_lt ((h.books hs hq).posts.lt_size hpost)
  have hn' : b.graph.nodes[x.node]? = some n := by rw [h.alike.nodes, hn]
  cases hx : gather inputs s.failed with
  | none =>
    simp only [Execution.deeds, Execution.advance, hst, hs.1, hn', hx, Execution.conclude]
    exact .skipped hst hs hn (Or.inl hx)
  | some xs =>
    cases hw : n.work with
    | none =>
      simp only [Execution.deeds, Execution.advance, hst, hs.1, hn', hx, hw, Execution.conclude]
      exact .skipped hst hs hn (Or.inr hw)
    | some work =>
      simp only [Execution.deeds, Execution.advance, hst, hs.1, hn', hx, hw]
      exact .called hst hs hn hw hx

theorem move_working
    (h : Sound k g depth closed requests launched post executed b (x :: rest)) {seat : Seat}
    {xs : List α} {c : Computation α} (hst : x.stage = .working seat xs c) :
    Move k g b x (x.advance k b) (x.deeds k b) := by
  obtain ⟨r, σ, s, q, hpost, hs, hq, -, hserves, -⟩ :=
    h.engaged_head (by simp [Execution.isEngaged, hst])
  rw [hst] at hserves
  obtain rfl : seat = ⟨σ, r⟩ := hserves
  obtain ⟨n, hn⟩ := Graph.node_of_lt ((h.books hs hq).posts.lt_size hpost)
  have hn' : b.graph.nodes[x.node]? = some n := by rw [h.alike.nodes, hn]
  cases c with
  | hold barrier c =>
    simp only [Execution.deeds, Execution.advance, hst]
    exact .held hst
  | done v =>
    simp only [Execution.deeds, Execution.advance, hst, hn']
    exact .returned hst hs hn

theorem move_recording
    (h : Sound k g depth closed requests launched post executed b (x :: rest)) {seat : Seat}
    {f : Firing α} (hst : x.stage = .recording seat f) :
    Move k g b x (x.advance k b) (x.deeds k b) := by
  obtain ⟨r, σ, s, q, -, hs, -, -, hserves, hfits⟩ :=
    h.engaged_head (by simp [Execution.isEngaged, hst])
  rw [hst] at hserves hfits
  obtain rfl : seat = ⟨σ, r⟩ := hserves
  simp only [Execution.deeds, Execution.advance, hst, h.alike.outlets]
  exact .recorded hst hs (map_zip_outlets hfits.length)

/-! ### Passing it on -/

theorem move_publishing (hg : g.Frozen)
    (h : Sound k g depth closed requests launched post executed b (x :: rest)) {seat : Seat}
    {ds : Deliveries α} {waiting : Bool} (hst : x.stage = .publishing seat ds waiting) :
    Move k g b x (x.advance k b) (x.deeds k b) := by
  cases ds with
  | nil =>
    simp only [Execution.deeds, Execution.advance, hst]
    rw [show Execution.afterPublishing k b.graph x.node seat =
      Execution.afterPublishing k g x.node seat by
        simp only [Execution.afterPublishing, h.alike.successors]]
    exact .passed hst
  | cons d ds =>
    obtain ⟨c, e⟩ := d
    have he : x.isEngaged k g = true := by simp [Execution.isEngaged, hst]
    obtain ⟨r, σ, s, q, hpost, hs, hq, -, hserves, hfits⟩ := h.engaged_head he
    rw [hst] at hserves hfits
    obtain rfl : seat = ⟨σ, r⟩ := hserves
    obtain rfl : waiting = false := hfits.1
    obtain ⟨p, hp, -, hpush, -⟩ := h.publish hg he hpost hs hq hst
    simp only [Execution.deeds, Execution.advance, hst, Execution.publish, hp, hpush,
      Option.bind_some]
    exact .published _ hst hs

theorem move_releasing (hg : g.Frozen)
    (h : Sound k g depth closed requests launched post executed b (x :: rest)) {seat : Seat}
    {ws : List NodeId} (hst : x.stage = .releasing seat ws) :
    Move k g b x (x.advance k b) (x.deeds k b) := by
  cases ws with
  | nil =>
    simp only [Execution.deeds, Execution.advance, hst]
    exact .left hst
  | cons w ws =>
    have he : x.isEngaged k g = true := by simp [Execution.isEngaged, hst]
    obtain ⟨r, σ, s, q, hpost, hs, hq, -, hserves, hfits⟩ := h.engaged_head he
    rw [hst] at hserves hfits
    obtain rfl : seat = ⟨σ, r⟩ := hserves
    obtain ⟨last, hverdict, -⟩ := h.release hg he hpost hs hq hst
    simp only [Execution.deeds, Execution.advance, hst, hverdict]
    exact .released last hfits.1 hst hs

theorem move_finishing (hg : g.Frozen)
    (h : Sound k g depth closed requests launched post executed b (x :: rest)) {seat : Seat}
    (hst : x.stage = .finishing seat) : Move k g b x (x.advance k b) (x.deeds k b) := by
  have he : x.isEngaged k g = true := by simp [Execution.isEngaged, hst]
  obtain ⟨r, σ, s, q, hpost, hs, hq, -, hserves, -⟩ := h.engaged_head he
  rw [hst] at hserves
  obtain rfl : seat = ⟨σ, r⟩ := hserves
  obtain ⟨hnews, hnodup, hnodes⟩ := rests_of_over k g closed x
  obtain ⟨last, hverdict, -⟩ := h.finish hg he hpost hs hq hst hnews hnodup hnodes
  simp only [Execution.deeds, Execution.advance, hst, hverdict]
  exact .finished last hst hs

/-! ### The end of a run -/

/-- **A run ends**, and then its slot goes to the oldest run of the backlog if one waits. -/
theorem move_completing (hg : g.Frozen)
    (h : Sound k g depth closed requests launched post executed b (x :: rest)) {seat : Seat}
    (hst : x.stage = .completing seat) :
    Move k g b x (x.advance k b) (x.deeds k b) ∨
    ∃ σ s a ds next backlog free graph, Move k g b x a ds ∧
      a.binding = { b with table := b.table.retire σ s } ∧ a.ready = [] ∧
      (∃ post', Sound k g depth false requests launched post' (executed ++ x.fired a.stage)
        a.binding (x.onward k g a.stage ++ a.ready.map .ofTask ++ rest)) ∧
      a.binding.table.backlog = next :: backlog ∧ a.binding.table.free = σ :: free ∧
      Binding.stageEntries a.binding.graph next.objectId next.inputs = (.ok (), graph) ∧
      x.advance k b = {
        binding := ⟨graph, a.binding.table.promote⟩
        stage := a.stage
        ready := firstTasks k g σ } ∧
      x.deeds k b = ds ++ Deed.launch ⟨σ, next.objectId⟩ (firstTasks k g σ) := by
  have he : x.isEngaged k g = true := by simp [Execution.isEngaged, hst]
  obtain ⟨r, σ, s, q, hpost, hs, hq, hcell, hserves, hfits⟩ := h.engaged_head he
  rw [hst] at hserves hfits
  obtain rfl : seat = ⟨σ, r⟩ := hserves
  let o : RunOutcome α :=
    s.error.elim (.ok (.ofOutputs r s.outputs.reverse)) fun e => .error (.execution e)
  obtain ⟨-, post', hretired⟩ := h.retire hg he hpost hs hq hst q.cell o
  have heq := h.ledger.complete_eq hs hcell
  cases hb : b.table.backlog with
  | nil =>
    rw [hb] at heq
    simp only [Execution.deeds, Execution.advance, hst, Execution.complete, heq, hs.1, hs.2.1,
      List.head?_nil, Option.map_none, List.append_nil]
    exact Or.inl (.ended hst hs)
  | cons next backlog =>
    rw [hb] at heq
    have hbr : (b.table.retire σ s).backlog = next :: backlog := hb
    have hfr : (b.table.retire σ s).free = σ :: b.table.free := rfl
    obtain rfl := h.not_closed ⟨σ, s, hs⟩
    obtain ⟨hid, -, -⟩ := hretired.ledger.head_backlog hbr
    obtain ⟨graph, hstage, halike, -⟩ := hretired.stage_next hg hbr hfr
    rw [← hid] at hstage
    have hstage' : Binding.stageEntries b.graph next.objectId next.inputs = (.ok (), graph) :=
      hstage
    let a : Advance α :=
      { binding := { b with table := b.table.retire σ s }, stage := .resolving q.cell o }
    refine Or.inr ⟨σ, s, a, _, next, backlog, b.table.free, graph, .ended hst hs, rfl, rfl,
      ⟨post', ?_⟩, hbr, hfr, hstage, ?_, ?_⟩
    · rw [show x.fired (.resolving q.cell o) = [] from rfl, List.append_nil]
      exact hretired
    · simp only [Execution.advance, hst, Execution.complete, heq, List.head?_cons,
        Option.map_some, Binding.start, hstage', h.alike.sources, firstTasks]
      rfl
    · simp only [Execution.deeds, Execution.advance, hst, Execution.complete, heq, hs.1, hs.2.1,
        List.head?_cons, Option.map_some, Binding.start, hstage', h.alike.sources, firstTasks]

/-- **What the next operation of an execution is**: a move, or the end of a run and the launch
of the next one. -/
theorem advance_moves (hg : g.Frozen) (hsize : 0 < g.nodes.size)
    (h : Sound k g depth closed requests launched post executed b (x :: rest))
    (hcan : x.canAdvance b = true) :
    Move k g b x (x.advance k b) (x.deeds k b) ∨ ∃ seat, x.stage = .completing seat := by
  cases hst : x.stage with
  | opening slot => exact Or.inl (h.move_opening hst)
  | claiming seat taken cs => exact Or.inl (h.move_claiming hg hst)
  | awaiting run taken cs => exact Or.inl (h.move_awaiting hg hsize hst hcan)
  | locating run taken => exact Or.inl (h.move_locating hst)
  | entering seat inputs => exact Or.inl (h.move_entering hst)
  | working seat xs c => exact Or.inl (h.move_working hst)
  | recording seat f => exact Or.inl (h.move_recording hst)
  | publishing seat ds waiting => exact Or.inl (h.move_publishing hg hst)
  | releasing seat ws => exact Or.inl (h.move_releasing hg hst)
  | finishing seat => exact Or.inl (h.move_finishing hg hst)
  | completing seat => exact Or.inr ⟨seat, rfl⟩
  | resolving cell o =>
    simp only [Execution.deeds, Execution.advance, hst]
    exact Or.inl (.resolved hst)
  -- nothing is left to do
  | _ => simp [Execution.canAdvance, hst] at hcan

end Sound

end Dataflow
