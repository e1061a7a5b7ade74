import Dataflow.Proofs.Engine.Arrivals
import Dataflow.Proofs.Engine.Calls

/-!
# Every operation keeps the invariant

`Execution.advance` performs one operation of any execution, at whatever stage it is.
Here the operations are put together: whatever execution of the load goes on, `Sound`
holds again afterwards (`Sound.turn`). It follows that no check of the scheduler fails
on the way, because an execution that meets a fault would not be part of the load.

Beside that, an operation is one of three things to the futures of the runs (`Effect`):
most mean nothing to them, one ends a run and leaves its outcome to the execution, and one
resolves the cell of a run that was ended.
-/

namespace Dataflow

variable {α : Type}

/-- The cell that the execution is about to resolve, and the outcome. -/
def Stage.due? : Stage α → Option (CellId × RunOutcome α)
  | .resolving cell outcome => some (cell, outcome)
  | _ => none

namespace Execution

/-- What a thread is at when its execution has come to a stage: a worker is free when the
execution is over, and the thread of a node turns to the next run. -/
def onward (k : Strategy) (g : Graph α) (x : Execution α) : Stage α → List (Execution α)
  | .over =>
    match k with
    | .stealing => []
    | .dedicated => [.await g x.node]
  | st => [⟨x.node, st⟩]

/-- The cells that executions of a load are about to resolve. -/
def dues (load : List (Execution α)) : List (CellId × RunOutcome α) :=
  load.filterMap fun x => x.stage.due?

theorem dues_cons (x : Execution α) (load : List (Execution α)) :
    dues (x :: load) = x.stage.due?.toList ++ dues load := by
  unfold dues
  rw [List.filterMap_cons]
  split
  · next h => rw [h, Option.toList_none, List.nil_append]
  · next h => rw [h, Option.toList_some, List.singleton_append]

theorem dues_append (load load' : List (Execution α)) :
    dues (load ++ load') = dues load ++ dues load' :=
  List.filterMap_append

theorem dues_eq_nil {load : List (Execution α)} :
    dues load = [] ↔ ∀ x ∈ load, x.stage.due? = none :=
  List.filterMap_eq_nil_iff

/-- A task that nobody has started resolves nothing. -/
theorem dues_ofTask (tasks : List Task) : dues (tasks.map ofTask : List (Execution α)) = [] :=
  dues_eq_nil.mpr fun x hx => by
    obtain ⟨t, -, rfl⟩ := List.mem_map.mp hx
    rfl

theorem length_onward_dedicated (g : Graph α) (x : Execution α) (st : Stage α) :
    (x.onward .dedicated g st).length = 1 := by
  cases st <;> rfl

/-- The node fires for a run when its execution comes to the stage. -/
def fired (x : Execution α) : Stage α → List (NodeId × ObjectId)
  | .recording seat _ => [(x.node, seat.run)]
  | _ => []

end Execution

/-- The thread of a node is not told about tasks: it has one execution before and after
an operation. -/
theorem Manned.ready_eq_nil {g g' : Graph α} {closed closed' : Bool}
    {post post' : ObjectId → NodeId → Post α} {x : Execution α} {rest : List (Execution α)}
    {st : Stage α} {ready : List Task} (h : Manned .dedicated g closed post (x :: rest))
    (h' : Manned .dedicated g closed' post'
      (x.onward .dedicated g' st ++ ready.map .ofTask ++ rest)) : ready = [] := by
  have hbefore := (h.nodes rfl).length_eq
  have hafter := (h'.nodes rfl).length_eq
  rw [← hbefore] at hafter
  refine List.eq_nil_of_length_eq_zero ?_
  simp only [List.length_map, List.length_append, List.length_cons,
    Execution.length_onward_dedicated] at hafter
  omega

/-- A node that releases a successor has published everything. -/
theorem Post.published_of_released {p : Post α} {w : NodeId}
    (h : p.progress.released w = true) (c : Channel) : p.progress.published c = true := by
  cases p with
  | waiting => simp [Progress.zero] at h
  | done => rfl
  | busy st =>
    cases st <;> simp_all [Stage.progress, Progress.publishing, Progress.taking, Progress.zero,
      Progress.all]

section Effect

variable [Payload α]

/-- **What an operation means to the futures.** -/
inductive Effect (g : Graph α) (requests : List (Request α)) (before : Stage α) (t : Table α)
    (a : Advance α) : Prop where
  /-- Nothing. -/
  | quiet (hx : before.due? = none) (ha : a.stage.due? = none) (hr : a.resolved = none)
      (hopen : ∀ r, a.binding.table.Open r ↔ t.Open r)
  /-- A run is over, and its cell is to be resolved. -/
  | ended {r : ObjectId} {q : Request α} {o : RunOutcome α} (hx : before.due? = none)
      (hq : requests[r]? = some q) (ha : a.stage = .resolving q.cell o)
      (ho : g.Prescribed q.inputs r o) (hr : a.resolved = none) (hwas : t.Open r)
      (hopen : ∀ r', a.binding.table.Open r' ↔ t.Open r' ∧ r' ≠ r)
  /-- The cell of a run is resolved. -/
  | resolved {cell : CellId} {o : RunOutcome α} (hx : before = .resolving cell o)
      (ha : a.stage = .over) (hr : a.resolved = some (cell, o))
      (hopen : ∀ r, a.binding.table.Open r ↔ t.Open r)

/-- **What an operation leads to.** -/
structure Turn (k : Strategy) (g : Graph α) (depth : Nat) (closed : Bool)
    (requests : List (Request α)) (executed : List (NodeId × ObjectId)) (b : Binding α)
    (x : Execution α) (rest : List (Execution α)) (a : Advance α) : Prop where
  sound : ∃ launched post, Sound k g depth closed requests launched post
    (executed ++ x.fired a.stage) a.binding (x.onward k g a.stage ++ a.ready.map .ofTask ++ rest)
  effect : Effect g requests x.stage b.table a
  isClosed : a.binding.table.isClosed = b.table.isClosed
  crowded : (b.table.backlog ≠ [] → b.table.free = []) →
    a.binding.table.backlog ≠ [] → a.binding.table.free = []

end Effect

variable [Payload α] {k : Strategy} {g : Graph α} {depth : Nat} {closed : Bool}
  {requests : List (Request α)} {launched : Nat} {post : ObjectId → NodeId → Post α}
  {executed : List (NodeId × ObjectId)} {b b' : Binding α} {x : Execution α}
  {rest : List (Execution α)} {st : Stage α} {tasks : List Task}

/-- An operation that means nothing to the futures. -/
theorem Turn.quiet
    (hs : ∃ post', Sound k g depth closed requests launched post' executed b'
      (x.onward k g st ++ tasks.map .ofTask ++ rest))
    (hx : x.stage.due? = none) (hst : st.due? = none) (hf : x.fired st = [])
    (ht : b.table.SameRuns b'.table) :
    Turn k g depth closed requests executed b x rest
      { binding := b', stage := st, ready := tasks } where
  sound := by
    obtain ⟨post', hs⟩ := hs
    exact ⟨launched, post', by rw [hf, List.append_nil]; exact hs⟩
  effect := .quiet hx hst rfl ht.open_iff
  isClosed := ht.isClosed
  crowded := by
    rw [show b'.table.backlog = _ from ht.backlog, show b'.table.free = _ from ht.free]
    exact id

namespace Sound

variable {σ : SlotId} {r : ObjectId} {s : RunStatus α} {q : Request α}

/-- What is known of an engaged execution. -/
theorem engaged_head (h : Sound k g depth closed requests launched post executed b (x :: rest))
    (he : x.isEngaged k g = true) :
    ∃ r σ s q, post r x.node = .busy x.stage ∧ b.table.Holds σ r s ∧ requests[r]? = some q ∧
      s.cell = some q.cell ∧ x.stage.Serves σ r ∧
      StageFits k g q.inputs s.failed x.node x.stage := by
  obtain ⟨r, σ, s, q, hpost, hs, hq, hc, hb⟩ := h.serving (List.mem_cons_self ..) he
  exact ⟨r, σ, s, q, hpost, hs, hq, hc, hb.posts.serves hpost, hb.posts.fits hpost⟩

/-- What is known of an execution that rests. -/
theorem resting_head (h : Sound k g depth closed requests launched post executed b (x :: rest))
    (he : x.isEngaged k g = false) : x.Rests k g closed :=
  h.manned.resting (List.mem_cons_self ..) he

/-- An execution moves on to a stage that shows the same progress. -/
theorem move_same (hg : g.Frozen)
    (h : Sound k g depth closed requests launched post executed b (x :: rest))
    (he : x.isEngaged k g = true) (hpost : post r x.node = .busy x.stage)
    (hs : b.table.Holds σ r s) (hq : requests[r]? = some q)
    (hsame : st.progress = x.stage.progress) (hserves : st.Serves σ r)
    (hengaged : (⟨x.node, st⟩ : Execution α).isEngaged k g = true)
    (hfits : StageFits k g q.inputs s.failed x.node st) :
    ∃ post', Sound k g depth closed requests launched post' executed b (⟨x.node, st⟩ :: rest) :=
  h.move hg he hpost hs hq
    ⟨fun _ => by rw [hsame], by rw [hsame], fun _ _ _ => by rw [hsame], fun _ => by rw [hsame],
      by rw [hsame]⟩
    (fun _ _ => by rw [hsame]) (fun _ _ => by rw [hsame]) (by rw [hsame]) hserves hengaged hfits

/-! ### Taking the inputs -/

theorem turn_opening (hg : g.Frozen)
    (h : Sound k g depth closed requests launched post executed b (x :: rest)) {slot : SlotId}
    (hst : x.stage = .opening slot) :
    Turn k g depth closed requests executed b x rest (x.advance k b) := by
  have he : x.isEngaged k g = true := by simp [Execution.isEngaged, hst]
  obtain ⟨r, σ, s, q, hpost, hs, hq, -, hserves, hfits⟩ := h.engaged_head he
  rw [hst] at hserves hfits
  obtain rfl : slot = σ := hserves
  have ha : x.advance k b =
      { binding := b, stage := .claiming ⟨slot, r⟩ [] (g.inlets x.node) } := by
    simp only [Execution.advance, hst, hs.1, hs.2.1, h.alike.inlets]
  rw [ha]
  refine .quiet (h.move hg he hpost hs hq ?_ ?_ ?_ ?_ rfl rfl ⟨hfits, [], rfl, .nil⟩) ?_ rfl rfl
    (.refl _)
  · rw [hst]
    exact ⟨fun _ => rfl, rfl, fun _ _ _ => rfl, fun _ => rfl, rfl⟩
  · intro c hc
    rw [hst]
    simp [Stage.progress, Progress.taking, Progress.zero, hc]
  · intro c _
    rw [hst]
    rfl
  · rw [hst]
    rfl
  · rw [hst]
    rfl

/-- **The entries of a task are there**, in all inlets that are left. -/
theorem entry_of_claiming (hg : g.Frozen)
    (h : Sound k g depth closed requests launched post executed b (x :: rest))
    (hpost : post r x.node = .busy x.stage) (hs : b.table.Holds σ r s)
    (hq : requests[r]? = some q) {seat : Seat} {taken : List (Entry α)} {c : Channel}
    {cs : List Channel} (hst : x.stage = .claiming seat taken (c :: cs)) :
    c ∈ g.inlets x.node ∧ c ∉ cs ∧ ∃ p e p', b.graph.pool? c = some p ∧
      b.graph.entryOf? c r = some (e, p') ∧ p.Gives r e p' := by
  have hb := h.books hs hq
  have hv := hb.posts.lt_size hpost
  obtain ⟨hk, cs₀, hin, -⟩ : StageFits k g q.inputs s.failed x.node
      (.claiming seat taken (c :: cs)) := hst ▸ hb.posts.fits hpost
  have hmem : c ∈ g.inlets x.node := by simp [hin]
  obtain ⟨hc, hreader⟩ := (hg.mem_inlets hv).mp hmem
  have hcs : c ∉ cs := by
    have hnd := hg.nodup_inlets x.node
    rw [hin] at hnd
    exact (List.nodup_cons.mp (List.nodup_append.mp hnd).2.1).1
  -- all predecessors have released the node, and so they have published
  have hfilled : filled (fun v => (post r v).progress) c = true := by
    cases c with
    | staging v => rfl
    | edge u v =>
      obtain rfl : v = x.node := hreader
      have hbegun : (post r x.node).progress.begun = true := by
        rw [Post.begun_iff, hpost]
        exact nofun
      have hrel := (hb.counts.begun_iff hk hv).mp hbegun u (hg.linked.mem_predecessors.mpr hc)
      exact Post.published_of_released hrel _
  have hleft : (post r c.reader).progress.taken c = false := by
    rw [hreader, hpost, hst]
    simp [Stage.progress, Progress.taking]
  have hr : r ∈ b.graph.tagsAt c :=
    Graph.mem_tagsAt.mpr ((hb.flow.present_iff hc).mpr ⟨hfilled, hleft⟩)
  obtain ⟨p, hp, -⟩ := h.laid.exists_pool (h.alike.carries.mpr hc)
  rw [Graph.tagsAt_of_pool hp] at hr
  obtain ⟨y, p', hy⟩ := Pool.takeTagged_isSome hr
  have hnd : p.tags.Nodup := by
    rw [← Graph.tagsAt_of_pool hp]
    exact (h.tags c).imp Strategy.Before.ne
  exact ⟨hmem, hcs, p, y.payload, p', hp, by simp [Graph.entryOf?, hp, hy],
    Pool.takeTagged_eq_some hnd hy⟩

theorem turn_claiming (hg : g.Frozen)
    (h : Sound k g depth closed requests launched post executed b (x :: rest)) {seat : Seat}
    {taken : List (Entry α)} {cs : List Channel} (hst : x.stage = .claiming seat taken cs) :
    Turn k g depth closed requests executed b x rest (x.advance k b) := by
  have he : x.isEngaged k g = true := by simp [Execution.isEngaged, hst]
  have hdue : x.stage.due? = none := by rw [hst]; rfl
  obtain ⟨r, σ, s, q, hpost, hs, hq, -, hserves, hfits⟩ := h.engaged_head he
  rw [hst] at hserves hfits
  obtain rfl : seat = ⟨σ, r⟩ := hserves
  obtain ⟨hk, cs₀, hin, hclaimed⟩ := hfits
  cases cs with
  | nil =>
    have ha : x.advance k b = { binding := b, stage := .entering ⟨σ, r⟩ taken } := by
      simp only [Execution.advance, hst]
    rw [ha]
    refine .quiet (h.move_same hg he hpost hs hq (by rw [hst]; rfl) rfl rfl ?_) hdue rfl rfl
      (.refl _)
    rw [List.append_nil] at hin
    exact (hin ▸ hclaimed : Claimed _ _ _)
  | cons c cs =>
    obtain ⟨hc, hcs, p, e, p', hp, hentry, hgive⟩ :=
      h.entry_of_claiming hg hpost hs hq hst
    have ha : x.advance k b = {
        binding := b.modifyGraph (·.setPool c p')
        stage := .claiming ⟨σ, r⟩ (taken ++ c.inputs e) cs } := by
      simp only [Execution.advance, hst, hentry]
    rw [ha]
    exact .quiet (h.take hg he hpost hs hq hc hcs hp hgive (by rw [hst]; rfl) rfl rfl rfl
      fun hfit => ⟨hk, cs₀ ++ [c], by simp [hin], hclaimed.snoc hfit⟩) hdue rfl rfl (.refl _)

/-- The thread of a node looks into the first inlet. It begins with the run that it finds
there, or ends if the pools are closed. -/
theorem turn_first (hg : g.Frozen)
    (h : Sound k g depth closed requests launched post executed b (x :: rest))
    {taken : List (Entry α)} {cs : List Channel} (hst : x.stage = .awaiting none taken cs)
    (hcan : x.canAdvance b = true) :
    Turn k g depth closed requests executed b x rest (x.advance k b) := by
  have hdue : x.stage.due? = none := by rw [hst]; rfl
  have he : x.isEngaged k g = false := by simp [Execution.isEngaged, hst]
  have hrest := h.resting_head he
  simp only [Execution.Rests, hst] at hrest
  obtain ⟨rfl, rfl, rfl⟩ := hrest
  have hv := h.manned.node_lt (List.mem_cons_self ..)
  obtain ⟨c, cs, hin⟩ := List.exists_cons_of_ne_nil (g.inlets_ne_nil x.node)
  rw [hin] at hst
  have hmem : c ∈ g.inlets x.node := by
    rw [hin]
    exact List.mem_cons_self ..
  obtain ⟨p, hp, -⟩ := h.laid.exists_pool (h.alike.carries.mpr ((hg.mem_inlets hv).mp hmem).1)
  by_cases hent : p.entries = []
  · -- the pool is closed, since the thread does not wait
    have hclosed : p.isClosed = true := by
      simpa [Execution.canAdvance, hst, hp, Pool.popWaits_of_nil hent] using hcan
    have ha : x.advance .dedicated b = { binding := b, stage := .stopped } := by
      simp only [Execution.advance, hst, Execution.awaitOne, hp, Pool.pop_of_nil hent, hclosed,
        if_true]
    rw [ha]
    have hrests : ∀ {y : Execution α}, y ∈ [(⟨x.node, .stopped⟩ : Execution α)] →
        y.isEngaged .dedicated g = false ∧ y.Rests .dedicated g closed := by
      intro y hy
      obtain rfl := List.mem_singleton.mp hy
      exact ⟨rfl, rfl, (h.laid.closed hp).symm.trans hclosed⟩
    exact .quiet ⟨post, h.give_way he hrests fun _ => rfl⟩ hdue rfl rfl (.refl _)
  · obtain ⟨y, p', hpop⟩ := Pool.pop_of_ne_nil hent
    have ha : x.advance .dedicated b = {
        binding := b.modifyGraph (·.setPool c p')
        stage := .awaiting (some y.objectId) (c.inputs y.payload) cs } := by
      simp [Execution.advance, hst, Execution.awaitOne, hp, hpop]
    rw [ha]
    exact .quiet (h.attach hg hst hin hp hpop) hdue rfl rfl (.refl _)

/-- The thread of a node that has begun with a run looks into the next inlet, or is through
with them. -/
theorem turn_awaiting (hg : g.Frozen)
    (h : Sound k g depth closed requests launched post executed b (x :: rest)) {run : ObjectId}
    {taken : List (Entry α)} {cs : List Channel}
    (hst : x.stage = .awaiting (some run) taken cs) (hcan : x.canAdvance b = true) :
    Turn k g depth closed requests executed b x rest (x.advance k b) := by
  have hdue : x.stage.due? = none := by rw [hst]; rfl
  have he : x.isEngaged k g = true := by simp [Execution.isEngaged, hst]
  obtain ⟨r, σ, s, q, hpost, hs, hq, -, hserves, hfits⟩ := h.engaged_head he
  rw [hst] at hserves hfits
  obtain rfl : run = r := Option.some.inj hserves
  obtain ⟨rfl, cs₀, hin, hclaimed⟩ := hfits
  have hv := h.manned.node_lt (List.mem_cons_self ..)
  cases cs with
  | nil =>
    have ha : x.advance .dedicated b = { binding := b, stage := .locating run taken } := by
      simp only [Execution.advance, hst]
    rw [ha]
    refine .quiet (h.move_same hg he hpost hs hq (by rw [hst]; rfl) rfl rfl ⟨rfl, ?_⟩) hdue rfl
      rfl (.refl _)
    rw [List.append_nil] at hin
    exact (hin ▸ hclaimed : Claimed _ _ _)
  | cons c cs =>
    have hmem : c ∈ g.inlets x.node := by simp [hin]
    obtain ⟨p, hp, -⟩ := h.laid.exists_pool (h.alike.carries.mpr ((hg.mem_inlets hv).mp hmem).1)
    -- as long as a run is in flight, the pools are not closed
    have hent : p.entries ≠ [] := by
      intro hent
      simp [Execution.canAdvance, hst, hp, Pool.popWaits_of_nil hent, h.laid.closed hp,
        h.not_closed ⟨σ, s, hs⟩] at hcan
    obtain ⟨y, p', hpop⟩ := Pool.pop_of_ne_nil hent
    obtain ⟨rfl, hs'⟩ := h.await hg hpost hs hq hst hp hpop
    have ha : x.advance .dedicated b = {
        binding := b.modifyGraph (·.setPool c p')
        stage := .awaiting (some y.objectId) (taken ++ c.inputs y.payload) cs } := by
      simp [Execution.advance, hst, Execution.awaitOne, hp, hpop]
    rw [ha]
    exact .quiet hs' hdue rfl rfl (.refl _)

theorem turn_locating (hg : g.Frozen)
    (h : Sound k g depth closed requests launched post executed b (x :: rest)) {run : ObjectId}
    {taken : List (Entry α)} (hst : x.stage = .locating run taken) :
    Turn k g depth closed requests executed b x rest (x.advance k b) := by
  have he : x.isEngaged k g = true := by simp [Execution.isEngaged, hst]
  obtain ⟨r, σ, s, q, hpost, hs, hq, -, hserves, hfits⟩ := h.engaged_head he
  rw [hst] at hserves hfits
  obtain rfl : run = r := hserves
  have ha : x.advance k b = { binding := b, stage := .entering ⟨σ, run⟩ taken } := by
    simp only [Execution.advance, hst, h.ledger.slotOf?_eq hs]
  rw [ha]
  exact .quiet (h.move_same hg he hpost hs hq (by rw [hst]; rfl) rfl rfl hfits.2)
    (by rw [hst]; rfl) rfl rfl (.refl _)

/-! ### The callback -/

/-- A node fires; this means nothing to the futures. -/
theorem turn_fire (hg : g.Frozen)
    (h : Sound k g depth closed requests launched post executed b (x :: rest))
    (he : x.isEngaged k g = true) (hpost : post r x.node = .busy x.stage)
    (hs : b.table.Holds σ r s) (hq : requests[r]? = some q) (hdue : x.stage.due? = none)
    (hold : x.stage.progress = .taking []) {n : Node α} {called : Bool}
    {result : Option (Except ExecutionError α)}
    (hf : (n.conclude x.node result).Fits g q.inputs s.failed x.node) :
    Turn k g depth closed requests executed b x rest
      (Execution.conclude b x.node n ⟨σ, r⟩ called result) where
  sound := by
    obtain ⟨post', hs'⟩ := h.fire hg he hpost hs hq hold hf called
    exact ⟨launched, post', hs'⟩
  effect := .quiet hdue rfl rfl fun _ => Iff.rfl
  isClosed := rfl
  crowded := id

theorem turn_entering (hg : g.Frozen)
    (h : Sound k g depth closed requests launched post executed b (x :: rest)) {seat : Seat}
    {inputs : List (Entry α)} (hst : x.stage = .entering seat inputs) :
    Turn k g depth closed requests executed b x rest (x.advance k b) := by
  have he : x.isEngaged k g = true := by simp [Execution.isEngaged, hst]
  have hdue : x.stage.due? = none := by rw [hst]; rfl
  have hold : x.stage.progress = .taking [] := by rw [hst]; rfl
  obtain ⟨r, σ, s, q, hpost, hs, hq, -, hserves, hfits⟩ := h.engaged_head he
  rw [hst] at hserves hfits
  obtain rfl : seat = ⟨σ, r⟩ := hserves
  obtain ⟨n, hn⟩ := Graph.node_of_lt ((h.books hs hq).posts.lt_size hpost)
  have hn' : b.graph.nodes[x.node]? = some n := by rw [h.alike.nodes, hn]
  simp only [Execution.advance, hst, hs.1, hn']
  cases hx : gather inputs s.failed with
  | none =>
    exact h.turn_fire hg he hpost hs hq hdue hold
      (.of_skipped hn (Graph.failed_of_gather hfits hx))
  | some xs =>
    have hreceived := Graph.received_of_gather hfits hx
    cases hw : n.work with
    | none =>
      have hinvoke : n.invoke x.node xs = forward x.node xs := by simp only [Node.invoke, hw]
      exact h.turn_fire hg he hpost hs hq hdue hold (hinvoke ▸ .of_fate hg hn hreceived)
    | some work =>
      have hinvoke : n.invoke x.node xs = (work xs).verdict.judge x.node := by
        simp only [Node.invoke, hw]
      exact .quiet (h.move_same hg he hpost hs hq (by rw [hst]; rfl) rfl rfl
        ⟨hreceived, n, hn, hinvoke⟩) hdue rfl rfl (.refl _)

theorem turn_working (hg : g.Frozen)
    (h : Sound k g depth closed requests launched post executed b (x :: rest)) {seat : Seat}
    {xs : List α} {c : Computation α} (hst : x.stage = .working seat xs c) :
    Turn k g depth closed requests executed b x rest (x.advance k b) := by
  have he : x.isEngaged k g = true := by simp [Execution.isEngaged, hst]
  have hdue : x.stage.due? = none := by rw [hst]; rfl
  have hold : x.stage.progress = .taking [] := by rw [hst]; rfl
  obtain ⟨r, σ, s, q, hpost, hs, hq, -, hserves, hfits⟩ := h.engaged_head he
  rw [hst] at hserves hfits
  obtain rfl : seat = ⟨σ, r⟩ := hserves
  obtain ⟨hreceived, n, hn, hinvoke⟩ := hfits
  have hn' : b.graph.nodes[x.node]? = some n := by rw [h.alike.nodes, hn]
  cases c with
  | hold barrier c =>
    simp only [Execution.advance, hst]
    exact .quiet (h.move_same hg he hpost hs hq (by rw [hst]; rfl) rfl rfl
      ⟨hreceived, n, hn, hinvoke⟩) hdue rfl rfl (.refl _)
  | done v =>
    simp only [Execution.advance, hst, hn']
    refine h.turn_fire hg he hpost hs hq hdue hold ?_
    rw [show v.judge x.node = n.invoke x.node xs from hinvoke.symm]
    exact .of_fate hg hn hreceived

/-- The bookkeeping of a run in flight is changed, but not who holds the slots. -/
theorem sameRuns_modify (h : Sound k g depth closed requests launched post executed b (x :: rest))
    (hs : b.table.Holds σ r s) {f : RunStatus α → RunStatus α}
    (hf : ∀ s, (f s).objectId = s.objectId ∧ (f s).cell = s.cell) :
    b.table.SameRuns (b.modifyStatus σ f).table :=
  (h.ledger.amends_modify hs hf).sameRuns ⟨σ, s, hs⟩

theorem turn_recording (hg : g.Frozen)
    (h : Sound k g depth closed requests launched post executed b (x :: rest)) {seat : Seat}
    {f : Firing α} (hst : x.stage = .recording seat f) :
    Turn k g depth closed requests executed b x rest (x.advance k b) := by
  have he : x.isEngaged k g = true := by simp [Execution.isEngaged, hst]
  obtain ⟨r, σ, s, q, hpost, hs, hq, -, hserves, -⟩ := h.engaged_head he
  rw [hst] at hserves
  obtain rfl : seat = ⟨σ, r⟩ := hserves
  simp only [Execution.advance, hst, h.alike.outlets]
  exact .quiet (h.record hg he hpost hs hq hst) (by rw [hst]; rfl) rfl rfl
    (h.sameRuns_modify hs fun s => by rw [s.record_eq]; exact ⟨rfl, rfl⟩)

/-! ### Passing it on -/

omit [Payload α] in
/-- What a thread turns to when its execution is over rests. -/
theorem rests_of_over (k : Strategy) (g : Graph α) (closed : Bool) (x : Execution α) :
    (∀ {y}, y ∈ x.onward k g (.over : Stage α) →
      y.isEngaged k g = false ∧ y.Rests k g closed) ∧
    ((x.onward k g (.over : Stage α)).map (·.node)).Nodup ∧
    (k = .dedicated → (x.onward k g (.over : Stage α)).map (·.node) = [x.node]) := by
  cases k with
  | stealing => exact ⟨nofun, List.nodup_nil, nofun⟩
  | dedicated =>
    refine ⟨fun hy => ?_, List.nodup_singleton _, fun _ => rfl⟩
    obtain rfl := List.mem_singleton.mp hy
    exact ⟨rfl, rfl, rfl, rfl⟩

/-- An execution that rests is over. -/
theorem turn_over (h : Sound k g depth closed requests launched post executed b (x :: rest))
    (he : x.isEngaged k g = false) (hdue : x.stage.due? = none) :
    Turn k g depth closed requests executed b x rest { binding := b, stage := .over } :=
  .quiet ⟨post, by
    rw [List.map_nil, List.append_nil]
    exact h.give_way he (rests_of_over k g closed x).1 (rests_of_over k g closed x).2.2⟩
    hdue rfl rfl (.refl _)

theorem turn_publishing (hg : g.Frozen)
    (h : Sound k g depth closed requests launched post executed b (x :: rest)) {seat : Seat}
    {ds : Deliveries α} {waiting : Bool} (hst : x.stage = .publishing seat ds waiting) :
    Turn k g depth closed requests executed b x rest (x.advance k b) := by
  have hdue : x.stage.due? = none := by rw [hst]; rfl
  by_cases he : x.isEngaged k g = true
  · obtain ⟨r, σ, s, q, hpost, hs, hq, -, hserves, hfits⟩ := h.engaged_head he
    rw [hst] at hserves hfits
    obtain rfl : seat = ⟨σ, r⟩ := hserves
    obtain rfl : waiting = false := hfits.1
    cases ds with
    | cons d ds =>
      obtain ⟨c, e⟩ := d
      obtain ⟨p, hp, -, hpush, hs'⟩ := h.publish hg he hpost hs hq hst
      simp only [Execution.advance, hst, Execution.publish, hp, hpush]
      exact .quiet hs' hdue rfl rfl (.refl _)
    | nil =>
      -- a sink is counted next, and a worker goes on to release the successors
      simp only [Execution.advance, hst, Execution.afterPublishing, h.alike.successors]
      cases hsucc : g.successors x.node with
      | nil =>
        refine .quiet (h.move hg he hpost hs hq ?_ ?_ ?_ ?_ rfl rfl hsucc) hdue rfl rfl (.refl _)
        · rw [hst]
          refine ⟨fun _ => rfl, rfl, fun _ w hw => ?_, fun _ => rfl, rfl⟩
          rw [hsucc] at hw
          cases hw
        all_goals
          rw [hst]
          try intros
          rfl
      | cons w ws =>
        have hk : k = .stealing := by simpa [Execution.isEngaged, hst, hsucc] using he
        subst hk
        refine .quiet (h.move hg he hpost hs hq ?_ ?_ ?_ ?_ rfl rfl ⟨rfl, ?_⟩) hdue rfl rfl
          (.refl _)
        · rw [hst]
          refine ⟨fun _ => rfl, rfl, fun _ u hu => ?_, fun _ => rfl, rfl⟩
          simp [Stage.progress, Progress.publishing, Progress.taking, Progress.zero, ← hsucc, hu]
        · intro _ _
          rw [hst]
          rfl
        · intro _ _
          rw [hst]
          rfl
        · rw [hst]
          rfl
        · exact hsucc ▸ List.suffix_refl _
  -- a thread that has published everything for successors has nothing left to do
  · have he : x.isEngaged k g = false := by simpa using he
    have hrest := h.resting_head he
    simp only [Execution.Rests, hst] at hrest
    obtain ⟨rfl, rfl⟩ := hrest
    have hsucc : g.successors x.node ≠ [] := by
      intro hnil
      simp [Execution.isEngaged, hst, hnil] at he
    obtain ⟨w, ws, hw⟩ := List.exists_cons_of_ne_nil hsucc
    simp only [Execution.advance, hst, Execution.afterPublishing, h.alike.successors, hw]
    exact h.turn_over he hdue

theorem turn_releasing (hg : g.Frozen)
    (h : Sound k g depth closed requests launched post executed b (x :: rest)) {seat : Seat}
    {ws : List NodeId} (hst : x.stage = .releasing seat ws) :
    Turn k g depth closed requests executed b x rest (x.advance k b) := by
  have hdue : x.stage.due? = none := by rw [hst]; rfl
  cases ws with
  | nil =>
    simp only [Execution.advance, hst]
    exact h.turn_over (by simp [Execution.isEngaged, hst]) hdue
  | cons w ws =>
    have he : x.isEngaged k g = true := by simp [Execution.isEngaged, hst]
    obtain ⟨r, σ, s, q, hpost, hs, hq, -, hserves, hfits⟩ := h.engaged_head he
    rw [hst] at hserves hfits
    obtain rfl : seat = ⟨σ, r⟩ := hserves
    obtain ⟨last, hverdict, hs'⟩ := h.release hg he hpost hs hq hst
    simp only [Execution.advance, hst, hverdict]
    exact .quiet hs' hdue rfl rfl (h.sameRuns_modify hs fun _ => ⟨rfl, rfl⟩)

theorem turn_finishing (hg : g.Frozen)
    (h : Sound k g depth closed requests launched post executed b (x :: rest)) {seat : Seat}
    (hst : x.stage = .finishing seat) :
    Turn k g depth closed requests executed b x rest (x.advance k b) := by
  have hdue : x.stage.due? = none := by rw [hst]; rfl
  have he : x.isEngaged k g = true := by simp [Execution.isEngaged, hst]
  obtain ⟨r, σ, s, q, hpost, hs, hq, -, hserves, hfits⟩ := h.engaged_head he
  rw [hst] at hserves hfits
  obtain rfl : seat = ⟨σ, r⟩ := hserves
  obtain ⟨hnews, hnodup, hnodes⟩ := rests_of_over k g closed x
  obtain ⟨last, hverdict, hs'⟩ := h.finish hg he hpost hs hq hst hnews hnodup hnodes
  simp only [Execution.advance, hst, hverdict]
  have hruns := h.sameRuns_modify hs (f := RunStatus.finishSink) fun _ => ⟨rfl, rfl⟩
  cases last with
  | true => exact .quiet hs' hdue rfl rfl hruns
  | false =>
    obtain ⟨post', hs'⟩ := hs'
    exact .quiet ⟨post', by
      rw [List.map_nil, List.append_nil]
      exact hs'⟩ hdue rfl rfl hruns

/-! ### The end of a run -/

/-- **A run is over**, and the oldest run of the backlog gets its slot. -/
theorem turn_completing (hg : g.Frozen) (hsize : 0 < g.nodes.size)
    (h : Sound k g depth closed requests launched post executed b (x :: rest)) {seat : Seat}
    (hst : x.stage = .completing seat) :
    Turn k g depth closed requests executed b x rest (x.advance k b) := by
  have hdue : x.stage.due? = none := by rw [hst]; rfl
  have he : x.isEngaged k g = true := by simp [Execution.isEngaged, hst]
  obtain ⟨r, σ, s, q, hpost, hs, hq, hcell, hserves, hfits⟩ := h.engaged_head he
  rw [hst] at hserves hfits
  obtain rfl : seat = ⟨σ, r⟩ := hserves
  have hflight : b.table.InFlight r := ⟨σ, s, hs⟩
  -- the outcome that the cell is to be resolved with
  let o : RunOutcome α :=
    s.error.elim (.ok (.ofOutputs r s.outputs.reverse)) fun e => .error (.execution e)
  obtain ⟨hprescribed, post', hretired⟩ := h.retire hg he hpost hs hq hst q.cell o
  have hopen := h.ledger.open_retire hs
  have heq := h.ledger.complete_eq hs hcell
  cases hb : b.table.backlog with
  | nil =>
    rw [hb] at heq
    have ha : x.advance k b =
        { binding := { b with table := b.table.retire σ s }, stage := .resolving q.cell o } := by
      simp only [Execution.advance, hst, Execution.complete, heq, List.head?_nil,
        Option.map_none, o]
    rw [ha]
    exact {
      sound := ⟨launched, post', by
        rw [show x.fired (.resolving q.cell o) = [] from rfl, List.append_nil]
        exact hretired⟩
      effect := .ended hdue hq rfl hprescribed rfl (Or.inl hflight) hopen
      isClosed := rfl
      crowded := fun _ hne => absurd hb hne }
  | cons next backlog =>
    rw [hb] at heq
    -- the slot that was given back is on top of the stack
    have hbr : (b.table.retire σ s).backlog = next :: backlog := hb
    have hfr : (b.table.retire σ s).free = σ :: b.table.free := rfl
    obtain rfl := h.not_closed hflight
    obtain ⟨graph, hstart, post'', hlaunched⟩ := hretired.launch hg hsize hbr hfr
    have ha : x.advance k b = {
        binding := ⟨graph, (b.table.retire σ s).promote⟩
        stage := .resolving q.cell o
        ready := firstTasks k g σ } := by
      simp only [Execution.advance, hst, Execution.complete, heq, List.head?_cons, Option.map_some,
        hstart, firstTasks, o]
    rw [ha]
    exact {
      sound := ⟨launched + 1, post'', by
        rw [show x.fired (.resolving q.cell o) = [] from rfl, List.append_nil]
        exact hlaunched.perm List.perm_middle⟩
      effect := .ended hdue hq rfl hprescribed rfl (Or.inl hflight) fun r' =>
        (hretired.ledger.open_promote hbr hfr r').trans (hopen r')
      isClosed := by rw [Table.Ledger.promote_eq hbr hfr]; rfl
      crowded := fun hcrowd _ => by
        rw [Table.Ledger.promote_eq hbr hfr]
        exact hcrowd (by simp [hb]) }

theorem turn_resolving
    (h : Sound k g depth closed requests launched post executed b (x :: rest)) {cell : CellId}
    {o : RunOutcome α} (hst : x.stage = .resolving cell o) :
    Turn k g depth closed requests executed b x rest (x.advance k b) := by
  have he : x.isEngaged k g = false := by simp [Execution.isEngaged, hst]
  obtain ⟨hnews, -, hnodes⟩ := rests_of_over k g closed x
  simp only [Execution.advance, hst]
  exact {
    sound := ⟨launched, post, by
      rw [List.map_nil, List.append_nil, show x.fired (.over : Stage α) = [] from rfl,
        List.append_nil]
      exact h.give_way he hnews hnodes⟩
    effect := .resolved hst rfl rfl fun _ => Iff.rfl
    isClosed := rfl
    crowded := id }

/-- **Every operation keeps the invariant**, and no check fails. -/
theorem turn (hg : g.Frozen) (hsize : 0 < g.nodes.size)
    (h : Sound k g depth closed requests launched post executed b (x :: rest))
    (hcan : x.canAdvance b = true) :
    Turn k g depth closed requests executed b x rest (x.advance k b) := by
  cases hst : x.stage with
  | opening slot => exact h.turn_opening hg hst
  | claiming seat taken cs => exact h.turn_claiming hg hst
  | awaiting run taken cs =>
    cases run with
    | none => exact h.turn_first hg hst hcan
    | some run => exact h.turn_awaiting hg hst hcan
  | locating run taken => exact h.turn_locating hg hst
  | entering seat inputs => exact h.turn_entering hg hst
  | working seat xs c => exact h.turn_working hg hst
  | recording seat f => exact h.turn_recording hg hst
  | publishing seat ds waiting => exact h.turn_publishing hg hst
  | releasing seat ws => exact h.turn_releasing hg hst
  | finishing seat => exact h.turn_finishing hg hst
  | completing seat => exact h.turn_completing hg hsize hst
  | resolving cell o => exact h.turn_resolving hst
  -- nothing is left to do
  | _ => simp [Execution.canAdvance, hst] at hcan

end Sound

end Dataflow
