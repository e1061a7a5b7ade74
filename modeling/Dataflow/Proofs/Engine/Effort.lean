import Mathlib
import Dataflow.Proofs.Engine.Register

/-!
# How much is left to do

The operations of executions that can still follow are bounded. An execution has so many
of them ahead of it (`Stage.effort`): up to the firing of its node, or after it. What comes
after the firing of a node is not counted with the execution before, but with the pairs
of a node and a run that are not on record yet; and the tasks of the runs that wait are
counted with the backlog. Every move makes the sum of all this, `Scene.effort`, smaller by
one at least (`Scene.effort_move`), and a launch leaves it as it is (`Scene.effort_launch`).

How many operations a callback takes depends on its inputs. These are known from the
evaluation of the run, and so there is a bound for all callbacks of the accepted runs,
`Graph.patience`.
-/

namespace Dataflow

variable {α : Type}

/-! ### Callbacks -/

namespace Graph

variable [Payload α]

/-- The barriers that the callback of a node passes in a run; none if it is not called. -/
def barriers (g : Graph α) (staged : Staged α) (v : NodeId) : Nat :=
  match (g.nodes[v]?).bind (·.work), g.received staged (g.evaluate staged) v with
  | some work, some xs => (work xs).barriers.length
  | _, _ => 0

/-- A number that no callback exceeds with its barriers. -/
def patience (g : Graph α) (requests : List (Request α)) : Nat :=
  (requests.map fun q => ((List.range g.nodes.size).map (g.barriers q.inputs)).sum).sum

theorem barriers_le_patience {g : Graph α} {requests : List (Request α)} {q : Request α}
    {v : NodeId} (hq : q ∈ requests) (hv : v < g.nodes.size) :
    g.barriers q.inputs v ≤ g.patience requests := by
  have hrun : g.barriers q.inputs v ≤
      ((List.range g.nodes.size).map (g.barriers q.inputs)).sum :=
    List.single_le_sum (fun _ _ => Nat.zero_le _) _
      (List.mem_map_of_mem (List.mem_range.mpr hv))
  exact hrun.trans (List.single_le_sum (fun _ _ => Nat.zero_le _) _
    (List.mem_map_of_mem (f := fun q => ((List.range g.nodes.size).map
      (g.barriers q.inputs)).sum) hq))

end Graph

/-! ### Executions -/

section Effort

variable (k : Strategy) (g : Graph α) (n : Nat)

/-- The operations up to the firing of a node that has all its inputs still to take, if its
callback passes `n` barriers at most. -/
def Graph.approach (v : NodeId) : Nat :=
  (g.inlets v).length + n + 4

/-- What is ahead of the thread of a node that turns to the next run. -/
def Graph.renewal (v : NodeId) : Nat :=
  match k with
  | .stealing => 0
  | .dedicated => g.approach n v

/-- The operations after a node has published its entries. -/
def Stage.aftermath (v : NodeId) : Stage α → Nat
  | .releasing _ ws => (ws.map fun w => g.approach n w + 1).sum + 1 + g.renewal k n v
  | .finishing _ => g.renewal k n v + 3
  | .completing _ => g.renewal k n v + 2
  | .resolving _ _ => g.renewal k n v + 1
  | .over => g.renewal k n v
  | _ => 0

/-- The operations after a node has fired. -/
def Graph.departure (v : NodeId) : Nat :=
  (g.outlets v).length + 2 +
    (Execution.afterPublishing k g v ⟨0, 0⟩ : Stage α).aftermath k g n v

/-- **The operations that are ahead of an execution**: up to the firing of its node, or
after it. -/
def Stage.effort (v : NodeId) : Stage α → Nat
  | .opening _ => g.approach n v
  | .claiming _ _ cs => cs.length + n + 3
  | .awaiting _ _ cs => cs.length + n + 4
  | .locating _ _ => n + 3
  | .entering _ _ => n + 2
  | .working _ _ c => c.barriers.length + 1
  | .recording _ _ => g.departure k n v
  | .publishing seat ds _ =>
    ds.length + 1 + (Execution.afterPublishing k g v seat : Stage α).aftermath k g n v
  | st => st.aftermath k g n v

/-- The sum over a load. -/
def Execution.efforts (load : List (Execution α)) : Nat :=
  (load.map fun x => x.stage.effort k g n x.node).sum

end Effort

section Executions

variable {k : Strategy} {g : Graph α} {n : Nat}

theorem Execution.efforts_append (load load' : List (Execution α)) :
    efforts k g n (load ++ load') = efforts k g n load + efforts k g n load' := by
  simp [efforts]

theorem Execution.efforts_perm {load load' : List (Execution α)} (h : load.Perm load') :
    efforts k g n load = efforts k g n load' :=
  (h.map _).sum_eq

/-- What is ahead does not depend on the slot. -/
theorem Graph.departure_eq (seat : Seat) (v : NodeId) : g.departure k n v =
    (g.outlets v).length + 2 +
      (Execution.afterPublishing k g v seat : Stage α).aftermath k g n v := by
  unfold departure Execution.afterPublishing
  cases g.successors v <;> cases k <;> rfl

theorem Stage.effort_afterPublishing (v : NodeId) (seat : Seat) :
    (Execution.afterPublishing k g v seat : Stage α).effort k g n v =
      (Execution.afterPublishing k g v seat : Stage α).aftermath k g n v := by
  unfold Execution.afterPublishing
  cases g.successors v <;> cases k <;> rfl

/-- Whoever turns to the next run has that ahead. -/
theorem Execution.efforts_onward (x : Execution α) (st : Stage α) :
    efforts k g n (x.onward k g st) = st.effort k g n x.node := by
  unfold onward
  split
  · cases k with
    | stealing => rfl
    | dedicated => simp [efforts, await, Stage.effort, Stage.aftermath, Graph.renewal,
        Graph.approach]
  · simp [efforts]

/-- **A move brings an execution nearer to its end**, those counted in that it calls up. -/
theorem Move.effort_lt [Payload α] {b : Binding α} {x : Execution α} {a : Advance α}
    {ds : List (Deed α)} {depth launched : Nat} {closed : Bool} {requests : List (Request α)}
    {post : ObjectId → NodeId → Post α} {executed : List (NodeId × ObjectId)}
    {rest : List (Execution α)} (hm : Move k g b x a ds)
    (h : Sound k g depth closed requests launched post executed b (x :: rest))
    (hn : n = g.patience requests) :
    a.stage.effort k g n x.node +
        Execution.efforts k g n (a.ready.map .ofTask : List (Execution α)) <
      x.stage.effort k g n x.node + ((x.fired a.stage).map fun p => g.departure k n p.1).sum := by
  cases hm with
  | @called σ r s inputs xs nd work hst hs hnode hw hx =>
    obtain ⟨r', σ', st, q, hpost, hst', hq, -, hserves, hfits⟩ :=
      h.engaged_head (by simp [Execution.isEngaged, hst])
    rw [hst] at hserves hfits
    obtain ⟨rfl, rfl⟩ := Seat.mk.inj hserves
    have hreceived := Graph.received_of_gather hfits hx
    have hle := Graph.barriers_le_patience (g := g) (List.mem_of_getElem? hq)
      ((h.books hst' hq).posts.lt_size hpost)
    have hcall : g.barriers q.inputs x.node = (work xs).barriers.length := by
      rw [Graph.barriers, hnode, Option.bind_some, hw, hreceived]
    rw [← hn, hcall] at hle
    simp only [hst, Execution.efforts, Execution.fired, Stage.effort, List.map_nil, List.sum_nil]
    omega
  | passed hst =>
    have hfired : ∀ seat, x.fired (Execution.afterPublishing k g x.node seat) = [] := fun seat => by
      unfold Execution.afterPublishing
      cases g.successors x.node <;> cases k <;> rfl
    rw [Stage.effort_afterPublishing, hst, hfired]
    simp only [Execution.efforts, Stage.effort, List.map_nil, List.sum_nil, List.length_nil]
    omega
  | released last hk hst hs =>
    simp only [hst, Execution.efforts, Execution.fired, Stage.effort, Stage.aftermath,
      List.map_nil, List.sum_nil, List.map_cons, List.sum_cons]
    cases last <;> simp [Execution.ofTask]
    all_goals omega
  | finished last hst hs =>
    cases last <;> simp [hst, Execution.efforts, Execution.fired, Stage.effort, Stage.aftermath]
  | @recorded σ r s f hst hs hout =>
    have hlen := congrArg List.length hout
    rw [List.length_map] at hlen
    simp only [hst, Execution.efforts, Execution.fired, Stage.effort, hlen, g.departure_eq ⟨σ, r⟩,
      List.map_nil, List.sum_nil]
    omega
  | opened hst | claimed p hst | gathered hst | drawn p hk hst | dismissed hk hst
  | assembled hk hst | located hk hst | skipped hst | held hst | returned hst
  | published p hst | left hst | ended hst | resolved hst =>
    simp only [hst, Execution.conclude, Execution.efforts, Execution.fired, Stage.effort,
      Stage.aftermath, Graph.approach, Computation.barriers, List.map_nil, List.sum_nil,
      List.map_cons, List.sum_cons, List.length_cons, List.length_nil]
    omega

end Executions

/-! ### Scenes -/

namespace Scene

variable [Payload α] (k : Strategy) (s : Scene α)

omit [Payload α] in
/-- The pairs of a node and an accepted run that are not on record yet. -/
def missing : Finset (NodeId × ObjectId) :=
  (Finset.range s.graph.nodes.size ×ˢ Finset.range s.requests.length) \ s.executed.toFinset

/-- A number that no callback exceeds with its barriers. -/
def patience : Nat :=
  s.graph.patience s.requests

/-- What is ahead for the tasks of a run when it is launched. -/
def overture : Nat :=
  Execution.efforts k s.graph s.patience ((firstTasks k s.graph 0).map .ofTask)

/-- **How much is left to do**: by the executions, for the pairs that are not on record, and
for the runs that wait. -/
def effort : Nat :=
  Execution.efforts k s.graph s.patience s.load +
    (s.missing.sum fun p => s.graph.departure k s.patience p.1) +
    s.binding.table.backlog.length * s.overture k

variable {k s}

/-- Neither the order of what is left to do matters, nor what has been done. -/
theorem effort_congr {s' : Scene α} (hg : s'.graph = s.graph) (hr : s'.requests = s.requests)
    (he : s'.executed = s.executed)
    (hb : s'.binding.table.backlog.length = s.binding.table.backlog.length)
    (hp : s'.load.Perm s.load) : s'.effort k = s.effort k := by
  have hsum := Execution.efforts_perm (k := k) (g := s.graph) (n := s.patience) hp
  simp only [effort, overture, patience, missing, hg, hr, he, hb] at hsum ⊢
  rw [hsum]

/-- A node that fires is not missing any more. -/
theorem sum_missing_move {x : Execution α} {rest : List (Execution α)} {a : Advance α}
    {ds : List (Deed α)} (hs : s.Sound k) (hload : s.load = x :: rest)
    (hm : Move k s.graph s.binding x a ds) (f : NodeId × ObjectId → Nat) :
    ((x.fired a.stage).map f).sum + (s.move k x rest a ds).missing.sum f = s.missing.sum f := by
  obtain ⟨depth, closed, launched, post, hsound⟩ := hs.sound
  rw [hload] at hsound
  rcases hm.fired_fresh hsound with he | ⟨r, he, hnew, hv, hr⟩
  · simp [missing, move, he]
  · have herase : (s.move k x rest a ds).missing = s.missing.erase (x.node, r) := by
      ext p
      simp only [missing, move, he, List.toFinset_append, List.toFinset_cons,
        List.toFinset_nil, Finset.mem_sdiff, Finset.mem_union, Finset.mem_erase,
        Finset.mem_insert, Finset.notMem_empty, or_false]
      tauto
    have hmem : (x.node, r) ∈ s.missing := by simp [missing, hv, hr, hnew]
    rw [herase, he, List.map_singleton, List.sum_singleton]
    exact Finset.add_sum_erase _ _ hmem

/-- **A move leaves less to do.** What a node has to do after it has fired is counted with
its execution from then on. -/
theorem effort_move {x : Execution α} {rest : List (Execution α)} {a : Advance α}
    {ds : List (Deed α)} (hs : s.Sound k) (hload : s.load = x :: rest)
    (hm : Move k s.graph s.binding x a ds) : (s.move k x rest a ds).effort k < s.effort k := by
  have hmissing :=
    sum_missing_move hs hload hm fun p => s.graph.departure k s.patience p.1
  obtain ⟨depth, closed, launched, post, hsound⟩ := hs.sound
  rw [hload] at hsound
  have hlt : a.stage.effort k s.graph s.patience x.node + _ < _ := hm.effort_lt hsound rfl
  have hbefore : Execution.efforts k s.graph s.patience s.load =
      x.stage.effort k s.graph s.patience x.node +
        Execution.efforts k s.graph s.patience rest := by
    rw [hload]
    rfl
  have hafter : Execution.efforts k s.graph s.patience (s.move k x rest a ds).load =
      a.stage.effort k s.graph s.patience x.node +
        Execution.efforts k s.graph s.patience (a.ready.map .ofTask) +
        Execution.efforts k s.graph s.patience rest := by
    simp only [move, Execution.efforts_append, Execution.efforts_onward]
  have hbacklog : (s.move k x rest a ds).binding.table.backlog = s.binding.table.backlog :=
    hm.backlog
  have hsame : (s.move k x rest a ds).effort k =
      Execution.efforts k s.graph s.patience (s.move k x rest a ds).load +
        ((s.move k x rest a ds).missing.sum fun p => s.graph.departure k s.patience p.1) +
        s.binding.table.backlog.length * s.overture k := by
    rw [← hbacklog]
    rfl
  rw [hsame, effort, hafter, hbefore]
  omega

omit [Payload α] in
/-- In whatever slot, a run calls for the same executions when it is launched. -/
theorem efforts_firstTasks (g : Graph α) (n : Nat) (σ τ : SlotId) :
    Execution.efforts k g n ((firstTasks k g σ).map .ofTask) =
      Execution.efforts k g n ((firstTasks k g τ).map .ofTask) := by
  cases k <;> simp [Execution.efforts, firstTasks, Execution.ofTask, Stage.effort,
    Function.comp_def]

/-- **A launch leaves as much to do as before.** -/
theorem effort_launch {next : Pending α} {backlog : List (Pending α)} {σ : SlotId}
    {free : List SlotId} (hb : s.binding.table.backlog = next :: backlog)
    (hf : s.binding.table.free = σ :: free) (graph : Graph α) :
    (s.launch k ⟨σ, next.objectId⟩ graph).effort k = s.effort k := by
  have hload : Execution.efforts k s.graph s.patience
      (s.launch k ⟨σ, next.objectId⟩ graph).load =
      s.overture k + Execution.efforts k s.graph s.patience s.load := by
    rw [overture, efforts_firstTasks s.graph s.patience 0 σ, ← Execution.efforts_append]
    rfl
  have hrest : s.binding.table.promote.backlog = backlog := by rw [Table.Ledger.promote_eq hb hf]
  have hsame : (s.launch k ⟨σ, next.objectId⟩ graph).effort k =
      Execution.efforts k s.graph s.patience (s.launch k ⟨σ, next.objectId⟩ graph).load +
        (s.missing.sum fun p => s.graph.departure k s.patience p.1) +
        backlog.length * s.overture k := by
    rw [← hrest]
    rfl
  rw [hsame, hload, effort, hb, List.length_cons, Nat.succ_mul]
  omega

/-- **An operation of an execution leaves less to do**, also if it ends a run and another
one is launched. -/
theorem effort_advance {x : Execution α} {rest : List (Execution α)} (hs : s.Sound k)
    (hload : s.load = x :: rest) (hcan : x.canAdvance s.binding = true) :
    (s.move k x rest (x.advance k s.binding) (x.deeds k s.binding)).effort k < s.effort k := by
  obtain ⟨a, ds, hm, -, heq | hnext⟩ := hs.advance hload hcan
  · rw [heq]
    exact effort_move hs hload hm
  · have hlt := effort_move hs hload hm
    generalize s.move k x rest (x.advance k s.binding) (x.deeds k s.binding) = s₁ at hnext ⊢
    cases hnext with
    | @intro next backlog σ free graph load hb hf ht hl hp =>
      rw [← effort_launch hb hf graph] at hlt
      have hsame : ({ (s.move k x rest a ds).launch k ⟨σ, next.objectId⟩ graph with load } :
          Scene α).effort k = ((s.move k x rest a ds).launch k ⟨σ, next.objectId⟩ graph).effort k :=
        effort_congr rfl rfl rfl rfl hp.symm
      exact hsame.trans_lt hlt

end Scene

end Dataflow
