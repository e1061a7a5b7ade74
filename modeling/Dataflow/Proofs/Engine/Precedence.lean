import Dataflow.Proofs.Engine.Register

/-!
# Nodes wait for their predecessors

`Deed.InTurn` says when it is a node's turn. A node begins with a run when all of its
predecessors have published their entries for that very run; it fires after it has begun,
publishes after it has fired, and when the outcome of the run is taken, all nodes have
fired. A callback is called with one payload from each predecessor (`Graph.Supplies`), and is
skipped only in a run that fails.

All histories conform to this (`stable_precedence`). That a node may begin is decided by
counting predecessors down, or by looking into its inlets, and neither of them looks at the
history. What connects the two is that whatever a node has published by its own account, it
has published (`Sound.published`).
-/

namespace Dataflow

variable {α : Type} [Payload α]

/-- **The inputs of a callback**: one payload from each predecessor, in the order in which
the edges were made. A source gets what was staged for it, if anything. -/
structure Graph.Supplies (g : Graph α) (staged : Staged α) (v : NodeId) (inputs : List α) :
    Prop where
  source : g.predecessors v = [] → inputs = (staged.entry? v).join.toList
  inner : g.predecessors v ≠ [] → List.Forall₂ (fun u x =>
    (g.evaluate staged u).bind (·.branch? ((g.successors u).idxOf v)) = some x)
    (g.predecessors v) inputs

theorem Graph.supplies_of_received {g : Graph α} {staged : Staged α} {v : NodeId} {xs : List α}
    (h : g.received staged (g.evaluate staged) v = some xs) : g.Supplies staged v xs := by
  unfold received at h
  cases hp : g.predecessors v with
  | nil =>
    simp only [hp] at h
    exact ⟨fun _ => (Option.some.inj h).symm, fun hne => absurd hp hne⟩
  | cons u us =>
    simp only [hp] at h
    refine ⟨fun hnil => by simp [hp] at hnil, fun _ => ?_⟩
    rw [hp, ← List.forall₂_map_right_iff (f := some), ← List.forall₂_map_left_iff,
      ← mapM_eq_some.mp h, List.forall₂_eq_eq_eq]

namespace Deed

/-- **It is the turn of the node**, and it gets what is its due. -/
def InTurn (g : Graph α) (requests : List (Request α)) (past : List (Deed α)) : Deed α → Prop
  | .did _ r v .start => ∀ u ∈ g.predecessors v, (.edge u v, r) ∈ publications past
  | .did _ r v (.take c) => c ∈ g.inlets v ∧ ∀ u w, c = .edge u w → (c, r) ∈ publications past
  | .did _ r v (.call inputs) => (v, r) ∈ starts past ∧
    (∃ n, g.nodes[v]? = some n ∧ n.work.isSome = true) ∧
    ∃ q, requests[r]? = some q ∧ g.Supplies q.inputs v inputs
  | .did _ r v (.fire true) => (v, r) ∈ calls past
  | .did _ r v (.fire false) => (v, r) ∈ starts past ∧
    ∃ n, g.nodes[v]? = some n ∧ (n.work.isSome = true →
      ∃ q, requests[r]? = some q ∧ g.failures (g.evaluate q.inputs) ≠ [])
  | .did _ r v (.publish c) => (v, r) ∈ fires past ∧ c ∈ g.outlets v
  | .taken seat => ∀ v < g.nodes.size, (v, seat.run) ∈ fires past
  | _ => True

variable {g : Graph α} {requests requests' : List (Request α)} {past : List (Deed α)} {d : Deed α}

/-- What has happened before, or who is waiting beside, is nothing to wait for. -/
theorem InTurn.mono (h : d.InTurn g requests past) (hr : requests <+: requests')
    (since : List (Deed α)) : d.InTurn g requests' (past ++ since) := by
  have hreq : ∀ {r : ObjectId} {q}, requests[r]? = some q → requests'[r]? = some q := by
    intro r q hq
    obtain ⟨more, rfl⟩ := hr
    rw [List.getElem?_append_left (List.getElem?_eq_some_iff.mp hq).1, hq]
  have hpub : ∀ {p}, p ∈ publications past → p ∈ publications (past ++ since) := fun hp => by
    rw [publications_append]
    exact List.mem_append_left _ hp
  have hstart : ∀ {p}, p ∈ starts past → p ∈ starts (past ++ since) := fun hp => by
    rw [starts_append]
    exact List.mem_append_left _ hp
  have hfire : ∀ {p}, p ∈ fires past → p ∈ fires (past ++ since) := fun hp => by
    rw [fires_append]
    exact List.mem_append_left _ hp
  cases d with
  | reset seat => trivial
  | queued t r => trivial
  | taken seat => exact fun v hv => hfire (h v hv)
  | did slot r v act =>
    cases act with
    | start => exact fun u hu => hpub (h u hu)
    | take c => exact ⟨h.1, fun u w hc => hpub (h.2 u w hc)⟩
    | call inputs =>
      obtain ⟨hs, hn, q, hq, hsup⟩ := h
      exact ⟨hstart hs, hn, q, hreq hq, hsup⟩
    | fire called =>
      cases called with
      | true =>
        show (v, r) ∈ calls (past ++ since)
        rw [calls_append]
        exact List.mem_append_left _ h
      | false =>
        obtain ⟨hs, n, hn, hwhy⟩ := h
        refine ⟨hstart hs, n, hn, fun hw => ?_⟩
        obtain ⟨q, hq, hf⟩ := hwhy hw
        exact ⟨q, hreq hq, hf⟩
    | publish c => exact ⟨hfire h.1, h.2⟩
    | look => trivial
    | record => trivial
    | release w => trivial
    | finish => trivial
    | complete => trivial

end Deed

/-! ### What was published -/

section Published

variable {k : Strategy} {g : Graph α} {depth : Nat} {closed : Bool}
  {requests : List (Request α)} {launched : Nat} {post : ObjectId → NodeId → Post α}
  {executed : List (NodeId × ObjectId)} {b : Binding α} {load : List (Execution α)}

omit [Payload α] in
/-- Only a node that has fired publishes. -/
theorem Post.fired_of_published {p : Post α} {c : Channel} (h : p.progress.published c = true) :
    p.progress.fired = true := by
  cases p with
  | waiting => simp [Progress.zero] at h
  | done => rfl
  | busy st =>
    cases st <;> simp_all [Stage.progress, Progress.publishing, Progress.taking, Progress.zero,
      Progress.all]

/-- **What a node has published, the history shows.** All outlets of a node that has fired
are accounted for, and none of them is left to publish. -/
theorem Sound.published (h : Sound k g depth closed requests launched post executed b load)
    {published : List (Channel × ObjectId)}
    (hbal : (executed.flatMap fun p => (g.outlets p.1).map (·, p.2)).Perm
      (published ++ load.flatMap (Account.entries.holds · g)))
    {r : ObjectId} {u : NodeId} {c : Channel} (hu : u < g.nodes.size) (hc : c ∈ g.outlets u)
    (hpub : (post r u).progress.published c = true) : (c, r) ∈ published := by
  have hfired : (u, r) ∈ executed :=
    (h.chronicle.mem_iff hu).mpr (Post.fired_of_published hpub)
  have hmem : (c, r) ∈ executed.flatMap fun p => (g.outlets p.1).map (·, p.2) :=
    List.mem_flatMap.mpr ⟨_, hfired, List.mem_map.mpr ⟨c, hc, rfl⟩⟩
  refine (List.mem_append.mp (hbal.mem_iff.mp hmem)).resolve_right fun hleft => ?_
  -- whoever still has the entry to publish is the node itself
  obtain ⟨y, hy, hholds⟩ := List.mem_flatMap.mp hleft
  have key : ∀ {seat : Seat}, y.isEngaged k g = true → (∀ σ r', y.stage.Serves σ r' →
      seat = ⟨σ, r'⟩) → seat.run = r → c ∈ g.outlets y.node →
      post r u = .busy y.stage := by
    intro seat he hserves hrun hout
    obtain ⟨r', hpost⟩ := h.manned.engaged hy he
    obtain ⟨σ, s, q, -, -, -, hbooks⟩ := h.holds_of_busy hpost
    have hseat := hserves σ r' (hbooks.posts.serves hpost)
    obtain ⟨w, -, rfl⟩ := Graph.mem_outlets.mp hc
    obtain ⟨w', -, he'⟩ := Graph.mem_outlets.mp hout
    obtain ⟨rfl, -⟩ := Channel.edge.inj he'
    obtain rfl : r' = r := by rw [← hrun, hseat]
    exact hpost
  cases hst : y.stage with
  | recording seat f =>
    simp only [Account.entries, hst, List.mem_map, Prod.mk.injEq] at hholds
    obtain ⟨c', hc', rfl, hrun⟩ := hholds
    have hpost := key (by simp [Execution.isEngaged, hst])
      (fun σ r' hs => by rw [hst] at hs; exact hs) hrun hc'
    simp [hpost, hst, Stage.progress, Progress.taking, Progress.zero] at hpub
  | publishing seat ds waiting =>
    simp only [Account.entries, hst, List.mem_map, Prod.mk.injEq] at hholds
    obtain ⟨c', ⟨d, hd, rfl⟩, rfl, hrun⟩ := hholds
    have he : y.isEngaged k g = true := by
      have hne : ds ≠ [] := List.ne_nil_of_mem hd
      simp [Execution.isEngaged, hst, hne]
    obtain ⟨r', hpost'⟩ := h.manned.engaged hy he
    obtain ⟨σ, s, q, -, -, -, hbooks⟩ := h.holds_of_busy hpost'
    have hfits := hbooks.posts.fits hpost'
    rw [hst] at hfits
    have hpost := key he (fun σ r' hs => by rw [hst] at hs; exact hs) hrun
      (hfits.2.1.subset (List.mem_map_of_mem hd))
    simp only [hpost, hst, Post.progress_busy, Stage.progress, Progress.publishing,
      decide_eq_true_eq] at hpub
    exact hpub (List.mem_map_of_mem hd)
  | _ => simp [Account.entries, hst] at hholds

/-- What an execution has taken from an edge was published. -/
theorem Sound.published_of_taken (hg : g.Frozen)
    (h : Sound k g depth closed requests launched post executed b load)
    {published : List (Channel × ObjectId)}
    (hbal : (executed.flatMap fun p => (g.outlets p.1).map (·, p.2)).Perm
      (published ++ load.flatMap (Account.entries.holds · g)))
    {r : ObjectId} {st : Stage α} {u v : NodeId} (hpost : post r v = .busy st)
    (hu : u ∈ g.predecessors v) (htaken : st.progress.taken (.edge u v) = true) :
    (.edge u v, r) ∈ published := by
  obtain ⟨σ, s', q, -, -, -, hbooks⟩ := h.holds_of_busy hpost
  have hedge : v ∈ g.successors u := hg.linked.mem_predecessors.mp hu
  refine h.published hbal (hg.linked.source_lt hu) (Graph.mem_outlets.mpr ⟨v, hedge, rfl⟩) ?_
  exact hbooks.flow.filled_of_taken (c := .edge u v) hedge
    (by rw [show (Channel.edge u v).reader = v from rfl, hpost]; exact htaken)

/-- An entry that a node has just taken was published. -/
theorem Sound.published_of_inlet (hg : g.Frozen) {y : Execution α} {rest : List (Execution α)}
    (h : Sound k g depth closed requests launched post executed b (y :: rest))
    {published : List (Channel × ObjectId)}
    (hbal : (executed.flatMap fun p => (g.outlets p.1).map (·, p.2)).Perm
      (published ++ (y :: rest).flatMap (Account.entries.holds · g)))
    {r : ObjectId} {taken : List (Entry α)} {cs : List Channel}
    (hst : (∃ σ, y.stage = .claiming ⟨σ, r⟩ taken cs) ∨ y.stage = .awaiting (some r) taken cs)
    {c : Channel} (hc : c ∈ g.inlets y.node) (hcs : c ∉ cs) {u w : NodeId} (he : c = .edge u w) :
    (c, r) ∈ published := by
  have hengaged : y.isEngaged k g = true := by
    rcases hst with ⟨σ, hst⟩ | hst <;> simp [Execution.isEngaged, hst]
  obtain ⟨r', σ', s, q, hpost, hs, hq, -, hserves, -⟩ := h.engaged_head hengaged
  obtain rfl : r' = r := by
    rcases hst with ⟨σ, hst⟩ | hst <;> rw [hst] at hserves
    · exact (Seat.mk.inj hserves).2.symm
    · exact (Option.some.inj hserves).symm
  subst he
  obtain ⟨hedge, hw⟩ := (hg.mem_inlets ((h.books hs hq).posts.lt_size hpost)).mp hc
  obtain rfl : w = y.node := hw
  refine h.published_of_taken hg hbal hpost (hg.linked.mem_predecessors.mpr hedge) ?_
  rcases hst with ⟨σ, hst⟩ | hst <;> simp [hst, Stage.progress, Progress.taking, hcs]

end Published

/-! ### The invariant -/

/-- **Everybody acts in turn**, and the accounts of executions are balanced. -/
structure Precedence (s : Scene α) : Prop where
  executions : Account.executions.Balanced s
  callbacks : Account.callbacks.Balanced s
  entries : Account.entries.Balanced s
  inTurn : Conforms (Deed.InTurn s.graph s.requests) s.trail

namespace Precedence

variable {k : Strategy} {s : Scene α}

section Move

variable {depth launched : Nat} {closed : Bool} {post : ObjectId → NodeId → Post α}
  {x : Execution α} {rest : List (Execution α)}

/-- What is published, and what is left to publish. -/
theorem entries_perm (h : Precedence s) (hr : Register s) (hload : s.load = x :: rest) :
    (s.executed.flatMap fun p => (s.graph.outlets p.1).map (·, p.2)).Perm
      (Deed.publications s.trail ++
        (x :: rest).flatMap (Account.entries.holds · s.graph)) := by
  rw [← hload, ← hr.fires]
  exact Account.balanced_entries.mp h.entries

/-- **A node begins when all of its predecessors have published**, whether a worker is told
so, or its own thread has all entries. -/
theorem inTurn_start (h : Precedence s) (hr : Register s) (hg : s.graph.Frozen)
    (hs : Dataflow.Sound k s.graph depth closed s.requests launched post s.executed s.binding
      (x :: rest)) (hload : s.load = x :: rest) {σ : SlotId} {r : ObjectId}
    (hst : x.stage = .opening σ ∨ ∃ taken, x.stage = .locating r taken) {st : RunStatus α}
    (hholds : s.binding.table.Holds σ r st) :
    (x.did ⟨σ, r⟩ .start).InTurn s.graph s.requests s.trail := by
  have hengaged : x.isEngaged k s.graph = true := by
    rcases hst with hst | ⟨taken, hst⟩ <;> simp [Execution.isEngaged, hst]
  obtain ⟨r', σ', st', q, hpost, hst', hq, -, hserves, hfits⟩ := hs.engaged_head hengaged
  have hbooks := hs.books hst' hq
  obtain rfl : r' = r := by
    rcases hst with hst | ⟨taken, hst⟩
    · rw [hst] at hserves
      obtain rfl : σ = σ' := hserves
      exact Table.Ledger.run_unique hst' hholds
    · rw [hst] at hserves
      exact hserves.symm
  intro u hu
  rcases hst with hst | ⟨taken, hst⟩
  · rw [hst] at hfits hpost
    have hbegun : (post r' x.node).progress.begun = true := by rw [hpost]; rfl
    have hreleased := (hbooks.counts.begun_iff hfits (hbooks.posts.lt_size hpost)).mp hbegun u hu
    have hedge : x.node ∈ s.graph.successors u := hg.linked.mem_predecessors.mp hu
    refine hs.published (h.entries_perm hr hload)
      (hg.linked.source_lt hu) (Graph.mem_outlets.mpr ⟨_, hedge, rfl⟩) ?_
    exact Post.published_of_released hreleased _
  · refine hs.published_of_taken hg (h.entries_perm hr hload) hpost hu ?_
    rw [hst]
    simp [Stage.progress, Progress.taking]

/-- **A node takes entries that were published** for the run. -/
theorem inTurn_take (hg : s.graph.Frozen)
    (hs : Dataflow.Sound k s.graph depth closed s.requests launched post s.executed s.binding
      (x :: rest)) {seen seen' : List (Entry α)} {c : Channel} {cs : List Channel}
    {r : ObjectId} {st : Stage α} {slot : Option SlotId}
    (hst : (∃ seat, x.stage = .claiming seat seen (c :: cs)) ∨
      ∃ run, x.stage = .awaiting run seen (c :: cs))
    (hst' : (∃ σ, st = .claiming ⟨σ, r⟩ seen' cs) ∨ st = .awaiting (some r) seen' cs)
    {b : Binding α} {depth' launched' : Nat} {closed' : Bool}
    {post' : ObjectId → NodeId → Post α}
    (hs' : Dataflow.Sound k s.graph depth' closed' s.requests launched' post' s.executed b
      (⟨x.node, st⟩ :: rest))
    (hbal : (s.executed.flatMap fun p => (s.graph.outlets p.1).map (·, p.2)).Perm
      (Deed.publications s.trail ++
        (⟨x.node, st⟩ :: rest).flatMap (Account.entries.holds · s.graph))) :
    (Deed.did slot r x.node (.take c)).InTurn s.graph s.requests s.trail := by
  have hin : ∃ cs₀, s.graph.inlets x.node = cs₀ ++ c :: cs := by
    by_cases he : x.isEngaged k s.graph = true
    · obtain ⟨r', σ', st', q, -, -, -, -, -, hfits⟩ := hs.engaged_head he
      rcases hst with ⟨seat, hst⟩ | ⟨run, hst⟩ <;> rw [hst] at hfits <;>
        exact ⟨_, hfits.2.choose_spec.1⟩
    · have hrest := hs.resting_head (by simpa using he)
      rcases hst with ⟨seat, hst⟩ | ⟨run, hst⟩
      · simp [Execution.isEngaged, hst] at he
      · cases run with
        | some run => simp [Execution.isEngaged, hst] at he
        | none =>
          simp only [Execution.Rests, hst] at hrest
          exact ⟨[], hrest.2.2.symm⟩
  obtain ⟨cs₀, hin⟩ := hin
  have hnodup := hg.nodup_inlets x.node
  rw [hin] at hnodup
  have hmem : c ∈ s.graph.inlets x.node := by
    rw [hin]
    simp
  refine ⟨hmem, fun u w he => hs'.published_of_inlet hg hbal hst' hmem ?_ he⟩
  exact (List.nodup_cons.mp (List.nodup_append.mp hnodup).2.1).1

/-- **A callback is called with what is its due**, or skipped because the run fails. -/
theorem inTurn_enter (h : Precedence s) (hs : Dataflow.Sound k s.graph depth closed s.requests
      launched post s.executed s.binding (x :: rest)) (hload : s.load = x :: rest) {σ : SlotId}
    {r : ObjectId} {st : RunStatus α} {inputs : List (Entry α)} {n : Node α}
    (hst : x.stage = .entering ⟨σ, r⟩ inputs) (hholds : s.binding.table.Holds σ r st)
    (hn : s.graph.nodes[x.node]? = some n) :
    (∀ xs, gather inputs st.failed = some xs → n.work.isSome = true →
      (x.did ⟨σ, r⟩ (.call xs)).InTurn s.graph s.requests s.trail) ∧
    (gather inputs st.failed = none ∨ n.work = none →
      (x.did ⟨σ, r⟩ (.fire false)).InTurn s.graph s.requests s.trail) := by
  obtain ⟨r', σ', st', q, hpost, hst', hq, -, hserves, hfits⟩ :=
    hs.engaged_head (by simp [Execution.isEngaged, hst])
  rw [hst] at hserves hfits
  obtain ⟨rfl, rfl⟩ := Seat.mk.inj hserves
  obtain rfl : st' = st := Option.some.inj (hst'.1.symm.trans hholds.1)
  have hbegun : (x.node, r) ∈ Deed.starts s.trail := by
    refine (Account.balanced_executions.mp h.executions).mem_iff.mpr (List.mem_append_right _ ?_)
    rw [hload, List.flatMap_cons]
    simp [Account.executions, hst]
  refine ⟨fun xs hx hw => ?_, fun hwhy => ?_⟩
  · exact ⟨hbegun, ⟨n, hn, hw⟩, q, hq,
      Graph.supplies_of_received (Graph.received_of_gather hfits hx)⟩
  · refine ⟨hbegun, n, hn, fun hw => ⟨q, hq, ?_⟩⟩
    have hgather : gather inputs st'.failed = none := by
      refine hwhy.resolve_right fun hnone => ?_
      rw [hnone] at hw
      cases hw
    have hresults := (hs.books hst' hq).results
    have hfailed := hresults.failed_eq.symm.trans (Graph.failed_of_gather hfits hgather)
    obtain ⟨e, he⟩ := Option.isSome_iff_exists.mp hfailed
    exact List.ne_nil_of_mem (hresults.error_mem he)

/-- **A node publishes after it has fired**, and into its outlets. -/
theorem inTurn_publish (hr : Register s) (hs : Dataflow.Sound k s.graph depth closed s.requests
      launched post s.executed s.binding (x :: rest)) {σ : SlotId} {r : ObjectId} {c : Channel}
    {e : Entry α} {ds : Deliveries α} {waiting : Bool}
    (hst : x.stage = .publishing ⟨σ, r⟩ ((c, e) :: ds) waiting) :
    (x.did ⟨σ, r⟩ (.publish c)).InTurn s.graph s.requests s.trail := by
  obtain ⟨r', σ', st, q, hpost, hst', hq, -, hserves, hfits⟩ :=
    hs.engaged_head (by simp [Execution.isEngaged, hst])
  rw [hst] at hserves hfits
  obtain ⟨rfl, rfl⟩ := Seat.mk.inj hserves
  refine ⟨?_, hfits.2.1.subset (List.mem_cons_self ..)⟩
  rw [hr.fires, hs.chronicle.mem_iff ((hs.books hst' hq).posts.lt_size hpost), hpost, hst]
  rfl

/-- **Whatever an execution does, it is its turn.** -/
theorem inTurn_move (h : Precedence s) (hr : Register s) (hs : s.Sound k)
    (hload : s.load = x :: rest) {a : Advance α} {ds : List (Deed α)}
    (hm : Move k s.graph s.binding x a ds) (hs' : (s.move k x rest a ds).Sound k)
    {d : Deed α} (hd : d ∈ ds) : d.InTurn s.graph s.requests s.trail := by
  obtain ⟨hg, -, depth, closed, launched, post, hsound⟩ := hs
  obtain ⟨-, -, depth', closed', launched', post', hsound'⟩ := hs'
  rw [hload] at hsound
  have hbal := h.entries_perm hr hload
  cases hm with
  | opened hst hh =>
    obtain rfl := List.mem_singleton.mp hd
    exact h.inTurn_start hr hg hsound hload (Or.inl hst) hh
  | located hk hst hh =>
    obtain rfl := List.mem_singleton.mp hd
    exact h.inTurn_start hr hg hsound hload (Or.inr ⟨_, hst⟩) hh
  | claimed p hst hh =>
    obtain rfl := List.mem_singleton.mp hd
    simp only [Scene.move, Execution.fired, Execution.onward, List.map_nil, List.append_nil,
      List.cons_append, List.nil_append] at hsound'
    refine inTurn_take hg hsound (Or.inl ⟨_, hst⟩) (Or.inl ⟨_, rfl⟩) hsound' ?_
    simpa [Account.entries, hst] using hbal
  | drawn p hk hst hh =>
    obtain rfl := List.mem_singleton.mp hd
    simp only [Scene.move, Execution.fired, Execution.onward, List.map_nil, List.append_nil,
      List.cons_append, List.nil_append] at hsound'
    refine inTurn_take hg hsound (Or.inr ⟨_, hst⟩) (Or.inr rfl) hsound' ?_
    simpa [Account.entries, hst] using hbal
  | called hst hh hn hw hx =>
    have hturn := (h.inTurn_enter hsound hload hst hh hn).1 _ hx (by simp [hw])
    rcases List.mem_cons.mp hd with rfl | hd
    · trivial
    · obtain rfl := List.mem_singleton.mp hd
      exact hturn
  | skipped hst hh hn hwhy =>
    have hturn := (h.inTurn_enter hsound hload hst hh hn).2 hwhy
    rcases List.mem_cons.mp hd with rfl | hd
    · trivial
    · obtain rfl := List.mem_singleton.mp hd
      exact hturn
  | returned hst hh hn =>
    obtain rfl := List.mem_singleton.mp hd
    refine (Account.balanced_callbacks.mp h.callbacks).mem_iff.mpr (List.mem_append_right _ ?_)
    rw [hload, List.flatMap_cons]
    simp [Account.callbacks, hst]
  | published p hst hh =>
    obtain rfl := List.mem_singleton.mp hd
    exact inTurn_publish hr hsound hst
  | ended hst hh =>
    rcases List.mem_cons.mp hd with rfl | hd
    · trivial
    · obtain rfl := List.mem_singleton.mp hd
      intro v hv
      rw [hr.fires]
      exact hsound.executed_of_completing hg (List.mem_cons_self ..) hst hv
  | released last hk hst hh =>
    rcases List.mem_cons.mp hd with rfl | hd
    · trivial
    · obtain ⟨t, -, rfl⟩ := List.mem_map.mp hd
      trivial
  | recorded hst | finished last hst =>
    obtain rfl := List.mem_singleton.mp hd
    trivial
  | gathered | dismissed | assembled | held | passed | left | resolved => cases hd

end Move

end Precedence

/-- **All histories give everybody his turn.** -/
theorem stable_precedence (k : Strategy) :
    Stable k (fun s : Scene α => (Custody k s ∧ Register s) ∧ Precedence s) where
  first := fun hg hsound => by
    refine ⟨(stable_register k).first hg hsound, ?_, ?_, ?_, conforms_nil _⟩
    · exact Account.kept_executions.stable.first hg hsound
    · exact Account.kept_callbacks.stable.first hg hsound
    · exact Account.kept_entries.stable.first hg hsound
  aside := fun {s s'} ha ⟨h, hp⟩ => by
    refine ⟨(stable_register k).aside ha h, ?_, ?_, ?_, fun past d later hd => ?_⟩
    · exact (Account.kept_executions (k := k)).stable.aside ha hp.executions
    · exact (Account.kept_callbacks (k := k)).stable.aside ha hp.callbacks
    · exact (Account.kept_entries (k := k)).stable.aside ha hp.entries
    · rw [ha.graph, ← List.append_nil past]
      exact (hp.inTurn past d later (ha.trail ▸ hd)).mono ha.requests []
  move := fun {s x rest a ds} hs hload hm hs' ⟨h, hp⟩ => by
    refine ⟨(stable_register k).move hs hload hm hs' h, ?_, ?_, ?_, ?_⟩
    · exact Account.kept_executions.stable.move hs hload hm hs' hp.executions
    · exact Account.kept_callbacks.stable.move hs hload hm hs' hp.callbacks
    · exact Account.kept_entries.stable.move hs hload hm hs' hp.entries
    · refine Conforms.append hp.inTurn fun past d later hd => ?_
      exact (hp.inTurn_move h.2 hs hload hm hs' (hd ▸ by simp)).mono List.prefix_rfl past
  launch := fun {s next backlog σ free graph} hs hb hf hn ht hs' ⟨h, hp⟩ => by
    refine ⟨(stable_register k).launch hs hb hf hn ht hs' h, ?_, ?_, ?_, ?_⟩
    · exact Account.kept_executions.stable.launch hs hb hf hn ht hs' hp.executions
    · exact Account.kept_callbacks.stable.launch hs hb hf hn ht hs' hp.callbacks
    · exact Account.kept_entries.stable.launch hs hb hf hn ht hs' hp.entries
    · -- to reset a slot and to hand out tasks is always in turn
      refine Conforms.append hp.inTurn fun past d later hd => ?_
      have hmem : d ∈ Deed.launch ⟨σ, next.objectId⟩ (firstTasks k s.graph σ) := hd ▸ by simp
      rcases List.mem_cons.mp hmem with rfl | hmem
      · trivial
      · obtain ⟨t, -, rfl⟩ := List.mem_map.mp hmem
        trivial

end Dataflow
