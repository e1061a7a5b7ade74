import Dataflow.Proofs.Engine.Books
import Dataflow.Proofs.Run.Ledger

/-!
# What holds between two operations

All that the threads of a scheduler share is a `Binding`; what they are at, and the
tasks that are still queued, are its *load*, a list of executions in no particular
order. `Sound` is the invariant of the two. It refers to the graph as it was bound, to
the list of accepted runs, and to two things that nobody stores: how many runs have been
launched, and where each node stands with each run.

* Each run in flight has its books in order (`Books`), runs that are over have nothing
  under way, and runs that were not launched have not begun.
* The load consists of the executions that the posts speak of, each once, and of
  executions that rest (`Manned`).
* With threads of their own, nodes take the runs in the order of admission (`Abreast`).
* Who has been executed for which run is on record (`Chronicle`).

Operations of one execution change the books of its run and nothing of any other run;
`Sound.advance` is the part of the argument that all of them have in common.
-/

namespace Dataflow

/-- Of two entries in one pool, how the run of the earlier one stands to the run of the
later one. -/
def Strategy.Before : Strategy → ObjectId → ObjectId → Prop
  | .stealing => fun r r' => r ≠ r'
  | .dedicated => fun r r' => r < r'

theorem Strategy.Before.ne {k : Strategy} {r r' : ObjectId} (h : k.Before r r') : r ≠ r' := by
  cases k with
  | stealing => exact h
  | dedicated => exact Nat.ne_of_lt h

variable {α : Type}

/-- The execution has no access left to make on behalf of a run: it waits for the next
run, has just finished with one, or is about to resolve a cell; or its thread has been
dismissed. -/
def Execution.Rests (k : Strategy) (g : Graph α) (closed : Bool) (x : Execution α) : Prop :=
  match x.stage with
  | .awaiting none taken rest => k = .dedicated ∧ taken = [] ∧ rest = g.inlets x.node
  | .publishing _ rest _ => k = .dedicated ∧ rest = []
  | .releasing _ rest => k = .stealing ∧ rest = []
  | .resolving _ _ => True
  | .stopped => k = .dedicated ∧ closed = true
  | _ => False

/-- **The load and the posts agree.** -/
structure Manned (k : Strategy) (g : Graph α) (closed : Bool)
    (post : ObjectId → NodeId → Post α) (load : List (Execution α)) : Prop where
  engaged : ∀ {x}, x ∈ load → x.isEngaged k g = true → ∃ r, post r x.node = .busy x.stage
  busy : ∀ {r v st}, post r v = .busy st → ⟨v, st⟩ ∈ load
  nodup : (load.filter (·.isEngaged k g)).Nodup
  resting : ∀ {x}, x ∈ load → x.isEngaged k g = false → x.Rests k g closed
  nodes : k = .dedicated → (load.map (·.node)).Perm (List.range g.nodes.size)

/-- **No run overtakes another**: when a node begins with a run, it is done with all
earlier ones. -/
def Abreast (k : Strategy) (g : Graph α) (post : ObjectId → NodeId → Post α) : Prop :=
  k = .dedicated → ∀ {r r' v}, r < r' → v < g.nodes.size → post r' v ≠ .waiting →
    post r v = .done

/-- **The record of executions.** -/
structure Chronicle (k : Strategy) (g : Graph α) (post : ObjectId → NodeId → Post α)
    (executed : List (NodeId × ObjectId)) : Prop where
  mem_iff : ∀ {v r}, v < g.nodes.size →
    ((v, r) ∈ executed ↔ (post r v).progress.fired = true)
  ordered : k = .dedicated → ∀ v,
    ∃ n, (executed.filter (·.1 == v)).map (·.2) = List.range n

/-- **What holds between two operations.** -/
structure Sound [Payload α] (k : Strategy) (g : Graph α) (depth : Nat) (closed : Bool)
    (requests : List (Request α)) (launched : Nat) (post : ObjectId → NodeId → Post α)
    (executed : List (NodeId × ObjectId)) (b : Binding α) (load : List (Execution α)) :
    Prop where
  alike : g.Alike b.graph
  laid : b.graph.Laid depth closed
  ledger : b.table.Ledger depth launched requests
  inDegrees : b.table.inDegrees = g.nodes.map (·.predecessors.length)
  sinkCount : b.table.sinkCount = g.sinks.length
  inputs : ∀ {q}, q ∈ requests → q.inputs.map (·.1) = g.sources
  tags : ∀ c, (b.graph.tagsAt c).Pairwise k.Before
  tag_inFlight : ∀ {c r}, r ∈ b.graph.tagsAt c → b.table.InFlight r
  books : ∀ {σ r s q}, b.table.Holds σ r s → requests[r]? = some q →
    Books k g q.inputs σ r s (fun c e => ⟨r, e⟩ ∈ b.graph.entriesAt c) (post r)
  passed : ∀ {r}, r < launched → ¬ b.table.InFlight r → ∀ v, post r v = .done
  unborn : ∀ {r}, launched ≤ r → ∀ v, post r v = .waiting
  abreast : Abreast k g post
  manned : Manned k g closed post load
  chronicle : Chronicle k g post executed
  closed_idle : closed = true → b.table.inFlight = 0

/-! ### The load is in no particular order -/

theorem Manned.perm {k : Strategy} {g : Graph α} {closed : Bool}
    {post : ObjectId → NodeId → Post α} {load load' : List (Execution α)}
    (h : Manned k g closed post load) (hp : load.Perm load') : Manned k g closed post load' where
  engaged := fun hx => h.engaged (hp.mem_iff.mpr hx)
  busy := fun hb => hp.mem_iff.mp (h.busy hb)
  nodup := (hp.filter _).nodup_iff.mp h.nodup
  resting := fun hx => h.resting (hp.mem_iff.mpr hx)
  nodes := fun hk => ((hp.map _).symm.trans (h.nodes hk))

namespace Sound

variable [Payload α] {k : Strategy} {g : Graph α} {depth : Nat} {closed : Bool}
  {requests : List (Request α)} {launched : Nat} {post : ObjectId → NodeId → Post α}
  {executed : List (NodeId × ObjectId)} {b : Binding α} {load : List (Execution α)}

/-- **Nobody has met a fault.** -/
theorem unbroken (h : Sound k g depth closed requests launched post executed b load)
    {x : Execution α} (hx : x ∈ load) (f : Fault) : x.stage ≠ .broken f := by
  intro hst
  have hrests := h.manned.resting hx (by simp [Execution.isEngaged, hst])
  simp [Execution.Rests, hst] at hrests

theorem perm (h : Sound k g depth closed requests launched post executed b load)
    {load' : List (Execution α)} (hp : load.Perm load') :
    Sound k g depth closed requests launched post executed b load' :=
  { h with manned := h.manned.perm hp }

/-- Any execution may be the one that is looked at. -/
theorem bring (h : Sound k g depth closed requests launched post executed b load)
    {x : Execution α} (hx : x ∈ load) :
    ∃ rest, Sound k g depth closed requests launched post executed b (x :: rest) := by
  obtain ⟨l, r, rfl⟩ := List.append_of_mem hx
  exact ⟨l ++ r, h.perm List.perm_middle⟩

/-! ### Runs and posts -/

theorem request_of_holds (h : Sound k g depth closed requests launched post executed b load)
    {σ : SlotId} {r : ObjectId} {s : RunStatus α} (hs : b.table.Holds σ r s) :
    ∃ q, requests[r]? = some q ∧ s.cell = some q.cell ∧
      Books k g q.inputs σ r s (fun c e => ⟨r, e⟩ ∈ b.graph.entriesAt c) (post r) := by
  obtain ⟨-, q, hq, hc⟩ := h.ledger.held hs
  exact ⟨q, hq, hc, h.books hs hq⟩

/-- Only a run in flight has a node that executes it. -/
theorem holds_of_busy (h : Sound k g depth closed requests launched post executed b load)
    {r : ObjectId} {v : NodeId} {st : Stage α} (hb : post r v = .busy st) :
    ∃ σ s q, b.table.Holds σ r s ∧ requests[r]? = some q ∧ s.cell = some q.cell ∧
      Books k g q.inputs σ r s (fun c e => ⟨r, e⟩ ∈ b.graph.entriesAt c) (post r) := by
  by_cases hr : r < launched
  · by_cases hf : b.table.InFlight r
    · obtain ⟨σ, s, hs⟩ := hf
      obtain ⟨q, hq, hc, hbooks⟩ := h.request_of_holds hs
      exact ⟨σ, s, q, hs, hq, hc, hbooks⟩
    · simp [h.passed hr hf v] at hb
  · simp [h.unborn (Nat.not_lt.mp hr) v] at hb

/-- A stage belongs to the execution of one run only. -/
theorem run_unique (h : Sound k g depth closed requests launched post executed b load)
    {r r' : ObjectId} {v : NodeId} {st : Stage α} {σ : SlotId} {s : RunStatus α}
    (hs : b.table.Holds σ r s) (hst : st.Serves σ r) (hb : post r' v = .busy st) : r' = r := by
  obtain ⟨σ', s', q, hs', -, -, hbooks⟩ := h.holds_of_busy hb
  rcases hst.slot_or_run (hbooks.posts.serves hb) with he | he
  · subst he
    exact Table.Ledger.run_unique hs' hs
  · exact he.symm

/-- No pool holds more entries than there are runs in flight. -/
theorem length_le (h : Sound k g depth closed requests launched post executed b load)
    (c : Channel) : (b.graph.entriesAt c).length ≤ b.table.inFlight := by
  have hle := h.ledger.length_le_inFlight ((h.tags c).imp fun hab => hab.ne) fun _ => h.tag_inFlight
  rwa [Graph.tagsAt, List.length_map] at hle

/-- As long as a slot is free, every pool has room. -/
theorem length_lt_of_free (h : Sound k g depth closed requests launched post executed b load)
    (hf : b.table.free ≠ []) (c : Channel) : (b.graph.entriesAt c).length < depth := by
  have hle := h.length_le c
  have hadd := h.ledger.inFlight_add
  have hpos := List.length_pos_iff.mpr hf
  omega

/-- A run in flight that has no entry in a pool finds room there. -/
theorem length_lt (h : Sound k g depth closed requests launched post executed b load)
    {r : ObjectId} (hr : b.table.InFlight r) {c : Channel} (hc : r ∉ b.graph.tagsAt c) :
    (b.graph.entriesAt c).length < depth := by
  have hnd : (r :: b.graph.tagsAt c).Nodup :=
    List.nodup_cons.mpr ⟨hc, (h.tags c).imp fun hab => hab.ne⟩
  have hle := h.ledger.length_le hnd fun r' hr' => by
    rcases List.mem_cons.mp hr' with rfl | hr'
    · exact hr
    · exact h.tag_inFlight hr'
  rw [List.length_cons, Graph.tagsAt, List.length_map] at hle
  exact hle

end Sound

/-! ### What all operations of an execution have in common -/

/-- The executions behind the first are not listed twice either. -/
theorem Manned.nodup_tail {k : Strategy} {g : Graph α} {closed : Bool}
    {post : ObjectId → NodeId → Post α} {x : Execution α} {rest : List (Execution α)}
    (h : Manned k g closed post (x :: rest)) : (rest.filter (·.isEngaged k g)).Nodup := by
  have := h.nodup
  rw [List.filter_cons] at this
  split at this
  · exact (List.nodup_cons.mp this).2
  · exact this

/-- An execution goes on for its run: it and the tasks that it makes ready are the news,
and everybody else stays where he is. -/
theorem Manned.advance {k : Strategy} {g : Graph α} {closed : Bool}
    {post : ObjectId → NodeId → Post α} {x : Execution α} {rest news : List (Execution α)}
    (h : Manned k g closed post (x :: rest)) {r : ObjectId} {p : NodeId → Post α}
    (hx : ∀ {r'}, r' ≠ r → post r' x.node ≠ .busy x.stage)
    (hrest : ∀ {y}, y ∈ rest → post r y.node = .busy y.stage → y.node ≠ x.node)
    (hnews : ∀ {y}, y ∈ news → y.isEngaged k g = true →
      p y.node = .busy y.stage ∧ (y.node = x.node ∨ post r y.node = .waiting))
    (hidle : ∀ {y}, y ∈ news → y.isEngaged k g = false → y.Rests k g closed)
    (hbusy : ∀ {v st}, p v = .busy st → ⟨v, st⟩ ∈ news ∨ v ≠ x.node ∧ post r v = .busy st)
    (hkeep : ∀ {v st}, v ≠ x.node → post r v = .busy st → p v = .busy st)
    (hother : ∀ {r' v st}, r' ≠ r → post r' v = .busy st → p v ≠ .busy st)
    (hnodup : (news.map (·.node)).Nodup)
    (hnodes : k = .dedicated → news.map (·.node) = [x.node]) :
    Manned k g closed (Function.update post r p) (news ++ rest) := by
  constructor
  · intro y hy he
    rcases List.mem_append.mp hy with hy | hy
    · exact ⟨r, by rw [Function.update_self]; exact (hnews hy he).1⟩
    · obtain ⟨r', hr'⟩ := h.engaged (List.mem_cons_of_mem _ hy) he
      by_cases hrr : r' = r
      · subst hrr
        exact ⟨r', by rw [Function.update_self]; exact hkeep (hrest hy hr') hr'⟩
      · exact ⟨r', by rw [Function.update_of_ne hrr]; exact hr'⟩
  -- whoever is busy is among the news, or is an old one that is not the execution itself
  · intro r' v st hb
    by_cases hrr : r' = r
    · subst hrr
      rw [Function.update_self] at hb
      rcases hbusy hb with hmem | ⟨hv, hold⟩
      · exact List.mem_append_left _ hmem
      · refine List.mem_append_right _ ((List.mem_cons.mp (h.busy hold)).resolve_left ?_)
        rintro rfl
        exact hv rfl
    · rw [Function.update_of_ne hrr] at hb
      refine List.mem_append_right _ ((List.mem_cons.mp (h.busy hb)).resolve_left ?_)
      rintro rfl
      exact hx hrr hb
  · rw [List.filter_append]
    refine List.nodup_append.mpr ⟨(List.Nodup.of_map _ hnodup).filter _, h.nodup_tail, ?_⟩
    -- an execution that is news and old at once would be at two posts
    rintro y hy z hz rfl
    obtain ⟨hy, he⟩ := List.mem_filter.mp hy
    have hz := (List.mem_filter.mp hz).1
    obtain ⟨r', hr'⟩ := h.engaged (List.mem_cons_of_mem _ hz) he
    obtain ⟨hp, hcase⟩ := hnews hy he
    by_cases hrr : r' = r
    · subst hrr
      rcases hcase with hn | hw
      · exact hrest hz hr' hn
      · rw [hw] at hr'
        cases hr'
    · exact hother hrr hr' hp
  · intro y hy he
    rcases List.mem_append.mp hy with hy | hy
    · exact hidle hy he
    · exact h.resting (List.mem_cons_of_mem _ hy) he
  · intro hk
    have := h.nodes hk
    rw [List.map_append, hnodes hk]
    exact this

/-- An execution that rests gives way to others that do. -/
theorem Manned.rest {k : Strategy} {g : Graph α} {closed : Bool}
    {post : ObjectId → NodeId → Post α} {x : Execution α} {rest news : List (Execution α)}
    (h : Manned k g closed post (x :: rest)) (hb : ∀ {r}, post r x.node ≠ .busy x.stage)
    (hnews : ∀ {y}, y ∈ news → y.isEngaged k g = false ∧ y.Rests k g closed)
    (hnodes : k = .dedicated → news.map (·.node) = [x.node]) :
    Manned k g closed post (news ++ rest) := by
  have hfilter : news.filter (·.isEngaged k g) = [] :=
    List.filter_eq_nil_iff.mpr fun y hy => by simp [(hnews hy).1]
  constructor
  · intro y hy he
    rcases List.mem_append.mp hy with hy | hy
    · simp [(hnews hy).1] at he
    · exact h.engaged (List.mem_cons_of_mem _ hy) he
  · intro r v st hbusy
    refine List.mem_append_right _ ((List.mem_cons.mp (h.busy hbusy)).resolve_left ?_)
    rintro rfl
    exact hb hbusy
  · rw [List.filter_append, hfilter, List.nil_append]
    exact h.nodup_tail
  · intro y hy he
    rcases List.mem_append.mp hy with hy | hy
    · exact (hnews hy).2
    · exact h.resting (List.mem_cons_of_mem _ hy) he
  · intro hk
    have := h.nodes hk
    rw [List.map_append, hnodes hk]
    exact this

/-- A node that goes on with a run, or is done with it, stays abreast. -/
theorem Abreast.update {k : Strategy} {g : Graph α} {post : ObjectId → NodeId → Post α}
    (h : Abreast k g post) {r : ObjectId} {p : NodeId → Post α}
    (hdone : k = .dedicated → ∀ v, v < g.nodes.size → post r v = .done → p v = .done)
    (hbegun : k = .dedicated → ∀ v, v < g.nodes.size → p v ≠ .waiting →
      post r v ≠ .waiting ∨ ∀ r', r' < r → post r' v = .done) :
    Abreast k g (Function.update post r p) := by
  intro hk r₁ r₂ v hlt hv hne
  by_cases h₂ : r₂ = r
  · subst h₂
    rw [Function.update_self] at hne
    rw [Function.update_of_ne (Nat.ne_of_lt hlt)]
    rcases hbegun hk v hv hne with hold | hall
    · exact h hk hlt hv hold
    · exact hall r₁ hlt
  · rw [Function.update_of_ne h₂] at hne
    by_cases h₁ : r₁ = r
    · subst h₁
      rw [Function.update_self]
      exact hdone hk v hv (h hk hlt hv hne)
    · rw [Function.update_of_ne h₁]
      exact h hk hlt hv hne

/-- As long as no node fires, the record stays as it is. -/
theorem Chronicle.update {k : Strategy} {g : Graph α} {post : ObjectId → NodeId → Post α}
    {executed : List (NodeId × ObjectId)} (h : Chronicle k g post executed) {r : ObjectId}
    {p : NodeId → Post α}
    (hp : ∀ v, v < g.nodes.size → (p v).progress.fired = (post r v).progress.fired) :
    Chronicle k g (Function.update post r p) executed where
  mem_iff := by
    intro v r' hv
    by_cases hr : r' = r
    · subst hr
      rw [Function.update_self, hp v hv]
      exact h.mem_iff hv
    · rw [Function.update_of_ne hr]
      exact h.mem_iff hv
  ordered := h.ordered

/-- **A node fires** for a run, after all earlier ones. -/
theorem Chronicle.fire {k : Strategy} {g : Graph α} {post : ObjectId → NodeId → Post α}
    {executed : List (NodeId × ObjectId)} (h : Chronicle k g post executed)
    (ha : Abreast k g post) {r : ObjectId} {v : NodeId} {p : NodeId → Post α}
    (hv : v < g.nodes.size) (hbegun : post r v ≠ .waiting)
    (hnew : (post r v).progress.fired = false) (hfired : (p v).progress.fired = true)
    (hp : ∀ w, w ≠ v → (p w).progress.fired = (post r w).progress.fired) :
    Chronicle k g (Function.update post r p) (executed ++ [(v, r)]) where
  mem_iff := by
    intro w r' hw
    rw [List.mem_append, List.mem_singleton, h.mem_iff hw, Prod.mk.injEq]
    by_cases hr : r' = r
    · subst hr
      rw [Function.update_self]
      by_cases hwv : w = v
      · subst hwv
        simp [hfired]
      · rw [hp w hwv]
        simp [hwv]
    · rw [Function.update_of_ne hr]
      simp [hr]
  ordered := by
    intro hk w
    obtain ⟨n, hn⟩ := h.ordered hk w
    rw [List.filter_append, List.map_append, hn]
    by_cases hwv : w = v
    · subst hwv
      have hmem : ∀ {r'}, r' < n ↔ (w, r') ∈ executed := by
        intro r'
        rw [← List.mem_range, ← hn]
        simp
      -- all earlier runs are on record, and this one is not
      have hle : n ≤ r := by
        by_contra hlt
        have := (h.mem_iff hv).mp (hmem.mp (Nat.not_le.mp hlt))
        simp [hnew] at this
      have hge : r ≤ n := by
        by_contra hlt
        have hdone := ha hk (Nat.not_le.mp hlt) hv hbegun
        have := hmem.mpr ((h.mem_iff hv).mpr (by rw [hdone]; rfl))
        exact Nat.lt_irrefl n this
      obtain rfl : n = r := Nat.le_antisymm hle hge
      exact ⟨n + 1, by simp [List.range_succ]⟩
    · have hvw : (v == w) = false := by simpa using Ne.symm hwv
      exact ⟨n, by simp [hvw]⟩

namespace Sound

variable [Payload α] {k : Strategy} {g : Graph α} {depth : Nat} {closed : Bool}
  {requests : List (Request α)} {launched : Nat} {post : ObjectId → NodeId → Post α}
  {executed executed' : List (NodeId × ObjectId)} {b b' : Binding α}
  {load load' : List (Execution α)}

/-- **An operation on behalf of a run** changes the books of that run only. -/
theorem advance (h : Sound k g depth closed requests launched post executed b load)
    {σ : SlotId} {r : ObjectId} {s s' : RunStatus α} {q : Request α}
    (hs : b.table.Holds σ r s) (hq : requests[r]? = some q)
    (ha : b.graph.Alike b'.graph) (hl : b'.graph.Laid depth closed)
    (ht : b.table.Amends b'.table σ r s')
    (hother : ∀ c y, y.objectId ≠ r →
      (y ∈ b'.graph.entriesAt c ↔ y ∈ b.graph.entriesAt c))
    (htags : ∀ c, (b'.graph.tagsAt c).Pairwise k.Before) {p : NodeId → Post α}
    (hbooks : Books k g q.inputs σ r s' (fun c e => ⟨r, e⟩ ∈ b'.graph.entriesAt c) p)
    (habreast : Abreast k g (Function.update post r p))
    (hmanned : Manned k g closed (Function.update post r p) load')
    (hchron : Chronicle k g (Function.update post r p) executed') :
    Sound k g depth closed requests launched (Function.update post r p) executed' b' load' := by
  have hr : b.table.InFlight r := ⟨σ, s, hs⟩
  have hflight : ∀ {r'}, b'.table.InFlight r' ↔ b.table.InFlight r' := ht.inFlight_iff hr
  refine {
    alike := h.alike.trans ha
    laid := hl
    ledger := ht.ledger h.ledger
    inDegrees := by rw [ht.same]; exact h.inDegrees
    sinkCount := by rw [ht.same]; exact h.sinkCount
    inputs := h.inputs
    tags := htags
    tag_inFlight := ?_
    books := ?_
    passed := ?_
    unborn := ?_
    abreast := habreast
    manned := hmanned
    chronicle := hchron
    closed_idle := ?_ }
  -- the entries of all other runs are where they were
  · intro c r' hr'
    rw [hflight]
    by_cases hrr : r' = r
    · exact hrr ▸ hr
    · obtain ⟨e, he⟩ := Graph.mem_tagsAt.mp hr'
      exact h.tag_inFlight (Graph.mem_tagsAt.mpr ⟨e, (hother c _ hrr).mp he⟩)
  · intro τ r' s₁ q' hs₁ hq'
    rcases ht.holds.mp hs₁ with ⟨hrr, hold⟩ | ⟨rfl, rfl, rfl⟩
    · rw [Function.update_of_ne hrr]
      exact (h.books hold hq').congr fun c e => hother c ⟨r', e⟩ hrr
    · obtain rfl := Option.some.inj (hq.symm.trans hq')
      rw [Function.update_self]
      exact hbooks
  · intro r' hlt hno v
    have hno' : ¬ b.table.InFlight r' := fun hf => hno (hflight.mpr hf)
    have hrr : r' ≠ r := fun he => hno' (he ▸ hr)
    rw [Function.update_of_ne hrr]
    exact h.passed hlt hno' v
  -- the run was launched, so it is none of those that have not begun
  · intro r' hle v
    have hlt := h.ledger.lt_launched hr
    have hrr : r' ≠ r := fun he => absurd (he ▸ hle) (Nat.not_le.mpr hlt)
    rw [Function.update_of_ne hrr]
    exact h.unborn hle v
  -- nothing is in flight once the table is closed, but this run is
  · intro hc
    have := h.ledger.inFlight_pos hr
    rw [h.closed_idle hc] at this
    exact absurd this (Nat.lt_irrefl 0)

variable {x : Execution α} {rest news : List (Execution α)} {σ : SlotId} {r : ObjectId}
  {s s' : RunStatus α} {q : Request α}

/-- An engaged execution serves a run in flight. -/
theorem serving (h : Sound k g depth closed requests launched post executed b load)
    (hx : x ∈ load) (he : x.isEngaged k g = true) :
    ∃ r σ s q, post r x.node = .busy x.stage ∧ b.table.Holds σ r s ∧ requests[r]? = some q ∧
      s.cell = some q.cell ∧
      Books k g q.inputs σ r s (fun c e => ⟨r, e⟩ ∈ b.graph.entriesAt c) (post r) := by
  obtain ⟨r, hr⟩ := h.manned.engaged hx he
  obtain ⟨σ, s, q, hs, hq, hc, hbooks⟩ := h.holds_of_busy hr
  exact ⟨r, σ, s, q, hr, hs, hq, hc, hbooks⟩

/-- No other execution is at the post of an engaged one. -/
theorem not_twice (h : Sound k g depth closed requests launched post executed b (x :: rest))
    (he : x.isEngaged k g = true) (hpost : post r x.node = .busy x.stage) {y : Execution α}
    (hy : y ∈ rest) (hb : post r y.node = .busy y.stage) : y.node ≠ x.node := by
  intro hn
  -- otherwise it would be the execution itself, which is not listed twice
  obtain rfl : y = x := by
    obtain ⟨v, st⟩ := y
    obtain ⟨v', st'⟩ := x
    obtain rfl : v = v' := hn
    obtain rfl : st' = st := Post.busy.inj (hpost.symm.trans hb)
    rfl
  have hnd := h.manned.nodup
  rw [List.filter_cons, if_pos he] at hnd
  exact (List.nodup_cons.mp hnd).1 (List.mem_filter.mpr ⟨hy, he⟩)

/-- **An execution performs an operation on behalf of its run.** The news are what has
become of it, and the tasks that it has made ready. -/
theorem onward (h : Sound k g depth closed requests launched post executed b (x :: rest))
    (b' : Binding α) (he : x.isEngaged k g = true) (hpost : post r x.node = .busy x.stage)
    (hs : b.table.Holds σ r s) (hq : requests[r]? = some q)
    (ha : b.graph.Alike b'.graph) (hl : b'.graph.Laid depth closed)
    (ht : b.table.Amends b'.table σ r s')
    (hother : ∀ c y, y.objectId ≠ r →
      (y ∈ b'.graph.entriesAt c ↔ y ∈ b.graph.entriesAt c))
    (htags : ∀ c, (b'.graph.tagsAt c).Pairwise k.Before) {p : NodeId → Post α}
    (hbooks : Books k g q.inputs σ r s' (fun c e => ⟨r, e⟩ ∈ b'.graph.entriesAt c) p)
    (habreast : Abreast k g (Function.update post r p))
    (hchron : Chronicle k g (Function.update post r p) executed')
    (hnews : ∀ {y}, y ∈ news → y.isEngaged k g = true →
      p y.node = .busy y.stage ∧ (y.node = x.node ∨ post r y.node = .waiting))
    (hidle : ∀ {y}, y ∈ news → y.isEngaged k g = false → y.Rests k g closed)
    (hbusy : ∀ {v st}, p v = .busy st → ⟨v, st⟩ ∈ news ∨ v ≠ x.node ∧ post r v = .busy st)
    (hkeep : ∀ {v st}, v ≠ x.node → post r v = .busy st → p v = .busy st)
    (hnodup : (news.map (·.node)).Nodup)
    (hnodes : k = .dedicated → news.map (·.node) = [x.node]) :
    Sound k g depth closed requests launched (Function.update post r p) executed' b'
      (news ++ rest) := by
  refine h.advance hs hq ha hl ht hother htags hbooks habreast ?_ hchron
  have hserves : x.stage.Serves σ r := by
    obtain ⟨σ', s₁, q', hs₁, -, -, hb⟩ := h.holds_of_busy hpost
    obtain rfl := h.ledger.slot_unique hs₁ hs
    exact hb.posts.serves hpost
  refine h.manned.advance ?_ (h.not_twice he hpost) hnews hidle hbusy hkeep ?_ hnodup hnodes
  · intro r' hrr hb
    exact hrr (h.run_unique hs hserves hb)
  · intro r' v st hrr hb hp
    exact hrr (h.run_unique hs (hbooks.posts.serves hp) hb)

/-- A node that is busy stays abreast while it goes on, or is done. -/
theorem abreast_update (h : Sound k g depth closed requests launched post executed b load)
    {v : NodeId} {st : Stage α} (hpost : post r v = .busy st) {P : Post α} :
    Abreast k g (Function.update post r (Function.update (post r) v P)) := by
  refine h.abreast.update ?_ ?_
  · intro _ w _ hw
    have hne : w ≠ v := by
      rintro rfl
      rw [hpost] at hw
      cases hw
    rwa [Function.update_of_ne hne]
  · intro _ w _ hw
    refine Or.inl ?_
    by_cases hwv : w = v
    · simp [hwv, hpost]
    · rwa [Function.update_of_ne hwv] at hw

/-- **An execution comes to its next stage**, or has made its last access. -/
theorem proceed (h : Sound k g depth closed requests launched post executed b (x :: rest))
    (b' : Binding α) (he : x.isEngaged k g = true) (hpost : post r x.node = .busy x.stage)
    (hs : b.table.Holds σ r s) (hq : requests[r]? = some q)
    (ha : b.graph.Alike b'.graph) (hl : b'.graph.Laid depth closed)
    (ht : b.table.Amends b'.table σ r s')
    (hother : ∀ c y, y.objectId ≠ r →
      (y ∈ b'.graph.entriesAt c ↔ y ∈ b.graph.entriesAt c))
    (htags : ∀ c, (b'.graph.tagsAt c).Pairwise k.Before) {st : Stage α}
    (hbooks : Books k g q.inputs σ r s' (fun c e => ⟨r, e⟩ ∈ b'.graph.entriesAt c)
      (Function.update (post r) x.node (.ofStage k g x.node st)))
    (hchron : Chronicle k g
      (Function.update post r (Function.update (post r) x.node (.ofStage k g x.node st)))
      executed')
    (hrests : (⟨x.node, st⟩ : Execution α).isEngaged k g = false →
      (⟨x.node, st⟩ : Execution α).Rests k g closed) :
    Sound k g depth closed requests launched
      (Function.update post r (Function.update (post r) x.node (.ofStage k g x.node st)))
      executed' b' (⟨x.node, st⟩ :: rest) := by
  show Sound k g depth closed requests launched _ executed' b' ([⟨x.node, st⟩] ++ rest)
  refine h.onward b' he hpost hs hq ha hl ht hother htags hbooks (h.abreast_update hpost) hchron
    ?_ ?_ ?_ ?_ (List.nodup_singleton _) fun _ => rfl
  · intro y hy hye
    obtain rfl := List.mem_singleton.mp hy
    exact ⟨by rw [Function.update_self, Post.ofStage, if_pos hye], Or.inl rfl⟩
  · intro y hy hye
    obtain rfl := List.mem_singleton.mp hy
    exact hrests hye
  · intro v st' hb
    by_cases hv : v = x.node
    · subst hv
      rw [Function.update_self, Post.ofStage] at hb
      split at hb
      · obtain rfl := Post.busy.inj hb
        exact Or.inl (List.mem_singleton_self _)
      · cases hb
    · rw [Function.update_of_ne hv] at hb
      exact Or.inr ⟨hv, hb⟩
  · intro v st' hv hb
    rwa [Function.update_of_ne hv]

/-- **An execution has made its last access** for its run, and leaves others behind that
rest. -/
theorem quit (h : Sound k g depth closed requests launched post executed b (x :: rest))
    (b' : Binding α) (he : x.isEngaged k g = true) (hpost : post r x.node = .busy x.stage)
    (hs : b.table.Holds σ r s) (hq : requests[r]? = some q)
    (ha : b.graph.Alike b'.graph) (hl : b'.graph.Laid depth closed)
    (ht : b.table.Amends b'.table σ r s')
    (hother : ∀ c y, y.objectId ≠ r →
      (y ∈ b'.graph.entriesAt c ↔ y ∈ b.graph.entriesAt c))
    (htags : ∀ c, (b'.graph.tagsAt c).Pairwise k.Before)
    (hbooks : Books k g q.inputs σ r s' (fun c e => ⟨r, e⟩ ∈ b'.graph.entriesAt c)
      (Function.update (post r) x.node .done))
    (hchron : Chronicle k g
      (Function.update post r (Function.update (post r) x.node .done)) executed')
    (hnews : ∀ {y}, y ∈ news → y.isEngaged k g = false ∧ y.Rests k g closed)
    (hnodup : (news.map (·.node)).Nodup)
    (hnodes : k = .dedicated → news.map (·.node) = [x.node]) :
    Sound k g depth closed requests launched
      (Function.update post r (Function.update (post r) x.node .done)) executed' b'
      (news ++ rest) := by
  refine h.onward b' he hpost hs hq ha hl ht hother htags hbooks (h.abreast_update hpost) hchron
    ?_ (fun hy _ => (hnews hy).2) ?_ ?_ hnodup hnodes
  · intro y hy hye
    exact absurd ((hnews hy).1.symm.trans hye) (by simp)
  · intro v st' hb
    by_cases hv : v = x.node
    · subst hv
      rw [Function.update_self] at hb
      cases hb
    · rw [Function.update_of_ne hv] at hb
      exact Or.inr ⟨hv, hb⟩
  · intro v st' hv hb
    rwa [Function.update_of_ne hv]

/-- An execution that rests gives way to others that do. -/
theorem give_way (h : Sound k g depth closed requests launched post executed b (x :: rest))
    (he : x.isEngaged k g = false)
    (hnews : ∀ {y}, y ∈ news → y.isEngaged k g = false ∧ y.Rests k g closed)
    (hnodes : k = .dedicated → news.map (·.node) = [x.node]) :
    Sound k g depth closed requests launched post executed b (news ++ rest) := by
  refine { h with manned := h.manned.rest ?_ hnews hnodes }
  intro r hb
  obtain ⟨σ, s, q, -, -, -, hbooks⟩ := h.holds_of_busy hb
  rw [hbooks.posts.engaged hb] at he
  exact absurd he (by simp)

end Sound

end Dataflow
