import Mathlib.Data.List.Nodup
import Dataflow.Graph.Evaluation
import Dataflow.Graph.Freeze
import Dataflow.Proofs.Graph.Sorted
import Dataflow.Proofs.Pool.Tags

/-!
# Channels of a frozen graph

The pools of a frozen graph are addressed by channels. Runs pass through two kinds of
them, `Graph.Carries`: the staging areas of the sources and the edges. A pool that is
put back at such a channel is found there and nowhere else, `Graph.pool?_setPool`, so
the entries at one channel, `Graph.entriesAt`, change independently of all the others.

`Graph.Laid` says what never changes about the pools while runs are executed: each
channel that carries runs has as many slots as runs may be in flight, nothing lies
anywhere else, and no producer was ever counted as waiting.
-/

namespace Dataflow

namespace Graph

variable {α : Type} {g : Graph α}

/-- Runs pass through the channel. -/
def Carries (g : Graph α) : Channel → Prop
  | .staging v => v ∈ g.sources
  | .edge u v => v ∈ g.successors u

/-- The entries that wait at a channel, oldest first. -/
def entriesAt (g : Graph α) (c : Channel) : List (Tagged (Entry α)) :=
  ((g.pool? c).map (·.entries)).getD []

/-- The runs that have an entry at a channel, oldest first. -/
def tagsAt (g : Graph α) (c : Channel) : List ObjectId :=
  (g.entriesAt c).map (·.objectId)

theorem mem_tagsAt {c : Channel} {run : ObjectId} :
    run ∈ g.tagsAt c ↔ ∃ e, (⟨run, e⟩ : Tagged (Entry α)) ∈ g.entriesAt c := by
  unfold tagsAt
  rw [List.mem_map]
  constructor
  · rintro ⟨x, hx, rfl⟩
    exact ⟨x.payload, hx⟩
  · rintro ⟨e, he⟩
    exact ⟨_, he, rfl⟩

theorem entriesAt_of_pool {c : Channel} {p : Pool (Entry α)} (h : g.pool? c = some p) :
    g.entriesAt c = p.entries := by
  simp [entriesAt, h]

theorem tagsAt_of_pool {c : Channel} {p : Pool (Entry α)} (h : g.pool? c = some p) :
    g.tagsAt c = p.tags := by
  simp [tagsAt, entriesAt_of_pool h, Pool.tags]

/-! ### Putting a pool back -/

section SetPool

variable (g) (c : Channel) (p : Pool (Entry α))

@[simp] theorem nodes_setPool : (g.setPool c p).nodes = g.nodes := by
  cases c <;> rfl

@[simp] theorem plan_setPool : (g.setPool c p).plan = g.plan := by
  cases c <;> rfl

theorem size_stations_setPool : (g.setPool c p).stations.size = g.stations.size := by
  cases c <;> simp [setPool]

end SetPool

/-- Graphs with the same nodes and the same plan are read alike. -/
structure Alike (g g' : Graph α) : Prop where
  nodes : g'.nodes = g.nodes
  plan : g'.plan = g.plan

namespace Alike

variable {g g' g'' : Graph α}

theorem refl (g : Graph α) : g.Alike g := ⟨rfl, rfl⟩

theorem trans (h : g.Alike g') (h' : g'.Alike g'') : g.Alike g'' :=
  ⟨h'.nodes.trans h.nodes, h'.plan.trans h.plan⟩

theorem setPool (g : Graph α) (c : Channel) (p : Pool (Entry α)) : g.Alike (g.setPool c p) :=
  ⟨nodes_setPool .., plan_setPool ..⟩

theorem predecessors (h : g.Alike g') (v : NodeId) : g'.predecessors v = g.predecessors v := by
  simp only [Graph.predecessors, h.nodes]

theorem successors (h : g.Alike g') (v : NodeId) : g'.successors v = g.successors v := by
  simp only [Graph.successors, h.nodes]

theorem inlets (h : g.Alike g') (v : NodeId) : g'.inlets v = g.inlets v := by
  simp only [Graph.inlets, h.predecessors]

theorem outlets (h : g.Alike g') (v : NodeId) : g'.outlets v = g.outlets v := by
  simp only [Graph.outlets, h.successors]

theorem sources (h : g.Alike g') : g'.sources = g.sources := by
  simp only [Graph.sources, Graph.collect, h.plan, h.nodes]

theorem sinks (h : g.Alike g') : g'.sinks = g.sinks := by
  simp only [Graph.sinks, Graph.collect, h.plan, h.nodes]

theorem order (h : g.Alike g') : g'.order = g.order := by
  simp only [Graph.order, h.plan]

theorem carries (h : g.Alike g') {c : Channel} : g'.Carries c ↔ g.Carries c := by
  cases c with
  | staging v => simp only [Carries, h.sources]
  | edge u v => simp only [Carries, h.successors]

theorem evaluate [Payload α] (h : g.Alike g') (staged : Staged α) :
    g'.evaluate staged = g.evaluate staged := by
  have hn : g'.evaluateNode staged = g.evaluateNode staged := by
    funext v id
    simp only [evaluateNode, received, h.nodes, h.predecessors, h.successors]
  rw [Graph.evaluate, Graph.evaluate, h.order, hn]

end Alike

/-- **A pool that is put back at a channel that carries runs is found there, and
nowhere else.** -/
theorem pool?_setPool {c : Channel} (p : Pool (Entry α)) (hc : g.Carries c)
    (hp : (g.pool? c).isSome) (c' : Channel) :
    (g.setPool c p).pool? c' = if c' = c then some p else g.pool? c' := by
  cases c with
  | staging v =>
    cases c' with
    | staging w =>
      by_cases hw : w = v
      · subst hw
        simp only [pool?, Option.isSome_map] at hp
        obtain ⟨q, hq⟩ := Option.isSome_iff_exists.mp hp
        simp [pool?, setPool, Array.getElem?_modify, hq]
      · have hvw : ¬ v = w := fun h => hw h.symm
        simp [pool?, setPool, Array.getElem?_modify, hw, hvw]
    | edge u w =>
      simp only [pool?, setPool, Array.getElem?_modify, reduceCtorEq, if_false]
      split
      · cases g.stations[u]? <;> rfl
      · rfl
  | edge u v =>
    cases c' with
    | staging w =>
      simp only [pool?, setPool, Array.getElem?_modify, reduceCtorEq, if_false]
      split
      · cases g.stations[w]? <;> rfl
      · rfl
    | edge u' w =>
      by_cases hu : u' = u
      · subst hu
        simp only [pool?] at hp
        obtain ⟨q, hq⟩ := Option.isSome_iff_exists.mp hp
        obtain ⟨s, hs, hq⟩ := Option.bind_eq_some_iff.mp hq
        have hlt : Node.branchAt g.nodes u' v < s.outgoing.size :=
          (Array.getElem?_eq_some_iff.mp hq).1
        simp only [pool?, setPool, Array.getElem?_modify, if_true, hs, Option.map_some,
          Option.bind_some, Array.getElem?_setIfInBounds, hlt]
        by_cases hw : w = v
        · simp [hw]
        · have hne : Node.branchAt g.nodes u' v ≠ Node.branchAt g.nodes u' w := by
            intro he
            have hv : v ∈ Node.successorsAt g.nodes u' := hc
            have hlt' := List.idxOf_lt_length_of_mem hv
            have hget := List.getElem_idxOf hlt'
            have hw' : w ∈ Node.successorsAt g.nodes u' := by
              rw [← List.idxOf_lt_length_iff]
              have he' : (Node.successorsAt g.nodes u').idxOf w =
                (Node.successorsAt g.nodes u').idxOf v := he.symm
              rwa [he']
            have hget' := List.getElem_idxOf (List.idxOf_lt_length_of_mem hw')
            apply hw
            rw [← hget, ← hget']
            congr 1
            exact he.symm
          simp [hw, hne]
      · have huu : ¬ u = u' := fun h => hu h.symm
        simp [pool?, setPool, Array.getElem?_modify, hu, huu]

theorem entriesAt_setPool {c : Channel} (p : Pool (Entry α)) (hc : g.Carries c)
    (hp : (g.pool? c).isSome) (c' : Channel) :
    (g.setPool c p).entriesAt c' = if c' = c then p.entries else g.entriesAt c' := by
  unfold entriesAt
  rw [pool?_setPool p hc hp]
  split <;> rfl

/-! ### Counting executions -/

theorem pool?_modify (f : Station α → Station α) (v : NodeId)
    (hf : ∀ s, (f s).staging = s.staging ∧ (f s).outgoing = s.outgoing) (c : Channel) :
    ({ g with stations := g.stations.modify v f } : Graph α).pool? c = g.pool? c := by
  cases c with
  | staging w =>
    simp only [pool?, Array.getElem?_modify]
    split
    · cases g.stations[w]? with
      | none => rfl
      | some s => simp [(hf s).1]
    · rfl
  | edge u w =>
    simp only [pool?, Array.getElem?_modify]
    split
    · cases g.stations[u]? with
      | none => rfl
      | some s => simp [(hf s).2]
    · rfl

@[simp] theorem pool?_countRun (v : NodeId) (c : Channel) :
    (g.countRun v).pool? c = g.pool? c :=
  pool?_modify (fun q => { q with runs := q.runs + 1 }) v (fun _ => ⟨rfl, rfl⟩) c

@[simp] theorem pool?_countCall (v : NodeId) (c : Channel) :
    (g.countCall v).pool? c = g.pool? c :=
  pool?_modify (fun q => { q with timed := q.timed + 1 }) v (fun _ => ⟨rfl, rfl⟩) c

/-! ### What stays as it is -/

/-- **The pools of a frozen graph**, as they are while runs are executed. -/
structure Laid (g : Graph α) (depth : Nat) (closed : Bool) : Prop where
  exists_pool : ∀ {c}, g.Carries c → ∃ p, g.pool? c = some p ∧ p.capacity = depth
  unused : ∀ {c}, ¬ g.Carries c → g.entriesAt c = []
  closed : ∀ {c p}, g.pool? c = some p → p.isClosed = closed
  starved : ∀ {c p}, g.pool? c = some p → p.starved = 0

namespace Laid

variable {depth : Nat} {closed : Bool}

theorem of_pools {g' : Graph α} (h : g.Laid depth closed) (ha : g.Alike g')
    (hp : ∀ c, g'.pool? c = g.pool? c) : g'.Laid depth closed := by
  constructor
  · intro c hc
    rw [hp]
    exact h.exists_pool (ha.carries.mp hc)
  · intro c hc
    rw [entriesAt, hp]
    exact h.unused fun hc' => hc (ha.carries.mpr hc')
  · intro c p hcp
    exact h.closed (hp c ▸ hcp)
  · intro c p hcp
    exact h.starved (hp c ▸ hcp)

/-- Entries may come and go at a channel that carries runs. -/
theorem setPool (h : g.Laid depth closed) {c : Channel} {p p' : Pool (Entry α)}
    (hc : g.Carries c) (hp : g.pool? c = some p) (hcap : p'.capacity = p.capacity)
    (hcl : p'.isClosed = p.isClosed) (hst : p'.starved = p.starved) :
    (g.setPool c p').Laid depth closed := by
  have ha := Alike.setPool g c p'
  have hsome : (g.pool? c).isSome := by rw [hp]; rfl
  constructor
  · intro c' hc'
    rw [pool?_setPool p' hc hsome]
    obtain ⟨q, hq, hqc⟩ := h.exists_pool (ha.carries.mp hc')
    split
    · next he =>
      subst he
      obtain rfl : p = q := by simpa [hp] using hq
      exact ⟨p', rfl, hcap.trans hqc⟩
    · exact ⟨q, hq, hqc⟩
  · intro c' hc'
    rw [entriesAt_setPool p' hc hsome]
    have hne : c' ≠ c := fun he => hc' (he ▸ ha.carries.mpr hc)
    rw [if_neg hne]
    exact h.unused fun hcc => hc' (ha.carries.mpr hcc)
  · intro c' q hq
    rw [pool?_setPool p' hc hsome] at hq
    split at hq
    · obtain rfl : p' = q := by simpa using hq
      rw [hcl]
      exact h.closed hp
    · exact h.closed hq
  · intro c' q hq
    rw [pool?_setPool p' hc hsome] at hq
    split at hq
    · obtain rfl : p' = q := by simpa using hq
      rw [hst]
      exact h.starved hp
    · exact h.starved hq

end Laid

/-- An execution is counted, and its callback if it was called. -/
theorem pool?_count (called : Bool) (v : NodeId) (c : Channel) :
    ((if called then g.countCall v else g).countRun v).pool? c = g.pool? c := by
  cases called <;> simp

theorem alike_count (called : Bool) (v : NodeId) :
    g.Alike ((if called then g.countCall v else g).countRun v) := by
  cases called <;> exact ⟨rfl, rfl⟩

theorem entriesAt_count (called : Bool) (v : NodeId) (c : Channel) :
    ((if called then g.countCall v else g).countRun v).entriesAt c = g.entriesAt c := by
  rw [entriesAt, entriesAt, pool?_count]

/-! ### Entries that go and come -/

section Entries

variable {depth : Nat} {closed : Bool} {c : Channel} {p p' : Pool (Entry α)} {run : ObjectId}
  {e : Entry α}

/-- A pool gives away the entry of a run. -/
theorem entriesAt_of_gives (hc : g.Carries c) (hp : g.pool? c = some p) (h : p.Gives run e p')
    (c' : Channel) (y : Tagged (Entry α)) : y ∈ (g.setPool c p').entriesAt c' ↔
      y ∈ g.entriesAt c' ∧ ¬ (c' = c ∧ y.objectId = run) := by
  rw [entriesAt_setPool p' hc (by rw [hp]; rfl)]
  split
  · next he =>
    subst he
    rw [h.mem_iff, entriesAt_of_pool hp]
    simp
  · next hne => simp [hne]

theorem tagsAt_of_gives (hc : g.Carries c) (hp : g.pool? c = some p) (h : p.Gives run e p')
    (c' : Channel) : ((g.setPool c p').tagsAt c').Sublist (g.tagsAt c') := by
  unfold tagsAt
  rw [entriesAt_setPool p' hc (by rw [hp]; rfl)]
  split
  · next he =>
    subst he
    rw [entriesAt_of_pool hp]
    exact h.tags
  · exact List.Sublist.refl _

theorem Laid.of_gives (hl : g.Laid depth closed) (hc : g.Carries c) (hp : g.pool? c = some p)
    (h : p.Gives run e p') : (g.setPool c p').Laid depth closed :=
  hl.setPool hc hp h.capacity h.isClosed h.starved

theorem Laid.store (hl : g.Laid depth closed) (hc : g.Carries c) (hp : g.pool? c = some p)
    (x : Tagged (Entry α)) (h : p.entries.length < p.capacity) :
    (g.setPool c (p.store x)).Laid depth closed := by
  obtain ⟨-, hcap, hcl, hst⟩ := p.store_spec x h
  exact hl.setPool hc hp hcap hcl hst

/-- One more entry at one channel. -/
structure Gains (g g' : Graph α) (c : Channel) (x : Tagged (Entry α)) : Prop where
  alike : g.Alike g'
  entries : ∀ c', g'.entriesAt c' = if c' = c then g.entriesAt c ++ [x] else g.entriesAt c'

namespace Gains

variable {g' : Graph α} {x : Tagged (Entry α)}

theorem mem_iff (h : g.Gains g' c x) (c' : Channel) (y : Tagged (Entry α)) :
    y ∈ g'.entriesAt c' ↔ y ∈ g.entriesAt c' ∨ c' = c ∧ y = x := by
  rw [h.entries]
  split
  · next hc => simp [hc]
  · next hc => simp [hc]

/-- The entries of other runs stay as they are. -/
theorem mem_other (h : g.Gains g' c x) (c' : Channel) (y : Tagged (Entry α))
    (hy : y.objectId ≠ x.objectId) : y ∈ g'.entriesAt c' ↔ y ∈ g.entriesAt c' := by
  rw [h.mem_iff]
  exact or_iff_left fun hyx => hy (by rw [hyx.2])

theorem pairwise_tags (h : g.Gains g' c x) {R : ObjectId → ObjectId → Prop}
    (hR : ∀ c', (g.tagsAt c').Pairwise R) (hx : ∀ r ∈ g.tagsAt c, R r x.objectId) (c' : Channel) :
    (g'.tagsAt c').Pairwise R := by
  rw [tagsAt, h.entries]
  split
  · rw [List.map_append, List.map_singleton]
    refine List.pairwise_append.mpr ⟨hR c, List.pairwise_singleton _ _, ?_⟩
    intro r hr r' hr'
    rw [List.mem_singleton.mp hr']
    exact hx r hr
  · exact hR c'

end Gains

/-- A pool with a free slot stores an entry behind all others. -/
theorem gains_store (hc : g.Carries c) (hp : g.pool? c = some p) (x : Tagged (Entry α))
    (h : p.entries.length < p.capacity) : g.Gains (g.setPool c (p.store x)) c x where
  alike := .setPool ..
  entries := by
    intro c'
    rw [entriesAt_setPool (p.store x) hc (by rw [hp]; rfl), (p.store_spec x h).1,
      entriesAt_of_pool hp]

/-- A channel with room takes an entry at once. -/
theorem Laid.push (hl : g.Laid depth false) (hc : g.Carries c) (x : Tagged (Entry α))
    (h : (g.entriesAt c).length < depth) :
    ∃ p, g.pool? c = some p ∧ p.entries.length < p.capacity ∧
      p.push x = some (.ok (p.store x)) ∧ p.tryPush x = .ok (p.store x) := by
  obtain ⟨p, hp, hcap⟩ := hl.exists_pool hc
  have hlt : p.entries.length < p.capacity := by
    rw [hcap, ← entriesAt_of_pool hp]
    exact h
  exact ⟨p, hp, hlt, Pool.push_of_room x (hl.closed hp) hlt⟩

end Entries

/-! ### Closing and preparing the pools -/

theorem pool?_closePools (c : Channel) : g.closePools.pool? c = (g.pool? c).map (·.close) := by
  cases c with
  | staging v =>
    simp only [pool?, closePools, Array.getElem?_map, Option.map_map]
    rfl
  | edge u v =>
    simp only [pool?, closePools, Array.getElem?_map]
    cases g.stations[u]? with
    | none => rfl
    | some s => simp [Station.close]

theorem entriesAt_closePools (c : Channel) : g.closePools.entriesAt c = g.entriesAt c := by
  unfold entriesAt
  rw [pool?_closePools]
  cases g.pool? c <;> rfl

theorem Laid.closePools {depth : Nat} {closed : Bool} (h : g.Laid depth closed) :
    g.closePools.Laid depth true := by
  have ha : g.Alike g.closePools := ⟨rfl, rfl⟩
  constructor
  · intro c hc
    obtain ⟨p, hp, hcap⟩ := h.exists_pool (ha.carries.mp hc)
    exact ⟨p.close, by rw [pool?_closePools, hp]; rfl, hcap⟩
  · intro c hc
    rw [entriesAt_closePools]
    exact h.unused fun hcc => hc (ha.carries.mpr hcc)
  · intro c p hp
    rw [pool?_closePools] at hp
    obtain ⟨q, -, rfl⟩ := Option.map_eq_some_iff.mp hp
    rfl
  · intro c p hp
    rw [pool?_closePools] at hp
    obtain ⟨q, hq, rfl⟩ := Option.map_eq_some_iff.mp hp
    exact (h.starved hq : q.starved = 0)

/-- The pools that freezing makes are empty. -/
theorem pool?_prepare (hg : g.Linked) {depth : Nat} {order : Array NodeId}
    {levels : Array (Option Nat)} {c : Channel} {p : Pool (Entry α)}
    (h : (g.prepare depth order levels).pool? c = some p) : ∃ n, p = .new n := by
  cases c with
  | staging v =>
    simp only [pool?, prepare, Array.getElem?_mapIdx, Option.map_map] at h
    obtain ⟨s, hs, rfl⟩ := Option.map_eq_some_iff.mp h
    have hv : v < g.nodes.size := hg.size_stations ▸ (Array.getElem?_eq_some_iff.mp hs).1
    obtain ⟨n, hn⟩ := node_of_lt hv
    simp only [Function.comp, hn, Station.allocate]
    split
    · exact ⟨depth, rfl⟩
    · exact ⟨0, rfl⟩
  | edge u v =>
    simp only [pool?, prepare, Array.getElem?_mapIdx] at h
    obtain ⟨s, hs, hp⟩ := Option.bind_eq_some_iff.mp h
    obtain ⟨s, hs', rfl⟩ := Option.map_eq_some_iff.mp hs
    have hu : u < g.nodes.size := hg.size_stations ▸ (Array.getElem?_eq_some_iff.mp hs').1
    obtain ⟨n, hn⟩ := node_of_lt hu
    simp only [hn, Station.allocate, Array.getElem?_replicate] at hp
    split at hp
    · exact ⟨depth, by simpa using hp.symm⟩
    · simp at hp

theorem Linked.laid_prepare (hg : g.Linked) (depth : Nat) (order : Array NodeId)
    (levels : Array (Option Nat)) : (g.prepare depth order levels).Laid depth false := by
  constructor
  · intro c hc
    refine ⟨.new depth, ?_, Pool.capacity_new depth⟩
    cases c with
    | staging v =>
      obtain ⟨n, hn, hs⟩ := mem_collect.mp (show v ∈ g.collect (·.isSource) from hc)
      have hv := (Array.getElem?_eq_some_iff.mp hn).1
      have hst : v < g.stations.size := by rw [hg.size_stations]; exact hv
      simp [pool?, prepare, hn, hst, Station.allocate, hs]
    | edge u v =>
      have hv : v ∈ g.successors u := hc
      have hu := lt_of_mem_successors hv
      obtain ⟨n, hn⟩ := node_of_lt hu
      have hst : u < g.stations.size := by rw [hg.size_stations]; exact hu
      have hlt : Node.branchAt g.nodes u v < n.successors.length := by
        rw [← successors_of_node hn]
        exact List.idxOf_lt_length_of_mem hv
      simp [pool?, prepare, hn, hst, Station.allocate, hlt]
  · intro c hc
    unfold entriesAt
    cases hp : (g.prepare depth order levels).pool? c with
    | none => rfl
    | some p =>
      obtain ⟨n, rfl⟩ := pool?_prepare hg hp
      rfl
  · intro c p hp
    obtain ⟨n, rfl⟩ := pool?_prepare hg hp
    rfl
  · intro c p hp
    obtain ⟨n, rfl⟩ := pool?_prepare hg hp
    rfl

theorem Linked.entriesAt_prepare (hg : g.Linked) (depth : Nat) (order : Array NodeId)
    (levels : Array (Option Nat)) (c : Channel) :
    (g.prepare depth order levels).entriesAt c = [] := by
  unfold entriesAt
  cases hp : (g.prepare depth order levels).pool? c with
  | none => rfl
  | some p =>
    obtain ⟨n, rfl⟩ := pool?_prepare hg hp
    rfl

end Graph

end Dataflow
