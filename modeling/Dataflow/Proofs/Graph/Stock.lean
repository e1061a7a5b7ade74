import Dataflow.Proofs.Graph.Dues
import Dataflow.Proofs.Graph.WellFormed

/-!
# What lies in the pools

Several runs may be executed by hand at the same time. What lies in the pools then is said by
two things, what is due to each channel for each run and which of it is present,
`Graph.Stocked`. An execution takes what is present at the inlets of its node
(`Graph.Stocked.takeInputs`) and makes present what is due to the outlets
(`Graph.Stocked.deliver`). It never finds a pool full, because a pool has as many slots as
there are runs and holds one entry of each at most.
-/

namespace Dataflow

variable {α : Type}

/-- The pools of a node: for staging, and for each branch. -/
def Station.pools (s : Station α) : List (Pool (Entry α)) :=
  s.staging :: s.outgoing.toList

namespace Graph

variable {g g' : Graph α} {c : Channel} {p : Pool (Entry α)} {v : NodeId}

/-! ### Pools and channels -/

theorem mem_pools_of_pool (hp : g.pool? c = some p) : ∃ s ∈ g.stations, p ∈ s.pools := by
  cases c with
  | staging v =>
    obtain ⟨s, hs, rfl⟩ := Option.map_eq_some_iff.mp hp
    exact ⟨s, Array.mem_of_getElem? hs, List.mem_cons_self ..⟩
  | edge u v =>
    obtain ⟨s, hs, hp⟩ := Option.bind_eq_some_iff.mp hp
    exact ⟨s, Array.mem_of_getElem? hs,
      List.mem_cons_of_mem _ (Array.mem_toList_iff.mpr (Array.mem_of_getElem? hp))⟩

namespace WellFormed

variable {plan : Plan}

/-- A node has the pools that it calls for. -/
theorem sizes_of_station (h : g.WellFormed) {s : Station α} {n : Node α}
    (hs : g.stations[v]? = some s) (hn : g.nodes[v]? = some n) : s.sizes = g.demand n := by
  have hmap := congrArg (·[v]?) h.furnished
  simp only [Array.getElem?_map, hs, hn, Option.map_some, Option.some.injEq] at hmap
  exact hmap

theorem exists_station (h : g.WellFormed) {n : Node α} (hn : g.nodes[v]? = some n) :
    ∃ s, g.stations[v]? = some s := by
  have hlt := (Array.getElem?_eq_some_iff.mp hn).1
  rw [← h.linked.size_stations] at hlt
  exact ⟨_, Array.getElem?_eq_getElem hlt⟩

/-- Each branch of a frozen graph has a pool with as many slots as runs may be in flight. -/
theorem outgoing_of_plan (h : g.WellFormed) (hplan : g.plan = some plan) {s : Station α}
    {n : Node α} (hs : g.stations[v]? = some s) (hn : g.nodes[v]? = some n) :
    s.outgoing.toList.map (·.capacity) = List.replicate n.successors.length plan.depth := by
  have hsizes := congrArg Prod.snd (h.sizes_of_station hs hn)
  simpa only [Station.sizes, demand, hplan] using hsizes

/-- Where runs pass through there is a pool, and it has as many slots as runs may be in
flight. -/
theorem pool_of_carries (h : g.WellFormed) (hplan : g.plan = some plan) (hc : g.Carries c) :
    ∃ p, g.pool? c = some p ∧ p.capacity = plan.depth := by
  cases c with
  | staging v =>
    have hv : v ∈ g.sources := hc
    obtain ⟨n, hn, hsource⟩ := mem_collect.mp (h.sources ▸ hv)
    obtain ⟨s, hs⟩ := h.exists_station hn
    have hsizes := congrArg Prod.fst (h.sizes_of_station hs hn)
    simp only [Station.sizes, demand, hplan] at hsizes
    exact ⟨s.staging, by rw [pool?, hs]; rfl, hsizes.trans (if_pos hsource)⟩
  | edge u v =>
    have hv : v ∈ g.successors u := hc
    obtain ⟨n, hn⟩ := node_of_lt (lt_of_mem_successors hv)
    obtain ⟨s, hs⟩ := h.exists_station hn
    have hout := h.outgoing_of_plan hplan hs hn
    have hlen : s.outgoing.size = (g.successors u).length := by
      have := congrArg List.length hout
      simpa [successors_of_node hn] using this
    have hlt : Node.branchAt g.nodes u v < s.outgoing.size :=
      hlen ▸ List.idxOf_lt_length_of_mem hv
    refine ⟨s.outgoing[Node.branchAt g.nodes u v], ?_, ?_⟩
    · rw [pool?, hs, Option.bind_some, Array.getElem?_eq_getElem hlt]
    · refine List.eq_of_mem_replicate (hout ▸ List.mem_map_of_mem ?_)
      exact Array.mem_toList_iff.mpr (Array.getElem_mem hlt)

/-- If nothing lies in any channel, nothing lies in any pool. -/
theorem entries_of_pools (h : g.WellFormed) (hplan : g.plan = some plan)
    (he : ∀ c, g.entriesAt c = []) {s : Station α} (hs : s ∈ g.stations) (hp : p ∈ s.pools) :
    p.entries = [] := by
  obtain ⟨v, hv⟩ := Array.mem_iff_getElem?.mp hs
  rcases List.mem_cons.mp hp with rfl | hp
  · have hpool : g.pool? (.staging v) = some s.staging := by rw [pool?, hv]; rfl
    exact (entriesAt_of_pool hpool).symm.trans (he _)
  · obtain ⟨n, hn⟩ := node_of_lt
      (h.linked.size_stations ▸ (Array.getElem?_eq_some_iff.mp hv).1)
    obtain ⟨k, hk⟩ := List.mem_iff_getElem?.mp hp
    have hlen : s.outgoing.toList.length = (g.successors v).length := by
      have := congrArg List.length (h.outgoing_of_plan hplan hv hn)
      simpa [successors_of_node hn] using this
    have hlt : k < (g.successors v).length := hlen ▸ (List.getElem?_eq_some_iff.mp hk).1
    -- the pool of a branch is that of the edge to the successor there
    have hbranch : Node.branchAt g.nodes v (g.successors v)[k] = k :=
      (h.linked.nodup_successors v).idxOf_getElem k hlt
    have hpool : g.pool? (.edge v (g.successors v)[k]) = some p := by
      rw [pool?, hv, Option.bind_some, hbranch, ← Array.getElem?_toList, hk]
    exact (entriesAt_of_pool hpool).symm.trans (he _)

end WellFormed

/-! ### Graphs nobody has used yet -/

/-- A graph that is frozen for as many runs, with nothing in its pools, which are open. -/
structure Ready (g : Graph α) (depth : Nat) : Prop where
  depth : g.depth? = some depth
  pools : ∀ s ∈ g.stations, ∀ p ∈ s.pools, p.isClosed = false ∧ p.entries = []

/-- Freezing gets a graph ready. -/
theorem Linked.ready (h : g.Linked) {depth : Nat} (hf : g.freeze depth = (.ok (), g')) :
    g'.Ready depth := by
  obtain ⟨-, -, order, levels, -, rfl⟩ := freeze_eq_ok hf
  refine ⟨rfl, fun s hs p hp => ?_⟩
  obtain ⟨v, hlt, rfl⟩ := Array.mem_mapIdx.mp hs
  obtain ⟨n, hn⟩ := node_of_lt (h.size_stations ▸ hlt)
  simp only [hn, Station.pools, Station.allocate, Array.toList_replicate, List.mem_cons] at hp
  have hnew : ∃ n, p = .new n := by
    rcases hp with rfl | hp
    · split
      · exact ⟨_, rfl⟩
      · exact ⟨_, rfl⟩
    · exact ⟨_, List.eq_of_mem_replicate hp⟩
  obtain ⟨n, rfl⟩ := hnew
  exact ⟨rfl, rfl⟩

/-! ### What is present -/

variable {depth : Nat} {due : ObjectId → Channel → Entry α}
  {present present' : ObjectId → Channel → Prop} {run : ObjectId} {runs : List ObjectId}

/-- **The pools hold what is present of the entries that are due**, and nothing else. -/
structure Stocked (g₀ : Graph α) (depth : Nat) (due : ObjectId → Channel → Entry α)
    (present : ObjectId → Channel → Prop) (g : Graph α) : Prop where
  alike : g₀.Alike g
  pool : ∀ {c}, g₀.Carries c → ∃ p, g.pool? c = some p ∧ p.capacity = depth ∧ p.isClosed = false
  nodup : ∀ c, (g.tagsAt c).Nodup
  mem_iff : ∀ {c x}, x ∈ g.entriesAt c ↔
    g₀.Carries c ∧ present x.objectId c ∧ x.payload = due x.objectId c

namespace Stocked

variable {g₀ : Graph α}

theorem of_iff (h : g₀.Stocked depth due present g)
    (hp : ∀ r {c}, g₀.Carries c → (present' r c ↔ present r c)) :
    g₀.Stocked depth due present' g where
  alike := h.alike
  pool := h.pool
  nodup := h.nodup
  mem_iff := by
    intro c x
    rw [h.mem_iff]
    exact and_congr_right fun hc => and_congr_left fun _ => (hp x.objectId hc).symm

/-- The pools of a graph may be counted at, and its executions. -/
theorem of_pools (h : g₀.Stocked depth due present g) (ha : g.Alike g')
    (hp : ∀ c, g'.pool? c = g.pool? c) : g₀.Stocked depth due present g' where
  alike := h.alike.trans ha
  pool := fun hc => hp _ ▸ h.pool hc
  nodup := fun c => by
    rw [tagsAt, entriesAt, hp]
    exact h.nodup c
  mem_iff := by
    intro c x
    rw [entriesAt, hp]
    exact h.mem_iff

/-- A pool may be replaced by one of the same kind, if it holds what is present then. -/
theorem setPool (h : g₀.Stocked depth due present g) {p p' : Pool (Entry α)}
    (hc : g₀.Carries c) (hp : g.pool? c = some p) (hcap : p'.capacity = p.capacity)
    (hclosed : p'.isClosed = p.isClosed) (hnodup : p'.tags.Nodup)
    (hother : ∀ r c', c' ≠ c → (present' r c' ↔ present r c'))
    (hmem : ∀ x, x ∈ p'.entries ↔ present' x.objectId c ∧ x.payload = due x.objectId c) :
    g₀.Stocked depth due present' (g.setPool c p') := by
  have hcarries : g.Carries c := h.alike.carries.mpr hc
  have hsome : (g.pool? c).isSome := by rw [hp]; rfl
  refine ⟨h.alike.trans (.setPool ..), fun {c'} hc' => ?_, fun c' => ?_, fun {c' x} => ?_⟩
  · rw [pool?_setPool p' hcarries hsome]
    split
    · obtain ⟨q, hq, hcap', hclosed'⟩ := h.pool hc
      obtain rfl := Option.some.inj (hp.symm.trans hq)
      exact ⟨p', rfl, hcap.trans hcap', hclosed.trans hclosed'⟩
    · exact h.pool hc'
  · rw [tagsAt, entriesAt_setPool p' hcarries hsome]
    split
    · exact hnodup
    · exact h.nodup c'
  · rw [entriesAt_setPool p' hcarries hsome]
    split
    · next he =>
      subst he
      rw [hmem, and_iff_right hc]
    · next hne => rw [h.mem_iff, hother _ _ hne]

/-! ### Taking entries -/

/-- What is present can be taken, and is gone then. -/
theorem take (h : g₀.Stocked depth due present g) (hc : g₀.Carries c) (hp : present run c) :
    ∃ p', g.entryOf? c run = some (due run c, p') ∧
      g₀.Stocked depth due (fun r c' => present r c' ∧ ¬ (r = run ∧ c' = c)) (g.setPool c p') := by
  obtain ⟨p, hpool, -⟩ := h.pool hc
  have hentries := entriesAt_of_pool hpool
  have hnodup : p.tags.Nodup := tagsAt_of_pool hpool ▸ h.nodup c
  have hmem : ∀ x, x ∈ p.entries ↔ present x.objectId c ∧ x.payload = due x.objectId c := by
    intro x
    rw [← hentries, h.mem_iff, and_iff_right hc]
  have hrun : run ∈ p.tags := Pool.mem_tags.mpr ⟨due run c, (hmem _).mpr ⟨hp, rfl⟩⟩
  obtain ⟨x, p', htake⟩ := Pool.takeTagged_isSome hrun
  have hgives := Pool.takeTagged_eq_some hnodup htake
  have hx : x.payload = due run c := ((hmem _).mp hgives.mem).2
  refine ⟨p', ?_, h.setPool hc hpool hgives.capacity hgives.isClosed (hgives.tags.nodup hnodup)
    (fun r c' hne => and_iff_left fun he => hne he.2) fun y => ?_⟩
  · rw [entryOf?, hpool, Option.bind_some, htake, ← hx]
  · rw [hgives.mem_iff, hmem, and_right_comm]
    exact and_congr_left fun _ => and_congr_right fun _ => not_congr (and_iff_left rfl).symm

theorem takeInputs (h : g₀.Stocked depth due present g) {cs : List Channel} (hnd : cs.Nodup)
    (hcs : ∀ c ∈ cs, g₀.Carries c ∧ present run c) (taken : List (Entry α)) :
    ∃ g', g.takeInputs run taken cs =
        (.ok (taken ++ cs.flatMap fun c => c.inputs (due run c)), g') ∧
      g₀.Stocked depth due (fun r c => present r c ∧ ¬ (r = run ∧ c ∈ cs)) g' := by
  induction cs generalizing g present taken with
  | nil =>
    refine ⟨g, by simp [Graph.takeInputs], h.of_iff fun r c _ => ?_⟩
    simp
  | cons c cs ih =>
    obtain ⟨hc, hnd⟩ := List.nodup_cons.mp hnd
    obtain ⟨hcarries, hp⟩ := hcs c (List.mem_cons_self ..)
    obtain ⟨p', hentry, htaken⟩ := h.take hcarries hp
    obtain ⟨g', htake, hg'⟩ := ih htaken hnd (fun c' hc' => by
      obtain ⟨hcarries', hp'⟩ := hcs c' (List.mem_cons_of_mem _ hc')
      exact ⟨hcarries', hp', fun he => hc (he.2 ▸ hc')⟩) (taken ++ c.inputs (due run c))
    refine ⟨g', ?_, hg'.of_iff fun r c' _ => ?_⟩
    · rw [Graph.takeInputs, hentry]
      simp only [htake, List.flatMap_cons, List.append_assoc]
    · simp only [List.mem_cons, and_assoc, ← not_or, ← and_or_left]

/-! ### Publishing entries -/

/-- There is room for what is not present. -/
theorem room (h : g₀.Stocked depth due present g)
    (hruns : ∀ r, present r c → r ∈ runs) (hle : runs.length ≤ depth) (hrun : run ∈ runs)
    (hp : ¬ present run c) : (g.entriesAt c).length < depth := by
  have htags : ∀ r ∈ g.tagsAt c, present r c := by
    intro r hr
    obtain ⟨e, he⟩ := mem_tagsAt.mp hr
    exact (h.mem_iff.mp he).2.1
  have hnd : (run :: g.tagsAt c).Nodup := List.nodup_cons.mpr ⟨fun hr => hp (htags _ hr), h.nodup c⟩
  have hsub : run :: g.tagsAt c ⊆ runs :=
    List.cons_subset.mpr ⟨hrun, fun r hr => hruns r (htags r hr)⟩
  have hlen := (List.subperm_of_subset hnd hsub).length_le
  rw [List.length_cons, tagsAt, List.length_map] at hlen
  exact Nat.lt_of_lt_of_le hlen hle

/-- What is due and not present can be published without waiting. -/
theorem push (h : g₀.Stocked depth due present g) (hc : g₀.Carries c)
    (hruns : ∀ r, present r c → r ∈ runs) (hle : runs.length ≤ depth) (hrun : run ∈ runs)
    (hp : ¬ present run c) : ∃ p p', g.pool? c = some p ∧ p.push ⟨run, due run c⟩ = some (.ok p') ∧
      g₀.Stocked depth due (fun r c' => present r c' ∨ r = run ∧ c' = c) (g.setPool c p') := by
  obtain ⟨p, hpool, hcap, hclosed⟩ := h.pool hc
  have hentries := entriesAt_of_pool hpool
  have hlt : p.entries.length < p.capacity := by
    rw [hcap, ← hentries]
    exact h.room hruns hle hrun hp
  have hnodup : p.tags.Nodup := tagsAt_of_pool hpool ▸ h.nodup c
  have hmem : ∀ x, x ∈ p.entries ↔ present x.objectId c ∧ x.payload = due x.objectId c := by
    intro x
    rw [← hentries, h.mem_iff, and_iff_right hc]
  obtain ⟨hstore, hcap', hclosed', -⟩ := p.store_spec ⟨run, due run c⟩ hlt
  refine ⟨p, _, hpool, (Pool.push_of_room _ hclosed hlt).1, h.setPool hc hpool hcap' hclosed' ?_
    (fun r c' hne => or_iff_left fun he => hne he.2) fun x => ?_⟩
  · rw [Pool.tags, hstore, List.map_append, List.map_singleton]
    refine List.nodup_append.mpr ⟨hnodup, List.nodup_singleton _, ?_⟩
    rintro r hr _ hr' rfl
    obtain rfl := List.mem_singleton.mp hr'
    obtain ⟨e, he⟩ := Pool.mem_tags.mp hr
    exact hp ((hmem _).mp he).1
  · rw [hstore, List.mem_append, hmem, List.mem_singleton]
    constructor
    · rintro (⟨hx, hdue⟩ | rfl)
      · exact ⟨.inl hx, hdue⟩
      · exact ⟨.inr ⟨rfl, rfl⟩, rfl⟩
    · rintro ⟨hx | ⟨rfl, -⟩, hdue⟩
      · exact .inl ⟨hx, hdue⟩
      · exact .inr (congrArg (Tagged.mk _) hdue)

theorem deliver (h : g₀.Stocked depth due present g) {cs : List Channel} (hnd : cs.Nodup)
    (hruns : ∀ r c, present r c → r ∈ runs) (hle : runs.length ≤ depth) (hrun : run ∈ runs)
    (hcs : ∀ c ∈ cs, g₀.Carries c ∧ ¬ present run c) :
    ∃ g', g.deliver run (cs.map fun c => (c, due run c)) = (g', []) ∧
      g₀.Stocked depth due (fun r c => present r c ∨ r = run ∧ c ∈ cs) g' := by
  induction cs generalizing g present with
  | nil =>
    refine ⟨g, rfl, h.of_iff fun r c _ => ?_⟩
    simp
  | cons c cs ih =>
    obtain ⟨hc, hnd⟩ := List.nodup_cons.mp hnd
    obtain ⟨hcarries, hp⟩ := hcs c (List.mem_cons_self ..)
    obtain ⟨p, p', hpool, hpush, hpushed⟩ := h.push hcarries (hruns · c) hle hrun hp
    have hruns' : ∀ r c', present r c' ∨ r = run ∧ c' = c → r ∈ runs := by
      rintro r c' (hr | ⟨rfl, -⟩)
      · exact hruns r c' hr
      · exact hrun
    obtain ⟨g', hdeliver, hg'⟩ := ih hpushed hnd hruns' fun c' hc' => by
      obtain ⟨hcarries', hp'⟩ := hcs c' (List.mem_cons_of_mem _ hc')
      refine ⟨hcarries', ?_⟩
      rintro (hr | ⟨-, rfl⟩)
      · exact hp' hr
      · exact hc hc'
    refine ⟨g', ?_, hg'.of_iff fun r c' _ => ?_⟩
    · simp only [List.map_cons, Graph.deliver, hpool, hpush, hdeliver]
    · simp only [List.mem_cons, or_assoc, ← and_or_left]

end Stocked

end Graph

end Dataflow
