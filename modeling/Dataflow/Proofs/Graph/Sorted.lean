import Mathlib.Data.List.Perm.Subperm
import Mathlib.Data.List.Range
import Dataflow.Proofs.Graph.Linked

/-!
# What a frozen graph knows

Freezing sorts the nodes. The sort places a node only while it has no level, so no node
is placed twice, and it compares the order with the edges before it answers; hence the
order of a frozen graph lists every node once, `Graph.Frozen.order_perm`, each after its
predecessors, `Graph.Frozen.before`. How the levels are found plays no part in it.

Both inductions over a frozen graph follow: from the predecessors of a node to the node,
and from its successors to the node.
-/

namespace Dataflow

/-! ### The order that the sort answers with -/

namespace Sorting

variable {α : Type}

/-- The placed nodes are known, are listed once, and have a level. -/
structure Placed (nodes : Array (Node α)) (s : Sorting) : Prop where
  size_levels : s.levels.size = nodes.size
  nodup : s.order.toList.Nodup
  level : ∀ id ∈ s.order.toList, ∃ n, s.levels[id]? = some (some n)

theorem Placed.lt_size {nodes : Array (Node α)} {s : Sorting} (h : s.Placed nodes) {id : NodeId}
    (hid : id ∈ s.order.toList) : id < nodes.size := by
  obtain ⟨n, hn⟩ := h.level id hid
  rw [← h.size_levels]
  exact (Array.getElem?_eq_some_iff.mp hn).1

theorem order_enqueue (s : Sorting) (ids : List NodeId) : (s.enqueue ids).order = s.order := by
  induction ids generalizing s with
  | nil => rfl
  | cons id ids ih =>
    simp only [enqueue]
    split <;> rw [ih]

/-- A node that has no level yet may be placed. -/
theorem Placed.place {nodes : Array (Node α)} {s : Sorting} (h : s.Placed nodes) {id : NodeId}
    (hid : s.levels[id]? = some none) (level : Nat) (successors : List NodeId) :
    (s.place id level successors).Placed nodes := by
  have ho : (s.place id level successors).order = s.order.push id := by
    simp only [Sorting.place, order_enqueue]
  have hl := levels_place s id level successors
  have hlt : id < s.levels.size := (Array.getElem?_eq_some_iff.mp hid).1
  have hnew : id ∉ s.order.toList := by
    intro hmem
    obtain ⟨n, hn⟩ := h.level id hmem
    simp [hid] at hn
  constructor
  · rw [hl, Array.size_setIfInBounds, h.size_levels]
  · rw [ho, Array.toList_push]
    refine List.nodup_append.mpr ⟨h.nodup, List.nodup_singleton _, ?_⟩
    intro u hu v hv huv
    rw [List.mem_singleton.mp hv] at huv
    exact hnew (huv ▸ hu)
  · intro u hu
    rw [ho, Array.toList_push, List.mem_append, List.mem_singleton] at hu
    rw [hl, Array.getElem?_setIfInBounds]
    by_cases huid : id = u
    · exact ⟨level, by rw [if_pos huid, if_pos (huid ▸ hlt)]⟩
    · rw [if_neg huid]
      rcases hu with hu | hu
      · exact h.level u hu
      · exact absurd hu.symm huid

/-- What the sort answers is the list of the placed nodes, and has passed the comparison
with the edges. -/
theorem Placed.of_run {nodes : Array (Node α)} {s : Sorting} (h : s.Placed nodes)
    {order : Array NodeId} {levels : Array (Option Nat)} (hr : s.run nodes = .sorted order levels) :
    order.toList.Nodup ∧ (∀ id ∈ order.toList, id < nodes.size) ∧ order.size = nodes.size ∧
      inOrder nodes (Array.replicate nodes.size false) order.toList = true := by
  fun_induction Sorting.run nodes s with
  | case1 s hq =>
    unfold finish at hr
    split at hr
    · simp at hr
    · next hsize =>
      split at hr
      · next hin =>
        obtain ⟨rfl, rfl⟩ : s.order = order ∧ s.levels = levels := by simpa using hr
        exact ⟨h.nodup, fun id hid => h.lt_size hid, by simpa using hsize, hin⟩
      · simp at hr
  | case6 s id queue hq h1 h2 h3 h4 hs ih => exact ih ⟨h.size_levels, h.nodup, h.level⟩ hr
  | case8 s id queue hq h1 h2 h3 h4 n hs hl ih =>
    have hp : Placed nodes { s with
        queue, waiting := s.waiting.setIfInBounds id false, round := s.round + 1 } :=
      ⟨h.size_levels, h.nodup, h.level⟩
    exact ih (hp.place hl n _) hr
  | _ => simp at hr

theorem size_foldl_levels (sources : List NodeId) (levels : Array (Option Nat)) :
    (sources.foldl (fun levels id => levels.setIfInBounds id (some 0)) levels).size =
      levels.size := by
  induction sources generalizing levels with
  | nil => rfl
  | cons id sources ih => rw [List.foldl_cons, ih, Array.size_setIfInBounds]

/-- Giving levels to some nodes takes none away. -/
theorem getElem?_foldl_levels {sources : List NodeId} {levels : Array (Option Nat)} {id : NodeId}
    (hid : id < levels.size) (h : id ∈ sources ∨ ∃ n, levels[id]? = some (some n)) :
    ∃ n, (sources.foldl (fun levels id => levels.setIfInBounds id (some 0)) levels)[id]? =
      some (some n) := by
  induction sources generalizing levels with
  | nil => exact h.resolve_left List.not_mem_nil
  | cons u sources ih =>
    rw [List.foldl_cons]
    refine ih (by rwa [Array.size_setIfInBounds]) ?_
    rw [Array.getElem?_setIfInBounds]
    by_cases hu : u = id
    · exact Or.inr ⟨0, by rw [if_pos hu, if_pos (hu ▸ hid)]⟩
    · rw [if_neg hu]
      rcases h with h | h
      · exact Or.inl ((List.mem_cons.mp h).resolve_left fun e => hu e.symm)
      · exact Or.inr h

theorem placed_start (nodes : Array (Node α)) {sources : List NodeId} (hn : sources.Nodup)
    (hlt : ∀ id ∈ sources, id < nodes.size) : (start nodes sources).Placed nodes := by
  have ho : (start nodes sources).order = sources.toArray := by simp only [start, order_enqueue]
  have hl : (start nodes sources).levels =
      sources.foldl (fun levels id => levels.setIfInBounds id (some 0))
        (Array.replicate nodes.size none) := by
    simp only [start, levels_enqueue]
  constructor
  · rw [hl, size_foldl_levels, Array.size_replicate]
  · rw [ho]
    exact hn
  · intro id hid
    rw [ho] at hid
    rw [hl]
    exact getElem?_foldl_levels (by rw [Array.size_replicate]; exact hlt id hid) (Or.inl hid)

/-- A list that passes the comparison has every node after its predecessors. -/
theorem mem_of_inOrder {nodes : Array (Node α)} {seen : Array Bool} {l r : List NodeId}
    {v u : NodeId} (h : inOrder nodes seen (l ++ v :: r) = true)
    (hu : u ∈ Node.predecessorsAt nodes v) : u ∈ l ∨ seen[u]? = some true := by
  induction l generalizing seen with
  | nil =>
    simp only [List.nil_append, inOrder, Bool.and_eq_true, List.all_eq_true] at h
    refine Or.inr ?_
    have := h.1 u hu
    cases hs : seen[u]? with
    | none => simp [hs] at this
    | some b => simpa [hs] using this
  | cons w l ih =>
    simp only [List.cons_append, inOrder, Bool.and_eq_true] at h
    rcases ih h.2 with hul | hus
    · exact Or.inl (List.mem_cons_of_mem _ hul)
    · by_cases huw : w = u
      · exact Or.inl (huw ▸ List.mem_cons_self ..)
      · rw [Array.getElem?_setIfInBounds, if_neg huw] at hus
        exact Or.inr hus

end Sorting

/-- **The sort lists every node once, after its predecessors.** -/
theorem sortNodes_spec {α : Type} {nodes : Array (Node α)} {order : Array NodeId}
    {levels : Array (Option Nat)} (h : sortNodes nodes = .sorted order levels) :
    order.toList.Perm (List.range nodes.size) ∧
      ∀ l v r, order.toList = l ++ v :: r → ∀ u ∈ Node.predecessorsAt nodes v, u ∈ l := by
  unfold sortNodes at h
  simp only at h
  split at h
  · simp at h
  · obtain ⟨hn, hlt, hsize, hin⟩ := (Sorting.placed_start nodes (List.nodup_range.filter _)
      fun id hid => List.mem_range.mp (List.mem_filter.mp hid).1).of_run h
    constructor
    · refine (List.subperm_of_subset hn fun id hid => ?_).perm_of_length_le ?_
      · exact List.mem_range.mpr (hlt id hid)
      · simp [hsize]
    · intro l v r he u hu
      rw [he] at hin
      rcases Sorting.mem_of_inOrder hin hu with hul | hus
      · exact hul
      · rw [Array.getElem?_replicate] at hus
        split at hus <;> simp at hus

namespace Graph

variable {α : Type}

/-! ### Frozen graphs -/

/-- A frozen graph lists its sources and its sinks, and orders its nodes along the
edges. -/
structure Frozen (g : Graph α) : Prop where
  linked : g.Linked
  isFrozen : g.isFrozen = true
  sources_eq : g.sources = g.collect (·.isSource)
  sinks_eq : g.sinks = g.collect (·.isSink)
  order_perm : g.order.toList.Perm (List.range g.nodes.size)
  before : ∀ {l r : List NodeId} {v : NodeId}, g.order.toList = l ++ v :: r →
    ∀ u ∈ g.predecessors v, u ∈ l

/-- What freezing comes to, if it succeeds. -/
theorem freeze_eq_ok {g g' : Graph α} {depth : Nat} (h : g.freeze depth = (.ok (), g')) :
    0 < depth ∧ 0 < g.nodes.size ∧ ∃ order levels, sortNodes g.nodes = .sorted order levels ∧
      g' = g.prepare depth order levels := by
  unfold freeze at h
  split at h
  · simp at h
  · next hd =>
    split at h
    · simp at h
    · next hne =>
      split at h
      · simp at h
      · split at h
        · next order levels hs =>
          refine ⟨Nat.pos_of_ne_zero fun hz => hd ?_, ?_, order, levels, hs, ?_⟩
          · simp [hz]
          · refine Nat.pos_of_ne_zero fun hz => hne ?_
            simpa [Array.isEmpty_iff_size_eq_zero] using hz
          · simpa using h.symm
        · simp at h

/-- **Freezing gives a frozen graph.** -/
theorem Linked.frozen {g g' : Graph α} (hg : g.Linked) {depth : Nat}
    (h : g.freeze depth = (.ok (), g')) : g'.Frozen := by
  obtain ⟨-, -, order, levels, hs, rfl⟩ := freeze_eq_ok h
  obtain ⟨hp, hb⟩ := sortNodes_spec hs
  constructor
  · exact hg.of_nodes rfl (by simp [prepare, hg.size_stations])
  · rfl
  · rfl
  · rfl
  · exact hp
  · intro l r v he u hu
    exact hb l v r he u hu

theorem mem_collect {g : Graph α} {test : Node α → Bool} {v : NodeId} :
    v ∈ g.collect test ↔ ∃ n, g.nodes[v]? = some n ∧ test n = true := by
  unfold collect
  rw [List.mem_filter, List.mem_range]
  constructor
  · rintro ⟨hv, ht⟩
    exact ⟨g.nodes[v], Array.getElem?_eq_getElem hv, by
      simpa [Array.getElem?_eq_getElem hv] using ht⟩
  · rintro ⟨n, hn, ht⟩
    exact ⟨(Array.getElem?_eq_some_iff.mp hn).1, by simpa [hn] using ht⟩

theorem nodup_collect (g : Graph α) (test : Node α → Bool) : (g.collect test).Nodup :=
  List.nodup_range.filter _

theorem node_of_lt {g : Graph α} {v : NodeId} (h : v < g.nodes.size) :
    ∃ n, g.nodes[v]? = some n :=
  ⟨g.nodes[v], Array.getElem?_eq_getElem h⟩

theorem predecessors_of_node {g : Graph α} {v : NodeId} {n : Node α} (h : g.nodes[v]? = some n) :
    g.predecessors v = n.predecessors := by
  simp [predecessors, Node.predecessorsAt, h]

theorem successors_of_node {g : Graph α} {v : NodeId} {n : Node α} (h : g.nodes[v]? = some n) :
    g.successors v = n.successors := by
  simp [successors, Node.successorsAt, h]

namespace Frozen

variable {g : Graph α}

theorem mem_sources (h : g.Frozen) {v : NodeId} :
    v ∈ g.sources ↔ v < g.nodes.size ∧ g.predecessors v = [] := by
  rw [h.sources_eq, mem_collect]
  constructor
  · rintro ⟨n, hn, ht⟩
    refine ⟨(Array.getElem?_eq_some_iff.mp hn).1, ?_⟩
    rw [predecessors_of_node hn]
    exact List.isEmpty_iff.mp ht
  · rintro ⟨hv, hp⟩
    obtain ⟨n, hn⟩ := node_of_lt hv
    rw [predecessors_of_node hn] at hp
    exact ⟨n, hn, by simp [Node.isSource, hp]⟩

theorem mem_sinks (h : g.Frozen) {v : NodeId} :
    v ∈ g.sinks ↔ v < g.nodes.size ∧ g.successors v = [] := by
  rw [h.sinks_eq, mem_collect]
  constructor
  · rintro ⟨n, hn, ht⟩
    refine ⟨(Array.getElem?_eq_some_iff.mp hn).1, ?_⟩
    rw [successors_of_node hn]
    exact List.isEmpty_iff.mp ht
  · rintro ⟨hv, hp⟩
    obtain ⟨n, hn⟩ := node_of_lt hv
    rw [successors_of_node hn] at hp
    exact ⟨n, hn, by simp [Node.isSink, hp]⟩

theorem nodup_sources (h : g.Frozen) : g.sources.Nodup :=
  h.sources_eq ▸ nodup_collect ..

theorem nodup_sinks (h : g.Frozen) : g.sinks.Nodup :=
  h.sinks_eq ▸ nodup_collect ..

theorem mem_order (h : g.Frozen) {v : NodeId} : v ∈ g.order.toList ↔ v < g.nodes.size := by
  rw [h.order_perm.mem_iff, List.mem_range]

theorem nodup_order (h : g.Frozen) : g.order.toList.Nodup :=
  h.order_perm.nodup_iff.mpr List.nodup_range

/-- **Induction along the edges**: what passes from all predecessors of a node to the
node holds of every node. -/
theorem forward_induction (h : g.Frozen) {P : NodeId → Prop}
    (step : ∀ v, v < g.nodes.size → (∀ u ∈ g.predecessors v, P u) → P v) {v : NodeId}
    (hv : v < g.nodes.size) : P v := by
  have key : ∀ l r, g.order.toList = l ++ r → ∀ u ∈ l, P u := by
    intro l
    induction l using List.reverseRecOn with
    | nil => simp
    | append_singleton l w ih =>
      intro r he u hu
      have he' : g.order.toList = l ++ w :: r := by simpa using he
      have hl := ih _ he'
      rcases List.mem_append.mp hu with hu | hu
      · exact hl u hu
      · obtain rfl := List.mem_singleton.mp hu
        refine step u (h.mem_order.mp (by simp [he'])) fun p hp => hl p ?_
        exact h.before he' p hp
  exact key g.order.toList [] (by simp) v (h.mem_order.mpr hv)

/-- **Induction against the edges.** -/
theorem backward_induction (h : g.Frozen) {P : NodeId → Prop}
    (step : ∀ v, v < g.nodes.size → (∀ w ∈ g.successors v, P w) → P v) {v : NodeId}
    (hv : v < g.nodes.size) : P v := by
  have key : ∀ r l, g.order.toList = l ++ r → ∀ u ∈ r, P u := by
    intro r
    induction r with
    | nil => simp
    | cons v r ih =>
      intro l he u hu
      have hr := ih (l ++ [v]) (by simpa using he)
      rcases List.mem_cons.mp hu with rfl | hu
      · refine step u (h.mem_order.mp (by simp [he])) fun w hw => ?_
        have hwu : u ∈ g.predecessors w := h.linked.mem_predecessors.mpr hw
        have hnd : (l ++ u :: r).Nodup := he ▸ h.nodup_order
        have hul : u ∉ l := fun hl => (List.nodup_append.mp hnd).2.2 u hl u (by simp) rfl
        have hwo : w ∈ l ++ u :: r := he ▸ h.mem_order.mpr (h.linked.target_lt hw)
        -- a successor that the order lists no later would have `u` before it
        rcases List.mem_append.mp hwo with hwl | hwr
        · obtain ⟨l₁, l₂, rfl⟩ := List.append_of_mem hwl
          have hul₁ := h.before (l := l₁) (r := l₂ ++ u :: r) (by simpa using he) u hwu
          exact absurd (List.mem_append_left _ hul₁) hul
        · rcases List.mem_cons.mp hwr with rfl | hwr
          · exact absurd (h.before he w hwu) hul
          · exact hr w hwr
      · exact hr u hu
  exact key g.order.toList [] (by simp) v (h.mem_order.mpr hv)

end Frozen

end Graph

end Dataflow
