import Mathlib
import Dataflow.Proofs.Graph.Sorted

/-!
# The sort places all that can be placed

A candidate that comes too early is dropped, and nobody keeps it in mind. It comes back
because the last of its predecessors to be placed brings it: at any time every node that is
not placed, but could be, is on the queue (`Sorting.Live.ready`). So when the queue is empty,
every node that was left out has a predecessor that was left out, too, and as there are only
finitely many nodes, edges lead around in a cycle (`Node.exists_cycle`).

No candidate is put back when it is dropped. Hence as many are dropped in a row as the queue
held when a node was last placed only when the queue is empty, `Sorting.Live.patience`, and
the sort never gives up in the middle. None of its checks fails either, because a node that
is placed has all its predecessors before it, and so nobody brings it a second time.

What the sort comes to is `sortNodes_arranges`: a cycle is reported if there is one, and
otherwise the answer is an order along the edges with the lengths of the longest ways
(`Node.Arranged`).
-/

namespace Dataflow

variable {α : Type}

namespace Node

variable {nodes : Array (Node α)}

/-- **The two lists of neighbours mirror each other**, and name nobody twice. -/
structure Mirrored (nodes : Array (Node α)) : Prop where
  mem_predecessors : ∀ {u v : NodeId}, u ∈ predecessorsAt nodes v ↔ v ∈ successorsAt nodes u
  nodup_predecessors : ∀ v, (predecessorsAt nodes v).Nodup
  nodup_successors : ∀ u, (successorsAt nodes u).Nodup

/-- There is an edge from the one node to the other. -/
def Edge (nodes : Array (Node α)) (u v : NodeId) : Prop :=
  v ∈ successorsAt nodes u

/-- **A way** that leads along so many edges from the one node to the other. -/
inductive Way (nodes : Array (Node α)) (s : NodeId) : Nat → NodeId → Prop where
  | here : Way nodes s 0 s
  | step {n : Nat} {u v : NodeId} (h : Way nodes s n u) (hv : Edge nodes u v) :
      Way nodes s (n + 1) v

/-- The nodes without predecessors, in ascending order. -/
def sources (nodes : Array (Node α)) : List NodeId :=
  (List.range nodes.size).filter fun id => nodes[id]?.any (·.isSource)

/-- **The nodes in an order along the edges**, the sources first, and for each of them the
length of a longest way that leads to it from a source. -/
structure Arranged (nodes : Array (Node α)) (order : Array NodeId)
    (levels : Array (Option Nat)) : Prop where
  perm : order.toList.Perm (List.range nodes.size)
  before : ∀ {u v}, Edge nodes u v → order.toList.idxOf u < order.toList.idxOf v
  front : sources nodes <+: order.toList
  size_levels : levels.size = nodes.size
  level : ∀ v < nodes.size, ∃ n, levels[v]? = some (some n) ∧
    IsGreatest {k | ∃ s ∈ sources nodes, Way nodes s k v} n

theorem mem_sources {v : NodeId} :
    v ∈ sources nodes ↔ v < nodes.size ∧ predecessorsAt nodes v = [] := by
  unfold sources
  rw [List.mem_filter, List.mem_range]
  refine and_congr_right fun hv => ?_
  simp [predecessorsAt, hv, isSource]

theorem nodup_sources (nodes : Array (Node α)) : (sources nodes).Nodup :=
  List.nodup_range.filter _

namespace Mirrored

variable {u v : NodeId}

theorem edge_iff (h : Mirrored nodes) : Edge nodes u v ↔ u ∈ predecessorsAt nodes v :=
  h.mem_predecessors.symm

theorem source_lt (_h : Mirrored nodes) (hv : Edge nodes u v) : u < nodes.size :=
  Graph.lt_of_mem_successors (g := { nodes }) hv

theorem target_lt (h : Mirrored nodes) (hv : Edge nodes u v) : v < nodes.size :=
  Graph.lt_of_mem_predecessors (g := { nodes }) (h.edge_iff.mp hv)

theorem predecessor_lt (h : Mirrored nodes) (hu : u ∈ predecessorsAt nodes v) :
    u < nodes.size :=
  h.source_lt (h.edge_iff.mpr hu)

/-- A node has no more successors than there are nodes. -/
theorem length_successors_le (h : Mirrored nodes) (u : NodeId) :
    (successorsAt nodes u).length ≤ nodes.size := by
  have hsub : successorsAt nodes u ⊆ List.range nodes.size :=
    fun v hv => List.mem_range.mpr (h.target_lt hv)
  simpa using (List.subperm_of_subset (h.nodup_successors u) hsub).length_le

end Mirrored

/-- Whether the lists mirror each other is seen at the nodes there are. -/
theorem mirrored_iff : Mirrored nodes ↔ ∀ v < nodes.size,
    (∀ u ∈ predecessorsAt nodes v, v ∈ successorsAt nodes u) ∧
    (∀ w ∈ successorsAt nodes v, v ∈ predecessorsAt nodes w) ∧
    (predecessorsAt nodes v).Nodup ∧ (successorsAt nodes v).Nodup := by
  refine ⟨fun h v _ => ⟨fun u hu => h.mem_predecessors.mp hu, fun w hw => h.mem_predecessors.mpr hw,
    h.nodup_predecessors v, h.nodup_successors v⟩, fun h => ?_⟩
  have hout : ∀ v, ¬ v < nodes.size → predecessorsAt nodes v = [] ∧ successorsAt nodes v = [] := by
    intro v hv
    simp [predecessorsAt, successorsAt, Array.getElem?_eq_none (Nat.not_lt.mp hv)]
  refine ⟨fun {u v} => ⟨fun hu => ?_, fun hv => ?_⟩, fun v => ?_, fun v => ?_⟩
  · exact (h v (Graph.lt_of_mem_predecessors (g := { nodes }) hu)).1 u hu
  · exact (h u (Graph.lt_of_mem_successors (g := { nodes }) hv)).2.1 v hv
  · by_cases hv : v < nodes.size
    · exact (h v hv).2.2.1
    · exact (hout v hv).1 ▸ List.nodup_nil
  · by_cases hv : v < nodes.size
    · exact (h v hv).2.2.2
    · exact (hout v hv).2 ▸ List.nodup_nil

instance (nodes : Array (Node α)) : Decidable (Mirrored nodes) :=
  decidable_of_iff _ mirrored_iff.symm

/-- **Nodes that have a predecessor among themselves** are on a cycle, or below one. -/
theorem exists_cycle (h : Mirrored nodes) {P : NodeId → Prop} (hsome : ∃ v < nodes.size, P v)
    (hback : ∀ v < nodes.size, P v → ∃ u ∈ predecessorsAt nodes v, P u) :
    ∃ v, Relation.TransGen (Edge nodes) v v := by
  by_contra hno
  have hacyclic : ∀ v, ¬ Relation.TransGen (Edge nodes) v v := fun v hv => hno ⟨v, hv⟩
  let above : Fin nodes.size → Fin nodes.size → Prop := fun u v =>
    Relation.TransGen (Edge nodes) u v
  have : IsTrans (Fin nodes.size) above := ⟨fun _ _ _ h₁ h₂ => Relation.TransGen.trans h₁ h₂⟩
  have : Std.Irrefl above := ⟨fun v => hacyclic v⟩
  have hwf : WellFounded above := Finite.wellFounded_of_trans_of_irrefl above
  obtain ⟨v, hv, hp⟩ := hsome
  -- the first of them would have one before it
  obtain ⟨w, hw, hfirst⟩ := hwf.has_min {x | P x.val} ⟨⟨v, hv⟩, hp⟩
  obtain ⟨u, hu, hpu⟩ := hback w w.isLt hw
  exact hfirst ⟨u, h.predecessor_lt hu⟩ hpu (.single (h.edge_iff.mpr hu))

/-- An order along the edges leaves no room for a cycle. -/
theorem Arranged.acyclic {order : Array NodeId} {levels : Array (Option Nat)}
    (h : Arranged nodes order levels) (v : NodeId) : ¬ Relation.TransGen (Edge nodes) v v := by
  have hrank : ∀ {u w}, Relation.TransGen (Edge nodes) u w →
      order.toList.idxOf u < order.toList.idxOf w := by
    intro u w huw
    induction huw with
    | single he => exact h.before he
    | tail _ he ih => exact ih.trans (h.before he)
  exact fun hv => Nat.lt_irrefl _ (hrank hv)

end Node

open Node

namespace Sorting

variable {nodes : Array (Node α)} {s : Sorting} {id : NodeId} {queue : List NodeId}

/-! ### The queue -/

/-- Whoever is on the queue is marked as waiting, and is there once. -/
structure Agrees (s : Sorting) : Prop where
  nodup : s.queue.Nodup
  mem_iff : ∀ {id}, id ∈ s.queue ↔ s.waiting[id]? = some true

/-- Nothing but the queue is changed by new candidates. -/
theorem enqueue_eq (s : Sorting) (ids : List NodeId) : s.enqueue ids =
    { s with queue := (s.enqueue ids).queue, waiting := (s.enqueue ids).waiting } := by
  induction ids generalizing s with
  | nil => rfl
  | cons id ids ih =>
    simp only [enqueue]
    split <;> exact ih _

theorem size_waiting_enqueue (s : Sorting) (ids : List NodeId) :
    (s.enqueue ids).waiting.size = s.waiting.size := by
  induction ids generalizing s with
  | nil => rfl
  | cons id ids ih =>
    simp only [enqueue]
    split
    · rw [ih, Array.size_setIfInBounds]
    · exact ih _

theorem length_enqueue_le (s : Sorting) (ids : List NodeId) :
    (s.enqueue ids).queue.length ≤ s.queue.length + ids.length := by
  induction ids generalizing s with
  | nil => exact Nat.le_refl _
  | cons id ids ih =>
    simp only [enqueue, List.length_cons]
    split
    · refine (ih _).trans ?_
      simp only [List.length_append, List.length_singleton]
      omega
    · exact (ih _).trans (by omega)

/-- A node that does not wait yet is put on the queue. -/
theorem Agrees.enter (h : s.Agrees) (hw : s.waiting[id]? = some false) :
    ({ s with queue := s.queue ++ [id], waiting := s.waiting.setIfInBounds id true } :
      Sorting).Agrees := by
  have hlt : id < s.waiting.size := (Array.getElem?_eq_some_iff.mp hw).1
  have hnew : id ∉ s.queue := by
    rw [h.mem_iff, hw]
    simp
  constructor
  · refine List.nodup_append.mpr ⟨h.nodup, List.nodup_singleton _, ?_⟩
    rintro u hu v hv rfl
    exact hnew (List.mem_singleton.mp hv ▸ hu)
  · intro v
    rw [List.mem_append, List.mem_singleton, h.mem_iff, Array.getElem?_setIfInBounds]
    by_cases hv : id = v
    · simp [← hv, hlt]
    · simp [hv, Ne.symm hv]

/-- **New candidates** join those that wait. -/
theorem Agrees.enqueue (h : s.Agrees) (ids : List NodeId) : (s.enqueue ids).Agrees ∧
    ∀ v, v ∈ (s.enqueue ids).queue ↔ v ∈ s.queue ∨ v ∈ ids ∧ v < s.waiting.size := by
  induction ids generalizing s with
  | nil => exact ⟨h, fun v => by simp [Sorting.enqueue]⟩
  | cons id ids ih =>
    simp only [Sorting.enqueue]
    split
    · next hw =>
      have hlt : id < s.waiting.size := (Array.getElem?_eq_some_iff.mp hw).1
      obtain ⟨hagrees, hmem⟩ := ih (h.enter hw)
      refine ⟨hagrees, fun v => ?_⟩
      rw [hmem, Array.size_setIfInBounds, List.mem_append, List.mem_singleton, List.mem_cons]
      constructor
      · rintro ((hv | rfl) | ⟨hv, hlt'⟩)
        · exact Or.inl hv
        · exact Or.inr ⟨Or.inl rfl, hlt⟩
        · exact Or.inr ⟨Or.inr hv, hlt'⟩
      · rintro (hv | ⟨rfl | hv, hlt'⟩)
        · exact Or.inl (Or.inl hv)
        · exact Or.inl (Or.inr rfl)
        · exact Or.inr ⟨hv, hlt'⟩
    · next hw =>
      -- the node waits already, or is none
      obtain ⟨hagrees, hmem⟩ := ih h
      refine ⟨hagrees, fun v => ?_⟩
      rw [hmem, List.mem_cons]
      refine or_congr_right' fun hv => and_congr_left fun hlt => (or_iff_right ?_).symm
      rintro rfl
      rw [h.mem_iff, Array.getElem?_eq_getElem hlt] at hv
      rw [Array.getElem?_eq_getElem hlt] at hw
      cases hb : s.waiting[v] <;> simp_all

/-- A candidate is taken off the queue. -/
def pop (s : Sorting) (id : NodeId) (queue : List NodeId) : Sorting :=
  { s with queue, waiting := s.waiting.setIfInBounds id false, round := s.round + 1 }

theorem Agrees.pop (h : s.Agrees) (hq : s.queue = id :: queue) : (s.pop id queue).Agrees := by
  have hn := h.nodup
  rw [hq, List.nodup_cons] at hn
  have hlt : id < s.waiting.size :=
    (Array.getElem?_eq_some_iff.mp (h.mem_iff.mp (hq ▸ List.mem_cons_self ..))).1
  constructor
  · exact hn.2
  · intro v
    show v ∈ queue ↔ (s.waiting.setIfInBounds id false)[v]? = some true
    rw [Array.getElem?_setIfInBounds]
    by_cases hv : id = v
    · simp [← hv, hlt, hn.1]
    · rw [if_neg hv, ← h.mem_iff, hq, List.mem_cons, or_iff_right (Ne.symm hv)]

/-! ### Placing a node -/

theorem toList_order_place (s : Sorting) (id n : Nat) (ids : List NodeId) :
    (s.place id n ids).order.toList = s.order.toList ++ [id] := by
  simp only [place, order_enqueue, Array.toList_push]

theorem round_place (s : Sorting) (id n : Nat) (ids : List NodeId) :
    (s.place id n ids).round = s.round := by
  rw [place, enqueue_eq]

theorem progress_place (s : Sorting) (id n : Nat) (ids : List NodeId) :
    (s.place id n ids).progress = s.round := by
  rw [place, enqueue_eq]

/-- Its successors become candidates. -/
theorem Agrees.place (h : s.Agrees) (id n : Nat) (ids : List NodeId) :
    (s.place id n ids).Agrees ∧
      ∀ v, v ∈ (s.place id n ids).queue ↔ v ∈ s.queue ∨ v ∈ ids ∧ v < s.waiting.size := by
  have hput : ({ s with
      order := s.order.push id
      levels := s.levels.setIfInBounds id (some n) } : Sorting).Agrees := ⟨h.nodup, h.mem_iff⟩
  obtain ⟨hagrees, hmem⟩ := hput.enqueue ids
  exact ⟨⟨hagrees.nodup, hagrees.mem_iff⟩, hmem⟩

/-- Nobody else gets a level. -/
theorem level_place {n m : Nat} {v : NodeId} {ids : List NodeId}
    (hv : (s.place id n ids).levels[v]? = some (some m)) :
    v = id ∧ m = n ∨ s.levels[v]? = some (some m) := by
  rw [levels_place, Array.getElem?_setIfInBounds] at hv
  by_cases hid : id = v
  · rw [if_pos hid] at hv
    split at hv
    · exact Or.inl ⟨hid.symm, (Option.some.inj (Option.some.inj hv)).symm⟩
    · cases hv
  · rw [if_neg hid] at hv
    exact Or.inr hv

/-! ### Levels -/

/-- **The rule of levels**: a node is above all its predecessors, and no higher than it has
to be. -/
def Rises (nodes : Array (Node α)) (levels : Array (Option Nat)) (v : NodeId) (n : Nat) : Prop :=
  (∀ u ∈ predecessorsAt nodes v, ∃ m, levels[u]? = some (some m) ∧ m < n) ∧
    ∀ k, n = k + 1 → ∃ u ∈ predecessorsAt nodes v, levels[u]? = some (some k)

/-- Giving a level to a node that has none leaves the other levels alone. -/
theorem Rises.set {levels : Array (Option Nat)} {v : NodeId} {n m : Nat}
    (h : Rises nodes levels v n) (hid : levels[id]? = some none) :
    Rises nodes (levels.setIfInBounds id (some m)) v n := by
  have hkeep : ∀ {u : NodeId} {k : Nat}, levels[u]? = some (some k) →
      (levels.setIfInBounds id (some m))[u]? = some (some k) := by
    intro u k hu
    rw [Array.getElem?_setIfInBounds_ne, hu]
    rintro rfl
    rw [hid] at hu
    cases hu
  constructor
  · intro u hu
    obtain ⟨k, hk, hlt⟩ := h.1 u hu
    exact ⟨k, hkeep hk, hlt⟩
  · intro k hk
    obtain ⟨u, hu, hlevel⟩ := h.2 k hk
    exact ⟨u, hu, hkeep hlevel⟩

/-- What the levels of some nodes say about a node above them. -/
theorem standing_level {levels : Array (Option Nat)} {least n : Nat} {ids : List NodeId}
    (h : standing levels least ids = .level n) :
    least ≤ n ∧ (∀ u ∈ ids, ∃ m, levels[u]? = some (some m) ∧ m < n) ∧
      (n = least ∨ ∃ u ∈ ids, ∃ m, levels[u]? = some (some m) ∧ n = m + 1) := by
  induction ids generalizing least with
  | nil =>
    obtain rfl : least = n := by simpa [standing] using h
    exact ⟨Nat.le_refl _, by simp, Or.inl rfl⟩
  | cons id ids ih =>
    unfold standing at h
    split at h
    · cases h
    next m hm =>
    split at h
    · cases h
    obtain ⟨hle, hall, hcase⟩ := ih h
    have hid : levels[id]? = some (some m) := Option.join_eq_some_iff.mp hm
    refine ⟨by omega, ?_, ?_⟩
    · intro u hu
      rcases List.mem_cons.mp hu with rfl | hu
      · exact ⟨m, hid, by omega⟩
      · exact hall u hu
    · rcases hcase with rfl | ⟨u, hu, k, hk, rfl⟩
      · rcases Nat.le_total least (m + 1) with hlm | hml
        · exact Or.inr ⟨id, List.mem_cons_self .., m, hid, Nat.max_eq_right hlm⟩
        · exact Or.inl (Nat.max_eq_left hml)
      · exact Or.inr ⟨u, List.mem_cons_of_mem _ hu, k, hk, rfl⟩

theorem standing_early {levels : Array (Option Nat)} {least : Nat} {ids : List NodeId}
    (h : standing levels least ids = .early) : ∃ u ∈ ids, ∀ n, levels[u]? ≠ some (some n) := by
  induction ids generalizing least with
  | nil => cases h
  | cons id ids ih =>
    unfold standing at h
    split at h
    · next hn =>
      refine ⟨id, List.mem_cons_self .., fun n hid => ?_⟩
      rw [hid] at hn
      cases hn
    · split at h
      · cases h
      · obtain ⟨u, hu, hnone⟩ := ih h
        exact ⟨u, List.mem_cons_of_mem _ hu, hnone⟩

theorem standing_overflow {levels : Array (Option Nat)} {least : Nat} {ids : List NodeId}
    (h : standing levels least ids = .overflow) :
    ∃ u ∈ ids, ∃ n, levels[u]? = some (some n) ∧ sizeLimit < n + 1 := by
  induction ids generalizing least with
  | nil => cases h
  | cons id ids ih =>
    unfold standing at h
    split at h
    · cases h
    next m hm =>
    split at h
    · next hlt => exact ⟨id, List.mem_cons_self .., m, Option.join_eq_some_iff.mp hm, hlt⟩
    · obtain ⟨u, hu, hrest⟩ := ih h
      exact ⟨u, List.mem_cons_of_mem _ hu, hrest⟩

/-- No way to a node is longer than its level. -/
theorem le_of_way (hm : Mirrored nodes) {levels : Array (Option Nat)}
    (hrises : ∀ {v n}, levels[v]? = some (some n) → Rises nodes levels v n) {u v : NodeId}
    {k n : Nat} (h : Way nodes u k v) (hn : levels[v]? = some (some n)) : k ≤ n := by
  induction h generalizing n with
  | here => exact Nat.zero_le n
  | step _ hv ih =>
    obtain ⟨m, hlevel, hlt⟩ := (hrises hn).1 _ (hm.edge_iff.mp hv)
    have := ih hlevel
    omega

/-- Some way to a node is as long as its level. -/
theorem exists_way (hm : Mirrored nodes) {levels : Array (Option Nat)}
    (hrises : ∀ {v n}, levels[v]? = some (some n) → Rises nodes levels v n)
    (hsize : levels.size = nodes.size) {v : NodeId} {n : Nat}
    (hn : levels[v]? = some (some n)) : ∃ u ∈ sources nodes, Way nodes u n v := by
  induction n generalizing v with
  | zero =>
    have hlt : v < nodes.size := hsize ▸ (Array.getElem?_eq_some_iff.mp hn).1
    refine ⟨v, mem_sources.mpr ⟨hlt, List.eq_nil_iff_forall_not_mem.mpr fun u hu => ?_⟩, .here⟩
    obtain ⟨m, -, hm⟩ := (hrises hn).1 u hu
    exact absurd hm (Nat.not_lt_zero m)
  | succ n ih =>
    obtain ⟨u, hu, hlevel⟩ := (hrises hn).2 n rfl
    obtain ⟨w, hw, hway⟩ := ih hlevel
    exact ⟨w, hw, hway.step (hm.edge_iff.mpr hu)⟩

/-! ### What is true of the sort in progress -/

/-- **What was done was right**: placed nodes have their levels, and follow their
predecessors; whoever is on the queue is not placed, and nobody is brought onto it more often
than there are edges that lead to it from placed nodes. -/
structure Sound (nodes : Array (Node α)) (s : Sorting) : Prop extends s.Placed nodes where
  agrees : s.Agrees
  size_waiting : s.waiting.size = nodes.size
  placed : ∀ {id n : Nat}, s.levels[id]? = some (some n) → id ∈ s.order.toList
  front : sources nodes <+: s.order.toList
  before : ∀ {l r v}, s.order.toList = l ++ v :: r → ∀ u ∈ predecessorsAt nodes v, u ∈ l
  unplaced : ∀ {id}, id ∈ s.queue → id ∉ s.order.toList
  brought : ∀ {id}, id ∈ s.queue → predecessorsAt nodes id ≠ []
  rises : ∀ {v n : Nat}, s.levels[v]? = some (some n) → Rises nodes s.levels v n
  low : ∀ {v n : Nat}, s.levels[v]? = some (some n) → n < s.order.size
  work : s.round + s.queue.length ≤
    (s.order.toList.map fun u => (successorsAt nodes u).length).sum

/-- **Nothing was forgotten**: every node that could be placed is on the queue, which loses a
candidate with every round since a node was last placed. -/
structure Live (nodes : Array (Node α)) (s : Sorting) : Prop extends s.Sound nodes where
  ready : ∀ {v : NodeId}, v < nodes.size → v ∉ s.order.toList →
    (∀ u ∈ predecessorsAt nodes v, u ∈ s.order.toList) → v ∈ s.queue
  progress_le : s.progress ≤ s.round
  patience : s.queue.length + (s.round - s.progress) = s.patience

namespace Sound

/-- All predecessors of a placed node are placed. -/
theorem mem_of_predecessor (h : s.Sound nodes) {u v : NodeId} (hv : v ∈ s.order.toList)
    (hu : u ∈ predecessorsAt nodes v) : u ∈ s.order.toList := by
  obtain ⟨l, r, he⟩ := List.append_of_mem hv
  exact he ▸ List.mem_append_left _ (h.before he u hu)

theorem level_of_not_placed (h : s.Sound nodes) (hlt : id < nodes.size)
    (hid : id ∉ s.order.toList) : s.levels[id]? = some none := by
  have hlt' : id < s.levels.size := h.size_levels.symm ▸ hlt
  rw [Array.getElem?_eq_getElem hlt']
  cases hl : s.levels[id] with
  | none => rfl
  | some n => exact absurd (h.placed (Array.getElem?_eq_some_iff.mpr ⟨hlt', hl⟩)) hid

theorem lt_of_mem_queue (h : s.Sound nodes) (hid : id ∈ s.queue) : id < nodes.size :=
  h.size_waiting ▸ (Array.getElem?_eq_some_iff.mp (h.agrees.mem_iff.mp hid)).1

theorem size_order_le (h : s.Sound nodes) : s.order.size ≤ nodes.size := by
  have hsub : s.order.toList ⊆ List.range nodes.size :=
    fun v hv => List.mem_range.mpr (h.lt_size hv)
  simpa using (List.subperm_of_subset h.nodup hsub).length_le

/-- No more rounds are made than there are edges. -/
theorem round_lt (h : s.Sound nodes) (hm : Mirrored nodes) (hs : nodes.size ≤ sizeLimit)
    (hq : s.queue = id :: queue) : s.round + 1 < wordLimit := by
  have hedges : (s.order.toList.map fun u => (successorsAt nodes u).length).sum ≤
      s.order.toList.length • nodes.size := by
    refine (List.sum_le_card_nsmul _ nodes.size fun k hk => ?_).trans_eq
      (by rw [List.length_map])
    obtain ⟨u, -, rfl⟩ := List.mem_map.mp hk
    exact hm.length_successors_le u
  have hlength : s.order.toList.length ≤ nodes.size := h.size_order_le
  have hwork := h.work
  rw [hq, List.length_cons] at hwork
  have hsquare : s.order.toList.length • nodes.size ≤ sizeLimit * sizeLimit :=
    Nat.mul_le_mul (hlength.trans hs) hs
  have hword : sizeLimit * sizeLimit < wordLimit := by decide
  omega

/-- A candidate may be taken off the queue. -/
theorem pop (h : s.Sound nodes) (hq : s.queue = id :: queue) : (s.pop id queue).Sound nodes where
  toPlaced := ⟨h.size_levels, h.nodup, h.level⟩
  agrees := h.agrees.pop hq
  size_waiting := by
    show (s.waiting.setIfInBounds id false).size = _
    rw [Array.size_setIfInBounds, h.size_waiting]
  placed := h.placed
  front := h.front
  before := h.before
  unplaced := fun hv => h.unplaced (hq ▸ List.mem_cons_of_mem _ hv)
  brought := fun hv => h.brought (hq ▸ List.mem_cons_of_mem _ hv)
  rises := h.rises
  low := h.low
  work := by
    have hwork := h.work
    rw [hq, List.length_cons] at hwork
    show s.round + 1 + queue.length ≤ _
    exact (by omega : s.round + 1 + queue.length = s.round + (queue.length + 1)).trans_le hwork

/-- **A node may be placed** above its predecessors once they are placed. -/
theorem place (h : s.Sound nodes) (hm : Mirrored nodes) (hlt : id < nodes.size)
    (hid : id ∉ s.order.toList) (hq : id ∉ s.queue) {n : Nat} (hn : Rises nodes s.levels id n) :
    (s.place id n (successorsAt nodes id)).Sound nodes := by
  have hlevel := h.level_of_not_placed hlt hid
  have hpreds : ∀ u ∈ predecessorsAt nodes id, u ∈ s.order.toList := by
    intro u hu
    obtain ⟨m, hm, -⟩ := hn.1 u hu
    exact h.placed hm
  -- a successor of the node waits for it, so it is neither placed nor the node itself
  have hnew : ∀ {v}, v ∈ successorsAt nodes id → v ∉ s.order.toList ∧ v ≠ id := by
    intro v hv
    have hback : id ∈ predecessorsAt nodes v := hm.mem_predecessors.mpr hv
    exact ⟨fun hv' => hid (h.mem_of_predecessor hv' hback), fun he => hid (hpreds id (he ▸ hback))⟩
  obtain ⟨hagrees, hmem⟩ := h.agrees.place id n (successorsAt nodes id)
  have horder := toList_order_place s id n (successorsAt nodes id)
  exact {
    toPlaced := h.toPlaced.place hlevel n (successorsAt nodes id)
    agrees := hagrees
    size_waiting := (size_waiting_enqueue _ _).trans h.size_waiting
    placed := fun {v m} hv => by
      rw [horder, List.mem_append, List.mem_singleton]
      rcases level_place hv with ⟨rfl, -⟩ | hv
      · exact Or.inr rfl
      · exact Or.inl (h.placed hv)
    front := horder ▸ h.front.trans (List.prefix_append _ _)
    before := fun {l r v} he u hu => by
      rw [horder] at he
      rcases List.eq_nil_or_concat r with rfl | ⟨r, w, rfl⟩
      · obtain ⟨rfl, hv⟩ := List.append_inj' he rfl
        obtain rfl : id = v := by simpa using hv
        exact hpreds u hu
      · rw [List.concat_eq_append, ← List.cons_append, ← List.append_assoc] at he
        exact h.before (List.append_inj' he rfl).1 u hu
    unplaced := fun {v} hv => by
      rw [horder, List.mem_append, List.mem_singleton, not_or]
      rcases (hmem v).mp hv with hv | ⟨hv, -⟩
      · exact ⟨h.unplaced hv, fun he => hq (he ▸ hv)⟩
      · exact hnew hv
    brought := fun {v} hv => by
      rcases (hmem v).mp hv with hv | ⟨hv, -⟩
      · exact h.brought hv
      · exact List.ne_nil_of_mem (hm.mem_predecessors.mpr hv)
    rises := fun {v m} hv => by
      rw [levels_place]
      rcases level_place hv with ⟨rfl, rfl⟩ | hv
      · exact hn.set hlevel
      · exact (h.rises hv).set hlevel
    low := fun {v m} hv => by
      have hsize : (s.place id n (successorsAt nodes id)).order.size = s.order.size + 1 := by
        simpa using congrArg List.length horder
      rw [hsize]
      rcases level_place hv with ⟨-, rfl⟩ | hv
      · cases m with
        | zero => exact Nat.succ_pos _
        | succ m =>
          obtain ⟨u, -, hu⟩ := hn.2 m rfl
          exact Nat.succ_lt_succ (h.low hu)
      · exact Nat.lt_succ_of_lt (h.low hv)
    work := by
      rw [horder, round_place, List.map_append, List.sum_append, List.map_singleton,
        List.sum_singleton]
      have hqueue : (s.place id n (successorsAt nodes id)).queue.length ≤
          s.queue.length + (successorsAt nodes id).length := length_enqueue_le _ _
      have hwork := h.work
      omega }

end Sound

namespace Live

/-- **A candidate that comes too early** is dropped. -/
theorem drop (h : s.Live nodes) (hq : s.queue = id :: queue)
    (hearly : ∃ u ∈ predecessorsAt nodes id, ∀ n, s.levels[u]? ≠ some (some n)) :
    (s.pop id queue).Live nodes where
  toSound := h.toSound.pop hq
  ready := fun {v} hv hout hpreds => by
    have hmem := h.ready hv hout hpreds
    rw [hq, List.mem_cons] at hmem
    refine hmem.resolve_left ?_
    rintro rfl
    obtain ⟨u, hu, hnone⟩ := hearly
    obtain ⟨n, hn⟩ := h.level u (hpreds u hu)
    exact hnone n hn
  progress_le := Nat.le_succ_of_le h.progress_le
  patience := by
    have hp := h.patience
    have hle := h.progress_le
    rw [hq, List.length_cons] at hp
    show queue.length + (s.round + 1 - s.progress) = s.patience
    omega

/-- **A candidate whose predecessors are placed** is placed. -/
theorem place (h : s.Live nodes) (hm : Mirrored nodes) (hq : s.queue = id :: queue) {n : Nat}
    (hn : Rises nodes s.levels id n) :
    ((s.pop id queue).place id n (successorsAt nodes id)).Live nodes := by
  have hhead : id ∈ s.queue := hq ▸ List.mem_cons_self ..
  have hnodup := h.agrees.nodup
  rw [hq, List.nodup_cons] at hnodup
  have hpop := h.toSound.pop hq
  have hsound : ((s.pop id queue).place id n (successorsAt nodes id)).Sound nodes :=
    hpop.place hm (h.lt_of_mem_queue hhead) (h.unplaced hhead) hnodup.1 hn
  have horder : _ = s.order.toList ++ [id] :=
    toList_order_place (s.pop id queue) id n (successorsAt nodes id)
  have hmem := (hpop.agrees.place id n (successorsAt nodes id)).2
  refine ⟨hsound, fun {v} hv hout hpreds => ?_, by rw [progress_place, round_place], ?_⟩
  · rw [horder] at hout hpreds
    rw [hmem, hpop.size_waiting]
    show v ∈ queue ∨ _
    by_cases hid : id ∈ predecessorsAt nodes v
    · exact Or.inr ⟨hm.mem_predecessors.mp hid, hv⟩
    · -- the node could be placed before
      have hold : v ∈ s.queue := h.ready hv (fun hv' => hout (List.mem_append_left _ hv'))
        fun u hu => by
          rcases List.mem_append.mp (hpreds u hu) with hu' | hu'
          · exact hu'
          · exact absurd (List.mem_singleton.mp hu' ▸ hu) hid
      rw [hq, List.mem_cons] at hold
      refine Or.inl (hold.resolve_left ?_)
      rintro rfl
      exact hout (List.mem_append_right _ (List.mem_singleton_self _))
  · rw [round_place, progress_place, Nat.sub_self, Nat.add_zero]
    rfl

/-- **The sort goes on until the queue is empty**, and no check fails on the way. -/
theorem run (h : s.Live nodes) (hm : Mirrored nodes) (hs : nodes.size ≤ sizeLimit) :
    ∃ s' : Sorting, s'.Live nodes ∧ s'.queue = [] ∧ s.run nodes = s'.finish nodes := by
  fun_induction Sorting.run nodes s with
  | case1 s hq => exact ⟨s, h, hq, rfl⟩
  | case2 s id queue hq hw => exact absurd (h.agrees.mem_iff.mp (hq ▸ List.mem_cons_self ..)) hw
  | case3 s id queue hq hw hahead => exact absurd h.progress_le (Nat.not_le.mpr hahead)
  | case4 s id queue hq hw hahead hgiveUp =>
    -- the queue has lost a candidate with every round, and is not empty yet
    have hp := h.patience
    rw [hq, List.length_cons] at hp
    omega
  | case5 s id queue hq hw hahead hgoesOn hover =>
    exact absurd (h.round_lt hm hs hq) (Nat.not_lt.mpr hover)
  | case6 s id queue hq hw hahead hgoesOn hround hearly ih =>
    exact ih (h.drop hq (standing_early hearly))
  | case7 s id queue hq hw hahead hgoesOn hround hover =>
    obtain ⟨u, -, n, hn, hlt⟩ := standing_overflow hover
    have hlow := h.low hn
    have hsize := h.size_order_le
    omega
  | case8 s id queue hq hw hahead hgoesOn hround n hn hnone ih =>
    obtain ⟨hpos, hall, hcase⟩ := standing_level hn
    refine ih (h.place hm hq ⟨hall, fun k hk => ?_⟩)
    rcases hcase with rfl | ⟨u, hu, m, hlevel, he⟩
    · -- some predecessor is a source, since none is higher
      obtain ⟨u, hu⟩ := List.exists_mem_of_ne_nil _ (h.brought (hq ▸ List.mem_cons_self ..))
      obtain ⟨m, hlevel, hlt⟩ := hall u hu
      obtain rfl : m = k := by omega
      exact ⟨u, hu, hlevel⟩
    · obtain rfl : m = k := by omega
      exact ⟨u, hu, hlevel⟩
  | case9 s id queue hq hw hahead hgoesOn hround n hn hsome =>
    have hhead : id ∈ s.queue := hq ▸ List.mem_cons_self ..
    exact absurd (h.level_of_not_placed (h.lt_of_mem_queue hhead) (h.unplaced hhead)) hsome

end Live

/-! ### The start and the end -/

/-- The sources have level zero from the start, and nobody else has a level. -/
theorem getElem?_start_levels {v : NodeId} (hv : v < nodes.size) (ids : List NodeId) :
    (start nodes ids).levels[v]? = some (if v ∈ ids then some 0 else none) := by
  have hfold : ∀ (ids : List NodeId) (levels : Array (Option Nat)), v < levels.size →
      (ids.foldl (fun levels id => levels.setIfInBounds id (some 0)) levels)[v]? =
        if v ∈ ids then some (some 0) else levels[v]? := by
    intro ids
    induction ids with
    | nil => exact fun levels _ => by simp
    | cons id ids ih =>
      intro levels hlt
      rw [List.foldl_cons, ih _ (by rwa [Array.size_setIfInBounds]),
        Array.getElem?_setIfInBounds]
      by_cases hid : id = v
      · simp [hid, hlt]
      · simp [hid, Ne.symm hid]
  simp only [start, levels_enqueue]
  rw [hfold ids _ (by rwa [Array.size_replicate]), Array.getElem?_replicate, if_pos hv]
  split <;> rfl

/-- The sources are placed, and nobody is a candidate. -/
def placeSources (nodes : Array (Node α)) : Sorting where
  order := (sources nodes).toArray
  levels := (sources nodes).foldl (fun levels id => levels.setIfInBounds id (some 0))
    (Array.replicate nodes.size none)
  queue := []
  waiting := Array.replicate nodes.size false
  round := 0
  progress := 0
  patience := 0

/-- Then their successors become candidates. -/
theorem start_eq (nodes : Array (Node α)) : start nodes (sources nodes) =
    { placeSources nodes with
      queue := (start nodes (sources nodes)).queue
      waiting := (start nodes (sources nodes)).waiting
      patience := (start nodes (sources nodes)).queue.length } := by
  rw [start, enqueue_eq]
  rfl

theorem agrees_start (hm : Mirrored nodes) : (start nodes (sources nodes)).Agrees ∧
    ∀ v, v ∈ (start nodes (sources nodes)).queue ↔
      ∃ u ∈ sources nodes, v ∈ successorsAt nodes u := by
  have hwaiting : (placeSources nodes).waiting = Array.replicate nodes.size false := rfl
  have hnone : (placeSources nodes).Agrees := by
    refine ⟨List.nodup_nil, fun {v} => ?_⟩
    rw [hwaiting, Array.getElem?_replicate]
    split <;> simp [placeSources]
  obtain ⟨hagrees, hmem⟩ := hnone.enqueue ((sources nodes).flatMap (successorsAt nodes))
  refine ⟨⟨hagrees.nodup, hagrees.mem_iff⟩, fun v => (hmem v).trans ?_⟩
  rw [hwaiting, Array.size_replicate, List.mem_flatMap]
  constructor
  · rintro (hv | ⟨hv, -⟩)
    · exact absurd hv List.not_mem_nil
    · exact hv
  · rintro ⟨u, hu, hv⟩
    exact Or.inr ⟨⟨u, hu, hv⟩, hm.target_lt hv⟩

theorem level_start {v n : Nat} (hv : (placeSources nodes).levels[v]? = some (some n)) :
    v ∈ sources nodes ∧ n = 0 := by
  have hsize : (placeSources nodes).levels.size = nodes.size :=
    (size_foldl_levels _ _).trans Array.size_replicate
  have hget := getElem?_start_levels (hsize ▸ (Array.getElem?_eq_some_iff.mp hv).1) (sources nodes)
  rw [start_eq, hv] at hget
  by_cases hsource : v ∈ sources nodes
  · rw [if_pos hsource] at hget
    exact ⟨hsource, Option.some.inj (Option.some.inj hget)⟩
  · rw [if_neg hsource] at hget
    cases hget

/-- **The sort starts with the sources** placed and their successors on the queue. -/
theorem live_start (hm : Mirrored nodes) : (start nodes (sources nodes)).Live nodes := by
  obtain ⟨hagrees, hqueue⟩ := agrees_start hm
  have hbrought : ∀ {v}, (∃ u ∈ sources nodes, v ∈ successorsAt nodes u) →
      predecessorsAt nodes v ≠ [] :=
    fun ⟨u, _, hv⟩ => List.ne_nil_of_mem (hm.mem_predecessors.mpr hv)
  have hplaced := placed_start nodes (nodup_sources nodes) fun id hid => (mem_sources.mp hid).1
  have hlength : (start nodes (sources nodes)).queue.length ≤
      0 + ((sources nodes).flatMap (successorsAt nodes)).length := length_enqueue_le _ _
  rw [List.length_flatMap, Nat.zero_add] at hlength
  rw [start_eq] at hplaced ⊢
  exact {
    toPlaced := hplaced
    agrees := ⟨hagrees.nodup, hagrees.mem_iff⟩
    size_waiting := (size_waiting_enqueue _ _).trans Array.size_replicate
    placed := fun hv => (level_start hv).1
    front := List.prefix_refl _
    before := fun {l r v} he u hu => by
      have hv : v ∈ sources nodes :=
        (show sources nodes = l ++ v :: r from he) ▸
          List.mem_append_right l (List.mem_cons_self ..)
      rw [(mem_sources.mp hv).2] at hu
      exact absurd hu List.not_mem_nil
    unplaced := fun hv hsource => hbrought ((hqueue _).mp hv) (mem_sources.mp hsource).2
    brought := fun hv => hbrought ((hqueue _).mp hv)
    rises := fun {v n} hv => by
      obtain ⟨hsource, rfl⟩ := level_start hv
      have hnil := (mem_sources.mp hsource).2
      exact ⟨fun u hu => absurd (hnil ▸ hu) List.not_mem_nil, fun k hk => absurd hk (by simp)⟩
    low := fun {v n} hv => by
      obtain ⟨hsource, rfl⟩ := level_start hv
      exact List.length_pos_of_mem hsource
    work := (Nat.zero_add _).trans_le hlength
    ready := fun {v} hv hout hpreds => by
      have hne : predecessorsAt nodes v ≠ [] := fun hnil => hout (mem_sources.mpr ⟨hv, hnil⟩)
      obtain ⟨u, hu⟩ := List.exists_mem_of_ne_nil _ hne
      exact (hqueue v).mpr ⟨u, hpreds u hu, hm.mem_predecessors.mp hu⟩
    progress_le := Nat.le_refl _
    patience := Nat.add_zero _ }

/-- A list in which every node follows its predecessors passes the comparison. -/
theorem inOrder_of_before {seen : Array Bool} {ids : List NodeId}
    (hlt : ∀ v ∈ ids, v < seen.size)
    (h : ∀ l v r, ids = l ++ v :: r →
      ∀ u ∈ predecessorsAt nodes v, u ∈ l ∨ seen[u]? = some true) :
    inOrder nodes seen ids = true := by
  induction ids generalizing seen with
  | nil => rfl
  | cons id ids ih =>
    rw [inOrder, Bool.and_eq_true, List.all_eq_true]
    constructor
    · intro u hu
      rw [(h [] id ids rfl u hu).resolve_left List.not_mem_nil]
      rfl
    · refine ih (fun v hv => ?_) fun l v r he u hu => ?_
      · rw [Array.size_setIfInBounds]
        exact hlt v (List.mem_cons_of_mem _ hv)
      · rw [Array.getElem?_setIfInBounds]
        by_cases hid : id = u
        · exact Or.inr (by rw [if_pos hid, if_pos (hlt id (List.mem_cons_self ..))])
        · rw [if_neg hid]
          refine (h (id :: l) v r (by rw [he]; rfl) u hu).imp_left fun hul => ?_
          exact (List.mem_cons.mp hul).resolve_left (Ne.symm hid)

/-- **If every node was placed**, the nodes are arranged. -/
theorem Sound.arranged (h : s.Sound nodes) (hm : Mirrored nodes)
    (hall : s.order.size = nodes.size) : Arranged nodes s.order s.levels := by
  have hperm : s.order.toList.Perm (List.range nodes.size) := by
    refine (List.subperm_of_subset h.nodup fun v hv => ?_).perm_of_length_le ?_
    · exact List.mem_range.mpr (h.lt_size hv)
    · rw [List.length_range, Array.length_toList, hall]
  refine ⟨hperm, fun {u v} huv => ?_, h.front, h.size_levels, fun v hv => ?_⟩
  · have hv : v ∈ s.order.toList := hperm.mem_iff.mpr (List.mem_range.mpr (hm.target_lt huv))
    obtain ⟨l, r, he⟩ := List.append_of_mem hv
    have hul : u ∈ l := h.before he u (hm.edge_iff.mp huv)
    have hvl : v ∉ l := by
      have hn := h.nodup
      rw [he, List.nodup_append] at hn
      exact fun hvl => hn.2.2 v hvl v (List.mem_cons_self ..) rfl
    rw [he, List.idxOf_append_of_mem hul, List.idxOf_append_of_notMem hvl]
    exact (List.idxOf_lt_length_of_mem hul).trans_le (Nat.le_add_right _ _)
  · obtain ⟨n, hn⟩ := h.level v (hperm.mem_iff.mpr (List.mem_range.mpr hv))
    refine ⟨n, hn, exists_way hm h.rises h.size_levels hn, ?_⟩
    rintro k ⟨u, -, hway⟩
    exact le_of_way hm h.rises hway hn

/-- **If a node was left out**, then because edges lead around in a cycle. -/
theorem Live.exists_cycle (h : s.Live nodes) (hm : Mirrored nodes) (hq : s.queue = [])
    (hall : s.order.size ≠ nodes.size) : ∃ v, Relation.TransGen (Edge nodes) v v := by
  refine Node.exists_cycle hm (P := fun v => v ∉ s.order.toList) ?_ fun v hv hout => ?_
  · by_contra hno
    push Not at hno
    have hsub : List.range nodes.size ⊆ s.order.toList :=
      fun v hv => hno v (List.mem_range.mp hv)
    have hle := (List.subperm_of_subset List.nodup_range hsub).length_le
    rw [List.length_range, Array.length_toList] at hle
    exact hall (Nat.le_antisymm h.size_order_le hle)
  · by_contra hno
    push Not at hno
    exact absurd (h.ready hv hout hno) (hq ▸ List.not_mem_nil)

theorem Live.finish (h : s.Live nodes) (hm : Mirrored nodes) (hq : s.queue = []) :
    s.finish nodes = .cyclic ∧ (∃ v, Relation.TransGen (Edge nodes) v v) ∨
      ∃ order levels, s.finish nodes = .sorted order levels ∧ Arranged nodes order levels := by
  unfold Sorting.finish
  split
  · next hall => exact Or.inl ⟨rfl, h.exists_cycle hm hq hall⟩
  · next hall =>
    have hin : inOrder nodes (Array.replicate nodes.size false) s.order.toList = true := by
      refine inOrder_of_before (fun v hv => ?_) fun l v r he u hu => Or.inl (h.before he u hu)
      rw [Array.size_replicate]
      exact h.lt_size hv
    rw [if_pos hin]
    exact Or.inr ⟨_, _, rfl, h.arranged hm (not_not.mp hall)⟩

end Sorting

/-- **What the sort comes to**: nodes that cannot be arranged are cyclic, and all others are
arranged. -/
theorem sortNodes_cases {nodes : Array (Node α)} (h : Mirrored nodes)
    (hs : nodes.size ≤ sizeLimit) :
    sortNodes nodes = .cyclic ∧ (∃ v, Relation.TransGen (Edge nodes) v v) ∨
      ∃ order levels, sortNodes nodes = .sorted order levels ∧ Arranged nodes order levels := by
  have hsort : sortNodes nodes = if (sources nodes).isEmpty && !nodes.isEmpty then .cyclic
      else (Sorting.start nodes (sources nodes)).run nodes := rfl
  rw [hsort]
  split
  · next hno =>
    rw [Bool.and_eq_true, List.isEmpty_iff, Bool.not_eq_true', Array.isEmpty_eq_false_iff] at hno
    obtain ⟨hsources, hne⟩ := hno
    refine Or.inl ⟨rfl, exists_cycle h (P := fun _ => True) ?_ fun v hv _ => ?_⟩
    · exact ⟨0, Array.size_pos_iff.mpr hne, trivial⟩
    · by_contra hnone
      push Not at hnone
      have hv' : v ∈ sources nodes :=
        mem_sources.mpr ⟨hv, List.eq_nil_iff_forall_not_mem.mpr hnone⟩
      exact absurd (hsources ▸ hv') List.not_mem_nil
  · obtain ⟨s', hs', hq, he⟩ := (Sorting.live_start h).run h hs
    rw [he]
    exact hs'.finish h hq

/-- **The sort is right about every list of nodes** whose neighbour lists mirror each other:
none of its checks fails, it reports a cycle if and only if there is one, and otherwise lists
the nodes along the edges, the sources first, with the length of a longest way from a source
as the level of a node. -/
theorem sortNodes_arranges {nodes : Array (Node α)} (h : Mirrored nodes)
    (hs : nodes.size ≤ sizeLimit) :
    (∀ fault, sortNodes nodes ≠ .broken fault) ∧
      (sortNodes nodes = .cyclic ↔ ∃ v, Relation.TransGen (Edge nodes) v v) ∧
      ∀ order levels, sortNodes nodes = .sorted order levels → Arranged nodes order levels := by
  rcases sortNodes_cases h hs with ⟨he, hcycle⟩ | ⟨order, levels, he, harranged⟩
  · rw [he]
    exact ⟨fun fault => by simp, iff_of_true rfl hcycle, fun order levels hl => by simp at hl⟩
  · rw [he]
    refine ⟨fun fault => by simp, iff_of_false (by simp) ?_, fun order' levels' hl => ?_⟩
    · rintro ⟨v, hv⟩
      exact harranged.acyclic v hv
    · obtain ⟨rfl, rfl⟩ : order = order' ∧ levels = levels' := by simpa using hl
      exact harranged

/-- A node that leads to another one directly and by way of a third, which the sort looks at
too early at first. -/
def Node.shortcut : Array (Node Unit) := #[
  { name := "start", work := none, successors := [2, 1] },
  { name := "detour", work := none, predecessors := [0], successors := [2] },
  { name := "end", work := none, predecessors := [0, 1] }]

/-- Two nodes that lead to each other, below a source. -/
def Node.roundabout : Array (Node Unit) := #[
  { name := "entry", work := none, successors := [1] },
  { name := "near", work := none, predecessors := [0, 2], successors := [2] },
  { name := "far", work := none, predecessors := [1], successors := [1] }]

/-- The shortcut does not spoil the level of the node it leads to, and nodes around which one
can go are reported. -/
theorem sortNodes_arranges_shortcut :
    Arranged shortcut #[0, 1, 2] #[some 0, some 1, some 2] ∧
      sortNodes roundabout = .cyclic := by
  constructor
  · exact (sortNodes_arranges (by decide) (by decide)).2.2 _ _ (by cbv)
  · have hthere : Edge roundabout 1 2 := (by decide : 2 ∈ successorsAt roundabout 1)
    have hback : Edge roundabout 2 1 := (by decide : 1 ∈ successorsAt roundabout 2)
    exact (sortNodes_arranges (by decide) (by decide)).2.1.mpr ⟨1, .tail (.single hthere) hback⟩

end Dataflow
