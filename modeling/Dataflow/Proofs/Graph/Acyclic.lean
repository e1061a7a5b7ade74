import Mathlib.Logic.Relation
import Dataflow.Proofs.Graph.Linked

/-!
# No way back

One node leads to another if edges can be followed from the first to the second
(`Graph.Leads`), and a graph is acyclic if no node leads back to itself over at least one
edge. An edge is refused if its target leads to its source already, and any other edge
keeps a graph acyclic, `Graph.Acyclic.link`.

That rests on the search, which has to find every way: `Graph.reaches_iff`. A node that was
marked is not searched again, so what the search decides is not whether there is a way, but
whether there is one through nodes without a mark, `Graph.Open`. Marking a node loses none:
a way through it can be cut short to what follows its last visit.
-/

namespace Dataflow

namespace Graph

variable {α : Type} {g : Graph α}

/-- There is an edge from the one node to the other. -/
def Edge (g : Graph α) (u v : NodeId) : Prop :=
  v ∈ g.successors u

/-- Edges can be followed from the one node to the other. -/
def Leads (g : Graph α) : NodeId → NodeId → Prop :=
  Relation.ReflTransGen g.Edge

/-- No node leads back to itself. -/
def Acyclic (g : Graph α) : Prop :=
  ∀ v, ¬ Relation.TransGen g.Edge v v

/-! ### What the search decides -/

/-- There is a way to the target through nodes without a mark. -/
inductive Open (g : Graph α) (target : NodeId) (marked : Array Bool) : NodeId → Prop where
  | here : Open g target marked target
  | step {u v : NodeId} (hu : marked[u]? = some false) (hv : g.Edge u v)
      (h : Open g target marked v) : Open g target marked u

variable {target : NodeId} {marked : Array Bool}

/-- A way that avoids one more node is a way. -/
theorem Open.unmark {id u : NodeId} (h : g.Open target (marked.setIfInBounds id true) u) :
    g.Open target marked u := by
  induction h with
  | here => exact .here
  | @step u v hu hv _ ih =>
    refine .step ?_ hv ih
    rw [Array.getElem?_setIfInBounds] at hu
    split at hu
    · split at hu <;> cases hu
    · exact hu

/-- A way either avoids a node, or goes on from its last visit to it. -/
theorem Open.mark (id : NodeId) {u : NodeId} (h : g.Open target marked u) :
    g.Open target (marked.setIfInBounds id true) u ∨
      ∃ v, g.Edge id v ∧ g.Open target (marked.setIfInBounds id true) v := by
  induction h with
  | here => exact Or.inl .here
  | @step u v hu hv _ ih =>
    rcases ih with ih | ih
    · by_cases hid : id = u
      · exact Or.inr ⟨v, hid ▸ hv, ih⟩
      · exact Or.inl (.step (by rw [Array.getElem?_setIfInBounds_ne hid, hu]) hv ih)
    · exact Or.inr ih

/-- Nothing leads on from a node that has a mark, or is none. -/
theorem not_open {id : NodeId} (hne : id ≠ target) (hm : marked[id]? ≠ some false) :
    ¬ g.Open target marked id := by
  intro h
  cases h with
  | here => exact hne rfl
  | step hu => exact hm hu

/-- A node on the stack may be marked, if its successors take its place. -/
theorem exists_open_cons {id : NodeId} {stack next : List NodeId} (hne : id ≠ target)
    (hm : marked[id]? = some false) (hnext : ∀ v, v ∈ next ↔ g.Edge id v) :
    (∃ s ∈ next ++ stack, g.Open target (marked.setIfInBounds id true) s) ↔
      ∃ s ∈ id :: stack, g.Open target marked s := by
  have hshut : ¬ g.Open target (marked.setIfInBounds id true) id := by
    refine not_open hne ?_
    rw [Array.getElem?_setIfInBounds_self]
    split <;> simp
  constructor
  · rintro ⟨s, hs, hopen⟩
    rcases List.mem_append.mp hs with hs | hs
    · exact ⟨id, List.mem_cons_self .., .step hm ((hnext s).mp hs) hopen.unmark⟩
    · exact ⟨s, List.mem_cons_of_mem _ hs, hopen.unmark⟩
  · rintro ⟨s, hs, hopen⟩
    rcases hopen.mark id with hopen | ⟨v, hv, hopen⟩
    · rcases List.mem_cons.mp hs with rfl | hs
      · exact absurd hopen hshut
      · exact ⟨s, List.mem_append_right _ hs, hopen⟩
    · exact ⟨v, List.mem_append_left _ ((hnext v).mpr hv), hopen⟩

/-- **What the search decides.** -/
theorem search_iff (g : Graph α) (target : NodeId) (marked : Array Bool) (stack : List NodeId) :
    g.search target marked stack = true ↔ ∃ s ∈ stack, g.Open target marked s := by
  fun_induction search g target marked stack with
  | case1 => simp
  | case2 marked stack => exact iff_of_true rfl ⟨target, List.mem_cons_self .., .here⟩
  | case3 marked id stack hne hm ih =>
    exact ih.trans (exists_open_cons hne hm fun v => Iff.rfl)
  | case4 marked id stack hne hm ih =>
    rw [ih]
    -- the node on top was searched before, or is none
    simp [not_open hne hm]

/-- **One node is found to reach another exactly if it leads there.** -/
theorem reaches_iff (g : Graph α) (start target : NodeId) :
    g.reaches start target = true ↔ g.Leads start target := by
  rw [reaches_eq_search, search_iff]
  constructor
  · rintro ⟨s, hs, hopen⟩
    obtain rfl := List.mem_singleton.mp hs
    clear hs
    induction hopen with
    | here => exact .refl
    | step _ hv _ ih => exact .head hv ih
  · intro h
    refine ⟨start, List.mem_singleton_self _, ?_⟩
    induction h using Relation.ReflTransGen.head_induction_on with
    | refl => exact .here
    | head hv _ ih =>
      exact .step (by simp [lt_of_mem_successors hv]) hv ih

/-! ### What calls keep -/

theorem acyclic_empty : (empty : Graph α).Acyclic := by
  intro v h
  obtain ⟨u, -, hu⟩ := Relation.TransGen.tail'_iff.mp h
  exact absurd (lt_of_mem_successors hu) (by simp [empty])

/-- Only the lists of successors count. -/
theorem Acyclic.of_successors {g' : Graph α} (h : g.Acyclic)
    (hs : ∀ u, g'.successors u = g.successors u) : g'.Acyclic := by
  have hedge : g'.Edge = g.Edge := funext fun u => funext fun v => by rw [Edge, Edge, hs]
  intro v
  rw [hedge]
  exact h v

/-- A way over a new edge passes through its two ends. -/
theorem transGen_link {source target : NodeId} (hs : source < g.nodes.size) {u v : NodeId}
    (h : Relation.TransGen (g.link source target).Edge u v) :
    Relation.TransGen g.Edge u v ∨ g.Leads u source ∧ g.Leads target v := by
  have hedge : ∀ {u v}, (g.link source target).Edge u v →
      g.Edge u v ∨ u = source ∧ v = target := by
    intro u v huv
    rw [Edge, successors_link g source target u hs] at huv
    split at huv
    · next hu =>
      rcases List.mem_append.mp huv with huv | huv
      · exact Or.inl huv
      · exact Or.inr ⟨hu, List.mem_singleton.mp huv⟩
    · exact Or.inl huv
  induction h with
  | single huv =>
    rcases hedge huv with huv | ⟨rfl, rfl⟩
    · exact Or.inl (.single huv)
    · exact Or.inr ⟨.refl, .refl⟩
  | tail _ hvw ih =>
    rcases hedge hvw with hvw | ⟨rfl, rfl⟩
    · rcases ih with ih | ⟨hu, ht⟩
      · exact Or.inl (ih.tail hvw)
      · exact Or.inr ⟨hu, ht.tail hvw⟩
    · rcases ih with ih | ⟨hu, -⟩
      · exact Or.inr ⟨ih.to_reflTransGen, .refl⟩
      · exact Or.inr ⟨hu, .refl⟩

/-- **An edge whose target does not lead to its source** closes no cycle. -/
theorem Acyclic.link (h : g.Acyclic) {source target : NodeId} (hs : source < g.nodes.size)
    (hno : ¬ g.Leads target source) : (g.link source target).Acyclic := by
  intro v hv
  rcases transGen_link hs hv with hv | ⟨hvs, htv⟩
  · exact h v hv
  · exact hno (htv.trans hvs)

/-- A call for an edge either is refused, or adds an edge that closes no cycle. -/
theorem precede_cases (g : Graph α) (source target : NodeId) :
    (∃ e, g.precede source target = (.error e, g)) ∨
      g.plan = none ∧ source < g.nodes.size ∧ target < g.nodes.size ∧ ¬ g.Leads target source ∧
        target ∉ g.successors source ∧ g.precede source target = (.ok (), g.link source target) := by
  unfold precede
  split
  · exact Or.inl ⟨_, rfl⟩
  next hfrozen =>
  split
  · exact Or.inl ⟨_, rfl⟩
  next hs =>
  split
  · exact Or.inl ⟨_, rfl⟩
  next ht =>
  split
  · exact Or.inl ⟨_, rfl⟩
  next hcycle =>
  split
  · exact Or.inl ⟨_, rfl⟩
  next hnew =>
  right
  simp only [Bool.or_eq_true, decide_eq_true_eq, not_or, reaches_iff] at hcycle
  refine ⟨?_, Nat.not_le.mp hs, Nat.not_le.mp ht, hcycle.2, by simpa using hnew, rfl⟩
  simpa [isFrozen] using hfrozen

end Graph

end Dataflow
