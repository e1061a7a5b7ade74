import Dataflow.Proofs.Graph.WellFormed

/-!
# Graphs that were only built

A graph is `Fresh` if it was built, by adding nodes and making edges, and nothing else has
been done with it. Whatever else has been done with another graph, there is a fresh one with
the same nodes and the same names (`Graph.Built.exists_fresh`): what `Graph.add` and
`Graph.precede` answer does not depend on more than that, as long as a graph is not frozen.
-/

namespace Dataflow

namespace Graph

variable {α : Type} {g g' : Graph α}

/-- **The graphs that were only built.** -/
inductive Fresh : Graph α → Prop where
  | empty : Fresh .empty
  | add {g : Graph α} (h : Fresh g) (name : String) (work : Option (Work α)) :
      Fresh (g.add name work).2
  | precede {g : Graph α} (h : Fresh g) (source target : NodeId) :
      Fresh (g.precede source target).2

/-- **What can become of a graph** at the hands of whoever has it. A call that is refused
leaves it alone. -/
inductive Becomes (g : Graph α) : Graph α → Prop where
  | same : Becomes g g
  | add {g' : Graph α} (h : Becomes g g') (name : String) (work : Option (Work α)) :
      Becomes g (g'.add name work).2
  | precede {g' : Graph α} (h : Becomes g g') (source target : NodeId) :
      Becomes g (g'.precede source target).2
  | freeze {g' : Graph α} (h : Becomes g g') (depth : Nat) : Becomes g (g'.freeze depth).2
  /-- Pools are filled, emptied and closed, and executions are counted, by hand. -/
  | use {g' : Graph α} (h : Becomes g g') {stations : Array (Station α)}
      (hs : stations.size = g'.stations.size) : Becomes g { g' with stations }

theorem Becomes.built (h : g.Becomes g') (hg : g.Built) : g'.Built := by
  induction h with
  | same => exact hg
  | add _ name work ih => exact ih.add name work
  | precede _ source target ih => exact ih.precede source target
  | freeze _ depth ih => exact ih.freeze depth
  | use _ hs ih => exact ih.use hs

theorem Fresh.built (h : g.Fresh) : g.Built := by
  induction h with
  | empty => exact .empty
  | add _ name work ih => exact ih.add name work
  | precede _ source target ih => exact ih.precede source target

/-- A fresh graph is not frozen, and no node has a pool or has counted anything. -/
theorem Fresh.untouched (h : g.Fresh) :
    g.plan = none ∧ g.stations = Array.replicate g.nodes.size {} := by
  induction h with
  | empty => exact ⟨rfl, rfl⟩
  | @add g _ name work ih =>
    rcases g.add_cases name work with ⟨e, he⟩ | ⟨-, -, -, he⟩
    · rw [he]
      exact ih
    · rw [he]
      refine ⟨ih.1, ?_⟩
      show g.stations.push {} = Array.replicate (g.nodes.push { name, work }).size {}
      rw [ih.2, Array.size_push, Array.replicate_succ]
  | @precede g _ source target ih =>
    rcases g.precede_cases source target with ⟨e, he⟩ | ⟨-, -, -, -, -, he⟩
    · rw [he]
      exact ih
    · rw [he]
      refine ⟨ih.1, ?_⟩
      show g.stations = Array.replicate (g.link source target).nodes.size {}
      rw [ih.2]
      simp [link]

/-- A new edge that closes no cycle is made. -/
theorem precede_of_new {source target : NodeId} (hp : g.plan = none)
    (hs : source < g.nodes.size) (ht : target < g.nodes.size) (hno : ¬ g.Leads target source)
    (hnew : target ∉ g.successors source) :
    g.precede source target = (.ok (), g.link source target) := by
  rcases g.precede_cases source target with ⟨e, he⟩ | ⟨-, -, -, -, -, he⟩
  swap
  · exact he
  have hne : source ≠ target := fun heq => hno (heq ▸ .refl)
  have hreaches : g.reaches target source = false := by
    rw [← Bool.not_eq_true, reaches_iff]
    exact hno
  simp [precede, isFrozen, hp, Nat.not_le.mpr hs, Nat.not_le.mpr ht, hne, hreaches, hnew] at he

/-- **Every graph can be built anew.** -/
theorem Built.exists_fresh (h : g.Built) :
    ∃ g₀ : Graph α, g₀.Fresh ∧ g₀.nodes = g.nodes ∧ g₀.names = g.names := by
  induction h with
  | empty => exact ⟨.empty, .empty, rfl, rfl⟩
  | @add g _ name work ih =>
    obtain ⟨g₀, h₀, hnodes, hnames⟩ := ih
    rcases g.add_cases name work with ⟨e, he⟩ | ⟨-, hnew, hsize, he⟩
    · rw [he]
      exact ⟨g₀, h₀, hnodes, hnames⟩
    · have hnew₀ : g₀.byName? name = none := by rw [byName?, hnames]; exact hnew
      have hsize₀ : g₀.nodes.size < sizeLimit := by rw [hnodes]; exact hsize
      have hok := add_of_new work h₀.untouched.1 hnew₀ (Nat.le_of_lt hsize₀)
      rw [if_neg (Nat.ne_of_lt hsize₀)] at hok
      rcases g₀.add_cases name work with ⟨e, he₀⟩ | ⟨-, -, -, he₀⟩
      · rw [he₀] at hok
        cases hok
      · refine ⟨_, h₀.add name work, ?_, ?_⟩ <;>
          simp only [he, he₀, extend, hnodes, hnames]
  | @precede g _ source target ih =>
    obtain ⟨g₀, h₀, hnodes, hnames⟩ := ih
    rcases g.precede_cases source target with ⟨e, he⟩ | ⟨-, hs, ht, hno, hnew, he⟩
    · rw [he]
      exact ⟨g₀, h₀, hnodes, hnames⟩
    · have hsuccessors : g₀.successors = g.successors := by
        funext u
        simp only [successors, hnodes]
      have hedge : g₀.Edge = g.Edge := by
        funext u v
        simp only [Edge, hsuccessors]
      have hno₀ : ¬ g₀.Leads target source := by
        rw [Leads, hedge]
        exact hno
      have he₀ := precede_of_new h₀.untouched.1 (hnodes ▸ hs) (hnodes ▸ ht) hno₀
        (hsuccessors ▸ hnew)
      refine ⟨_, h₀.precede source target, ?_, ?_⟩ <;>
        simp only [he, he₀, link, hnodes, hnames]
  | freeze _ depth ih =>
    obtain ⟨g₀, h₀, hnodes, hnames⟩ := ih
    refine ⟨g₀, h₀, hnodes.trans (nodes_freeze ..).symm, hnames.trans ?_⟩
    rcases freeze_cases _ depth with ⟨e, he⟩ | ⟨order, levels, -, -, -, he⟩ <;> rw [he]
    rfl
  | thaw _ ih => exact ih
  | use _ _ ih => exact ih

end Graph

end Dataflow
