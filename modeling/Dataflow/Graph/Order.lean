import Dataflow.Graph.Basic

/-!
# Topological order and levels

Nodes are placed one after another, the sources first in ascending order. A queue
holds the candidates: a placed node brings its successors onto it, each at most
once at a time. A candidate whose predecessors are all placed is placed in turn,
one level above the highest of them. Any other candidate is dropped; the last of
its predecessors to be placed will bring it back.

The sort gives up when as many candidates in a row were dropped as the queue held
when a node was last placed. The checks it makes on its own state have names in
`SortFault`; none of them fails on lists of neighbours that agree with each other.
-/

namespace Dataflow

/-- A check of the sort on its own state that fails. -/
inductive SortFault where
  /-- A candidate from the queue is not marked as waiting. -/
  | notWaiting
  /-- The last progress lies in the future. -/
  | progressAhead
  | roundOverflow
  | levelOverflow
  /-- A candidate was placed before, or is no node. -/
  | placedTwice
  /-- A node stands before one of its predecessors. -/
  | outOfOrder
deriving DecidableEq, Repr

/-- What the sort comes to. -/
inductive SortResult where
  | sorted (order : Array NodeId) (levels : Array (Option Nat))
  | cyclic
  | broken (fault : SortFault)
deriving DecidableEq, Repr

/-- The state of the sort: placed nodes in order, the level of each placed node,
the candidates, which nodes are candidates, how many candidates were taken, how
many when a node was last placed, and how many were left then. -/
structure Sorting where
  order : Array NodeId
  levels : Array (Option Nat)
  queue : List NodeId
  waiting : Array Bool
  round : Nat
  progress : Nat
  patience : Nat

/-- What the predecessors of a candidate say about its level. -/
inductive Standing where
  /-- Some predecessor is not placed yet. -/
  | early
  | overflow
  | level (n : Nat)

namespace Sorting

variable {α : Type}

/-- Puts the nodes on the queue that do not wait there yet. -/
def enqueue (s : Sorting) : List NodeId → Sorting
  | [] => s
  | id :: ids =>
    match s.waiting[id]? with
    | some false =>
      { s with queue := s.queue ++ [id], waiting := s.waiting.setIfInBounds id true }.enqueue ids
    | _ => s.enqueue ids

/-- The level above all of the given nodes and at least `least`. -/
def standing (levels : Array (Option Nat)) (least : Nat) : List NodeId → Standing
  | [] => .level least
  | id :: ids =>
    match levels[id]?.join with
    | none => .early
    | some n => if sizeLimit < n + 1 then .overflow else standing levels (max least (n + 1)) ids

/-- Whether every node of the list has its predecessors before it. -/
def inOrder (nodes : Array (Node α)) (seen : Array Bool) : List NodeId → Bool
  | [] => true
  | id :: ids =>
    (Node.predecessorsAt nodes id).all (fun p => seen[p]?.getD false) &&
      inOrder nodes (seen.setIfInBounds id true) ids

/-- The verdict once no candidate is left. -/
def finish (nodes : Array (Node α)) (s : Sorting) : SortResult :=
  if s.order.size ≠ nodes.size then .cyclic
  else if inOrder nodes (Array.replicate nodes.size false) s.order.toList then
    .sorted s.order s.levels
  else .broken .outOfOrder

/-- Places a node at a level and makes its successors candidates. -/
def place (s : Sorting) (id : NodeId) (level : Nat) (successors : List NodeId) : Sorting :=
  let s := { s with
    order := s.order.push id
    levels := s.levels.setIfInBounds id (some level) }.enqueue successors
  { s with progress := s.round, patience := s.queue.length }

theorem levels_enqueue (s : Sorting) (ids : List NodeId) : (s.enqueue ids).levels = s.levels := by
  induction ids generalizing s with
  | nil => rfl
  | cons id ids ih =>
    simp only [enqueue]
    split <;> rw [ih]

theorem levels_place (s : Sorting) (id : NodeId) (level : Nat) (successors : List NodeId) :
    (s.place id level successors).levels = s.levels.setIfInBounds id (some level) := by
  simp only [place, levels_enqueue]

theorem count_none_setIfInBounds {levels : Array (Option Nat)} {id n : Nat}
    (h : levels[id]? = some none) :
    (levels.setIfInBounds id (some n)).count none < levels.count none := by
  obtain ⟨hlt, hget⟩ := Array.getElem?_eq_some_iff.mp h
  have hpos : 0 < levels.count none :=
    Array.count_pos_iff.mpr (hget ▸ Array.getElem_mem hlt)
  rw [Array.setIfInBounds_def, dif_pos hlt, Array.count_set, hget]
  show levels.count none - 1 + 0 < levels.count none
  omega

/-- Takes candidates off the queue until none is left or the sort gives up. -/
def run (nodes : Array (Node α)) (s : Sorting) : SortResult :=
  match s.queue with
  | [] => s.finish nodes
  | id :: queue =>
    if s.waiting[id]? ≠ some true then .broken .notWaiting
    else if s.round < s.progress then .broken .progressAhead
    else if _h : s.patience ≤ s.round - s.progress then .cyclic
    else if wordLimit ≤ s.round + 1 then .broken .roundOverflow
    else
      match standing s.levels 1 (Node.predecessorsAt nodes id) with
      | .early =>
        run nodes { s with
          queue, waiting := s.waiting.setIfInBounds id false, round := s.round + 1 }
      | .overflow => .broken .levelOverflow
      | .level n =>
        match _hl : s.levels[id]? with
        | some none =>
          run nodes ({ s with
            queue, waiting := s.waiting.setIfInBounds id false, round := s.round + 1 }.place
            id n (Node.successorsAt nodes id))
        | _ => .broken .placedTwice
termination_by (s.levels.count none, s.patience - (s.round - s.progress))
decreasing_by
  · exact Prod.Lex.right _ (by omega)
  · apply Prod.Lex.left
    rw [levels_place]
    exact count_none_setIfInBounds _hl

/-- The start of the sort: the given sources are placed, their successors are
candidates. -/
def start (nodes : Array (Node α)) (sources : List NodeId) : Sorting :=
  let s : Sorting := {
    order := sources.toArray
    levels := sources.foldl (fun levels id => levels.setIfInBounds id (some 0))
      (Array.replicate nodes.size none)
    queue := []
    waiting := Array.replicate nodes.size false
    round := 0
    progress := 0
    patience := 0 }
  let s := s.enqueue (sources.flatMap (Node.successorsAt nodes))
  { s with patience := s.queue.length }

end Sorting

/-- Sorts nodes by their neighbour lists; each node gets as its level the length
of a longest path to it. -/
def sortNodes {α : Type} (nodes : Array (Node α)) : SortResult :=
  let sources := (List.range nodes.size).filter fun id => nodes[id]?.any (·.isSource)
  if sources.isEmpty && !nodes.isEmpty then .cyclic
  else (Sorting.start nodes sources).run nodes

end Dataflow
