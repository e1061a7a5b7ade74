/-!
# Identifiers

A node is named by its position in the graph that holds it, a run by the
position of its submission among the accepted ones. Both are natural numbers;
the text of a node puts a hash mark before the number.
-/

namespace Dataflow

/-- Position of a node in its graph. -/
abbrev NodeId := Nat

/-- Tag of a run, carried by every payload that belongs to it. -/
abbrev ObjectId := Nat

/-- Position of a status slot in the table of runs in flight. -/
abbrev SlotId := Nat

/-- Position of a completion cell in the scheduler that made it. -/
abbrev CellId := Nat

/-- How a node is written in messages. -/
def NodeId.text (id : NodeId) : String :=
  "#" ++ toString id

/-- The given nodes in ascending order, each once. -/
def NodeId.distinct (ids : List NodeId) : List NodeId :=
  (ids.mergeSort (· ≤ ·)).eraseReps

end Dataflow
