import Std.Data.HashMap

/-!
# Gates

A gate holds callbacks until it has been given permits. It counts who arrives, and
everyone who goes through uses up a permit.
-/

namespace Dataflow.Workload

/-- How many have arrived at a gate, and how many more may go through. -/
structure Gate where
  entered : Nat := 0
  permits : Nat := 0
deriving DecidableEq, Repr

/-- Gates by name; one that was never mentioned has neither visitors nor permits. -/
structure Gates where
  table : Std.HashMap String Gate := ∅

namespace Gates

/-- The gate with a name. -/
def find (g : Gates) (name : String) : Gate :=
  g.table.getD name {}

/-- Gives a gate more permits. -/
def grant (g : Gates) (name : String) (n : Nat) : Gates :=
  let gate := g.find name
  ⟨g.table.insert name { gate with permits := gate.permits + n }⟩

/-- Somebody arrives at a gate. -/
def arrive (g : Gates) (name : String) : Gates :=
  let gate := g.find name
  ⟨g.table.insert name { gate with entered := gate.entered + 1 }⟩

/-- Somebody goes through a gate; none if there is no permit. -/
def pass (g : Gates) (name : String) : Option Gates :=
  let gate := g.find name
  match gate.permits with
  | 0 => none
  | permits + 1 => some ⟨g.table.insert name { gate with permits }⟩

/-- The permits of all gates together. -/
def permits (g : Gates) : Nat :=
  g.table.fold (fun sum _ gate => sum + gate.permits) 0

end Gates

end Dataflow.Workload
