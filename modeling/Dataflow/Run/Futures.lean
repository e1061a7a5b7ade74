import Dataflow.Run.Cell

/-!
# Futures

A scheduler keeps one completion cell for each run that it has accepted, in the order
of acceptance, and notes the wakers that were woken. A run that was accepted is
resolved once: by the thread that ends it, or when it is cancelled.
-/

namespace Dataflow

/-- The cells of all accepted runs, and the wakers that were woken, in order. -/
structure Futures (α : Type) where
  cells : Array (Cell α) := #[]
  woken : List WakerId := []

namespace Futures

variable {α : Type}

/-- The cell that the next run gets. -/
def nextCell (f : Futures α) : CellId := f.cells.size

/-- One more cell, for a run that is being accepted. -/
def extend (f : Futures α) : Futures α :=
  { f with cells := f.cells.push {} }

/-- The cell of a run. -/
def cell (f : Futures α) (id : CellId) : Cell α :=
  f.cells[id]?.getD {}

/-- Replaces the cell of a run. -/
def setCell (f : Futures α) (id : CellId) (c : Cell α) : Futures α :=
  { f with cells := f.cells.setIfInBounds id c }

/-- Resolves a cell and wakes its waker; none if it was resolved before. -/
def resolve (f : Futures α) (id : CellId) (outcome : RunOutcome α) : Option (Futures α) :=
  match f.cells[id]?.bind (·.resolve outcome) with
  | some (waker, c) => some { f.setCell id c with woken := f.woken ++ waker.toList }
  | none => none

/-- Resolves the cells of cancelled runs. -/
def cancel (f : Futures α) (ids : List CellId) : Futures α :=
  ids.foldl (fun f id => (f.resolve id (.error (.scheduling .cancelled))).getD f) f

/-- How often a waker was woken. -/
def wakes (f : Futures α) (waker : WakerId) : Nat :=
  f.woken.count waker

end Futures

end Dataflow
