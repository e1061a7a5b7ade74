import Dataflow.Panic

/-!
# Callbacks

A callback maps the list of its inputs to a computation. A computation passes a
number of barriers, each of which the surroundings may hold it at for as long as
they like, and then ends with a verdict: a value, an error, or a panic. So a
callback always comes to an end once it is let through, and what it comes to is
a function of its inputs.
-/

namespace Dataflow

/-- How a callback ends. -/
inductive Verdict (α : Type) where
  | value (x : α)
  | failure (report : String)
  | panic (p : Panic)
deriving DecidableEq, Repr

/-- A callback at work: it waits at a barrier and goes on, or it ends. -/
inductive Computation (α : Type) where
  | hold (barrier : String) (rest : Computation α)
  | done (v : Verdict α)

namespace Computation

variable {α : Type}

/-- How the computation ends when every barrier lets it through. -/
def verdict : Computation α → Verdict α
  | hold _ rest => rest.verdict
  | done v => v

/-- The barriers it passes, in order. -/
def barriers : Computation α → List String
  | hold b rest => b :: rest.barriers
  | done _ => []

end Computation

/-- A callback: what it does on each list of inputs, one for each predecessor in
the order of the edges. -/
abbrev Work (α : Type) : Type :=
  List α → Computation α

end Dataflow
