import Dataflow.Snapshot.Basic

/-!
# Profiles

A profiler samples a source of snapshots at intervals. It holds on to the source
only while it takes a sample; at the first interval after which the source is gone,
or when it is stopped, it ends. A mode says which views are kept in a sample.

A sample can be reported as a list of events, one for each node, one for each run
and one for the sample itself.
-/

namespace Dataflow

/-- Which views a profiler keeps. -/
structure ProfileMode where
  nodes : Bool := true
  runs : Bool := true
deriving DecidableEq, Repr

/-- Durations of callback calls in nanoseconds. -/
structure Timing where
  count : Nat
  shortest : Nat
  longest : Nat
  total : Nat
deriving DecidableEq, Repr

/-- The mean duration rounded down, zero if there were no calls. -/
def Timing.mean (t : Timing) : Nat := t.total / t.count

/-- Drops the views that the mode leaves out. -/
def Snapshot.restrict {τ : Type} (s : Snapshot τ) (mode : ProfileMode) : Snapshot τ :=
  { s with
    nodes := if mode.nodes then s.nodes else []
    runs := if mode.runs then s.runs else [] }

/-- What a profiler finds after an interval. -/
inductive ProfileTick (τ : Type) where
  /-- It was told to stop. -/
  | stopped
  /-- The time is over; the source shows its state, or is gone. -/
  | elapsed (source : Option (Snapshot τ))

/-- The samples a profiler takes, and whether it has ended by itself or by a stop. -/
def profile {τ : Type} (mode : ProfileMode) : List (ProfileTick τ) → List (Snapshot τ) × Bool
  | [] => ([], false)
  | .stopped :: _ => ([], true)
  | .elapsed none :: _ => ([], true)
  | .elapsed (some s) :: ticks =>
    let (samples, ended) := profile mode ticks
    (s.restrict mode :: samples, ended)

/-- An event of a report: a message and named values, all of them texts. -/
structure LogEvent where
  message : String
  fields : List (String × String)
deriving DecidableEq, Repr

/-- Every event of a report has this severity. -/
def LogEvent.severity : String := "INFO"

/-- Numbers in brackets, separated by a comma and a blank. -/
def bracketed (items : List String) : String :=
  "[" ++ ", ".intercalate items ++ "]"

/-- The event for a node. -/
def NodeView.logEvent (n : NodeView Timing) : LogEvent where
  message := "node"
  fields := [
    ("node", n.node.text),
    ("name", n.name),
    ("level", toString n.level),
    ("queue_depths", bracketed (n.queueDepths.map toString)),
    ("staged_inputs", toString n.stagedInputs),
    ("free_slots", toString n.freeSlots),
    ("starved", toString n.starved),
    ("run_count", toString n.runCount),
    ("mean_ns", toString ((n.timing.map (·.mean)).getD 0)),
    ("max_ns", toString ((n.timing.map (·.longest)).getD 0))]

/-- The event for a run. -/
def RunView.logEvent (r : RunView) : LogEvent where
  message := "run"
  fields := [
    ("slot", toString r.slot),
    ("object_id", toString r.objectId),
    ("remaining_sinks", toString r.remainingSinks)]

/-- The report of a sample. -/
def Snapshot.report (s : Snapshot Timing) : List LogEvent :=
  s.nodes.map (·.logEvent) ++ s.runs.map (·.logEvent) ++
    [⟨"profiler sample", [("backlog", toString s.backlog)]⟩]

end Dataflow
