import Dataflow.Panic

/-!
# Faults

The scheduler checks on its way what its own bookkeeping promises. A `Fault` names
a check that fails. As long as all entries of the pools come from the runs of the
scheduler none does, but entries that are put in or taken out by hand can make one
fail.

A fault ends the thread that meets it, in the middle of what it does: what it has
changed before stays changed.
-/

namespace Dataflow

/-- An internal check that fails. -/
inductive Fault where
  /-- A slot was handed out while its last run is not over. -/
  | slotBusy
  /-- The outcome of a slot was taken before. -/
  | outcomeTaken
  /-- A run was completed while none is in flight. -/
  | nothingInFlight
  /-- A predecessor was released once too often. -/
  | dependencyReleased
  /-- A sink was finished once too often. -/
  | sinkFinished
  /-- A staging pool has no room for a run that holds a slot. -/
  | stagingRefused
  /-- An input of an execution that was started is not there. -/
  | inputMissing
  /-- The inputs of one execution belong to several runs. -/
  | runsMixed
  /-- No slot belongs to the run of the inputs. -/
  | runUnknown
  /-- A cell was resolved before. -/
  | resolvedTwice
  /-- There is no such slot, node or cell. -/
  | outOfRange
deriving DecidableEq, Repr

/-- The panic in which a call for a run ends that meets the fault when it starts the
run. The other faults are met by threads only, and nobody learns of them. -/
def Fault.panic : Fault → Panic
  | .stagingRefused => .text "Bound::stage: [1]"
  | .slotBusy => .text "RunStatus::reset: [1]"
  | _ => .wordless

end Dataflow
