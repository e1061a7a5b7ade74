import Dataflow.Panic
import Dataflow.Error

/-!
# Settings

What both scheduling strategies can be told: the number of workers, how many
runs may be in flight and how many may wait, how long an idle worker looks for
work, and the naming and seeding of threads. Settings are built one choice at a
time from the defaults and validated once.
-/

namespace Dataflow

/-- The settings of a scheduler. No worker count means one worker for each
processor; no number of spins means one that follows from the workers. -/
structure Settings where
  workerCount : Option Nat := none
  pipelineDepth : Nat := 2
  backlogCapacity : Nat := 1024
  stealSpins : Option Nat := none
  yieldLimit : Nat := 100
  threadName : String := "pipegraph"
  rngSeed : Option Nat := none
deriving DecidableEq, Repr

/-- One choice. -/
inductive Setting where
  | workerCount (n : Nat)
  | pipelineDepth (n : Nat)
  | backlogCapacity (n : Nat)
  | stealBounds (spins yields : Nat)
  | threadName (text : String)
  | rngSeed (seed : Nat)
deriving DecidableEq, Repr

namespace Settings

/-- The settings with one more choice made. -/
def choose (s : Settings) : Setting → Settings
  | .workerCount n => { s with workerCount := some n }
  | .pipelineDepth n => { s with pipelineDepth := n }
  | .backlogCapacity n => { s with backlogCapacity := n }
  | .stealBounds spins yields => { s with stealSpins := some spins, yieldLimit := yields }
  | .threadName text => { s with threadName := text }
  | .rngSeed seed => { s with rngSeed := some seed }

/-- The defaults with the given choices made in order; a later one wins. -/
def ofList (choices : List Setting) : Settings :=
  choices.foldl choose {}

/-- The number of workers on a machine with so many processors. -/
def workers (s : Settings) (processors : Nat) : Nat :=
  s.workerCount.getD processors

/-- How many failed attempts at stealing an idle worker makes before it yields:
the chosen number, or twice one more than the workers. The sum must fit a word;
the doubling keeps the low bits of one. -/
def effectiveStealSpins (s : Settings) (processors : Nat) : Except Panic Nat :=
  match s.stealSpins with
  | some spins => .ok spins
  | none =>
    let sum := s.workers processors + 1
    if wordLimit ≤ sum then .error (.text "attempt to add with overflow")
    else .ok (2 * sum % wordLimit)

/-- Settings need a worker, and a pipeline depth from one to the size limit. -/
def validate (s : Settings) : Except SettingsError Unit :=
  if s.workerCount = some 0 then .error .zeroWorkers
  else if s.pipelineDepth = 0 then .error .zeroPipelineDepth
  else if sizeLimit < s.pipelineDepth then .error (.pipelineDepthTooLarge s.pipelineDepth)
  else .ok ()

end Settings

end Dataflow
