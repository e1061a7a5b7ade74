import Dataflow.Capacity
import Dataflow.Crew.Basic
import Dataflow.Crew.EventCount
import Dataflow.Crew.Lot
import Dataflow.Engine.Binding
import Dataflow.Engine.Execution
import Dataflow.Error
import Dataflow.Graph.Basic
import Dataflow.Graph.Edge
import Dataflow.Graph.Evaluation
import Dataflow.Graph.Fire
import Dataflow.Graph.Firing
import Dataflow.Graph.Freeze
import Dataflow.Graph.Order
import Dataflow.Graph.Staging
import Dataflow.Graph.Work
import Dataflow.Ident
import Dataflow.Panic
import Dataflow.Payload
import Dataflow.Pool.Basic
import Dataflow.Pool.Monitor
import Dataflow.Pool.Slots
import Dataflow.Proofs.Crew.Load
import Dataflow.Proofs.Crew.Shifts
import Dataflow.Proofs.Crew.Signals
import Dataflow.Proofs.Crew.Uses
import Dataflow.Proofs.Crew.Watch
import Dataflow.Proofs.Engine.Accounts
import Dataflow.Proofs.Engine.Arrivals
import Dataflow.Proofs.Engine.Books
import Dataflow.Proofs.Engine.Calls
import Dataflow.Proofs.Engine.Counting
import Dataflow.Proofs.Engine.Custody
import Dataflow.Proofs.Engine.Deeds
import Dataflow.Proofs.Engine.Effort
import Dataflow.Proofs.Engine.Ending
import Dataflow.Proofs.Engine.FanOut
import Dataflow.Proofs.Engine.Flow
import Dataflow.Proofs.Engine.Frame
import Dataflow.Proofs.Engine.Inputs
import Dataflow.Proofs.Engine.Launch
import Dataflow.Proofs.Engine.Moves
import Dataflow.Proofs.Engine.Once
import Dataflow.Proofs.Engine.Operations
import Dataflow.Proofs.Engine.Past
import Dataflow.Proofs.Engine.Precedence
import Dataflow.Proofs.Engine.Progress
import Dataflow.Proofs.Engine.Register
import Dataflow.Proofs.Engine.Rest
import Dataflow.Proofs.Engine.Scenes
import Dataflow.Proofs.Engine.Sound
import Dataflow.Proofs.Engine.Turn
import Dataflow.Proofs.Graph.Acyclic
import Dataflow.Proofs.Graph.ByHand
import Dataflow.Proofs.Graph.Channels
import Dataflow.Proofs.Graph.Dues
import Dataflow.Proofs.Graph.Edges
import Dataflow.Proofs.Graph.Evaluated
import Dataflow.Proofs.Graph.Freezing
import Dataflow.Proofs.Graph.Fresh
import Dataflow.Proofs.Graph.Linked
import Dataflow.Proofs.Graph.Matching
import Dataflow.Proofs.Graph.Missing
import Dataflow.Proofs.Graph.Outputs
import Dataflow.Proofs.Graph.Placing
import Dataflow.Proofs.Graph.Sorted
import Dataflow.Proofs.Graph.Stock
import Dataflow.Proofs.Graph.WellFormed
import Dataflow.Proofs.Payload.Composite
import Dataflow.Proofs.Pool.Blocking
import Dataflow.Proofs.Pool.Fifo
import Dataflow.Proofs.Pool.Passages
import Dataflow.Proofs.Pool.Tags
import Dataflow.Proofs.Pool.Traffic
import Dataflow.Proofs.Pool.Wakeups
import Dataflow.Proofs.Run.Admission
import Dataflow.Proofs.Run.Delivery
import Dataflow.Proofs.Run.Docket
import Dataflow.Proofs.Run.Ledger
import Dataflow.Proofs.Run.Resolution
import Dataflow.Proofs.Scheduler.Course
import Dataflow.Proofs.Scheduler.Definite
import Dataflow.Proofs.Scheduler.Foresight
import Dataflow.Proofs.Scheduler.History
import Dataflow.Proofs.Scheduler.Lifetime
import Dataflow.Proofs.Scheduler.Liveness
import Dataflow.Proofs.Scheduler.Occupancy
import Dataflow.Proofs.Scheduler.Once
import Dataflow.Proofs.Scheduler.Order
import Dataflow.Proofs.Scheduler.Outcomes
import Dataflow.Proofs.Scheduler.Parking
import Dataflow.Proofs.Scheduler.Reachable
import Dataflow.Proofs.Scheduler.Ready
import Dataflow.Proofs.Scheduler.Rebinding
import Dataflow.Proofs.Scheduler.Resolved
import Dataflow.Proofs.Scheduler.Return
import Dataflow.Proofs.Scheduler.Schedules
import Dataflow.Proofs.Scheduler.Settling
import Dataflow.Proofs.Scheduler.Shutdown
import Dataflow.Proofs.Scheduler.Slots
import Dataflow.Proofs.Scheduler.Snapshots
import Dataflow.Proofs.Scheduler.StartUp
import Dataflow.Proofs.Scheduler.Submission
import Dataflow.Proofs.Scheduler.Threads
import Dataflow.Proofs.Scheduler.World
import Dataflow.Run.Cell
import Dataflow.Run.Fault
import Dataflow.Run.Futures
import Dataflow.Run.Handover
import Dataflow.Run.Table
import Dataflow.Scheduler.Basic
import Dataflow.Scheduler.Drive
import Dataflow.Scheduler.Naming
import Dataflow.Session.Graph
import Dataflow.Session.Pool
import Dataflow.Session.Scheduler
import Dataflow.Settings
import Dataflow.Snapshot.Basic
import Dataflow.Snapshot.Profile
import Dataflow.Sorting
import Dataflow.Workload.Callback
import Dataflow.Workload.Gates
import Dataflow.Workload.Value
