import Dataflow.Settings

/-!
# Names of threads

Every thread of a scheduler has a name of its own. It begins with the name from the
settings; a worker adds its number, and the thread of a node adds the name of the
node. The system takes a name up to the first null byte, so a thread whose name
contains one is not started, and the attempt ends in a panic that says where the
byte stands.
-/

namespace Dataflow

namespace Settings

/-- The name of a worker. -/
def workerName (s : Settings) (worker : Nat) : String :=
  s.threadName ++ "-worker-" ++ toString worker

/-- The name of the thread of a node. -/
def nodeThreadName (s : Settings) (node : String) : String :=
  s.threadName ++ "-" ++ node

end Settings

namespace ThreadName

/-- The bytes of a name. -/
def bytes (name : String) : List Nat :=
  name.toUTF8.toList.map (·.toNat)

/-- What a panic says about a name with a null byte at a position. -/
def report (position : Nat) (bytes : List Nat) : String :=
  "thread name may not contain interior null bytes: NulError(" ++ toString position ++ ", [" ++
    ", ".intercalate (bytes.map toString) ++ "])"

/-- The panic of an attempt to start a thread under a name, if the name has a null
byte. -/
def panic? (name : String) : Option Panic :=
  ((bytes name).findIdx? (· == 0)).map fun k => .text (report k (bytes name))

end ThreadName

end Dataflow
