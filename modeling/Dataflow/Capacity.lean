import Dataflow.Error
import Dataflow.Panic

/-!
# Capacity

Whatever is made for a fixed number of items keeps them in one block of memory, and no
block is longer than half of all addresses. An attempt to make room for more ends in a
panic, before anything is made.
-/

namespace Dataflow

/-- The panic of an attempt to make room for so many items of so many bytes each, if
they do not fit into one block. -/
def capacityPanic? (itemBytes count : Nat) : Option Panic :=
  if wordLimit ≤ 2 * (itemBytes * count) then some (.text "capacity overflow") else none

end Dataflow
