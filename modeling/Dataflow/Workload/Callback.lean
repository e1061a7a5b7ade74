import Dataflow.Graph.Work
import Dataflow.Workload.Value

/-!
# Callbacks of the workbench

A small language of callbacks over values: constants, sums, products and selections
of the inputs, callbacks that fail or panic always or on certain inputs, one that
makes a fragile value, and one that waits at a gate before it goes on. Arithmetic is
that of 64-bit words, and the fragility of inputs is ignored.
-/

namespace Dataflow.Workload

/-- A callback. -/
inductive Callback where
  | const (k : Int64)
  | sum (k : Int64)
  /-- The inputs as the digits of a number to base 31. -/
  | poly (k : Int64)
  | add (k : Int64)
  | mul (k : Int64)
  | count
  | last
  | fail (report : String)
  | panic (text : String) (mode : Breakage)
  /-- Refuses a first input below a least one, panics at an unlucky one. -/
  | guard (k : Int64) (least : Option Int64) (bomb : Option Int64) (mode : Breakage)
  /-- The sum, made fragile. -/
  | fragile (k : Int64) (fragility : Option Fragility)
  /-- Waits at the gate that is named after the first input. -/
  | gate (name : String) (rest : Callback)
deriving Repr

namespace Callback

/-- The sum of numbers on top of a first one. -/
def total (k : Int64) (xs : List Int64) : Int64 :=
  xs.foldl (· + ·) k

/-- A verdict on the first input, which must be there. -/
def onFirst (xs : List Int64) (f : Int64 → Int64) : Verdict Value :=
  match xs with
  | x :: _ => .value ⟨f x, none⟩
  | [] => .failure "no input"

/-- What the callback does on numbers. -/
def compute (xs : List Int64) : Callback → Computation Value
  | const k => .done (.value ⟨k, none⟩)
  | sum k => .done (.value ⟨total k xs, none⟩)
  | poly k => .done (.value ⟨xs.foldl (fun acc x => acc * 31 + x) k, none⟩)
  | add k => .done (onFirst xs (· + k))
  | mul k => .done (onFirst xs (· * k))
  | count => .done (.value ⟨.ofNat xs.length, none⟩)
  | last =>
    match xs.getLast? with
    | some x => .done (.value ⟨x, none⟩)
    | none => .done (.failure "no input")
  | fail report => .done (.failure report)
  | panic text mode => .done (.panic (mode.panic text))
  | guard k least bomb mode =>
    let x := xs.headD 0
    if least.any (x < ·) then .done (.failure ("input " ++ toString x ++ " too small"))
    else if bomb = some x then .done (.panic (mode.panic ("unlucky " ++ toString x)))
    else .done (.value ⟨x + k, none⟩)
  | fragile k fragility => .done (.value ⟨total k xs, fragility⟩)
  | gate name rest => .hold (name ++ toString (xs.headD 0)) (rest.compute xs)

/-- The callback as the work of a node. -/
def work (c : Callback) : Work Value :=
  fun inputs => c.compute (inputs.map (·.number))

end Callback

/-- How the entering of a callback is noted: the name of the node and its inputs. -/
def journalEntry (name : String) (inputs : List Value) : String :=
  name ++ "[" ++ ", ".intercalate (inputs.map fun x => toString x.number) ++ "]"

end Dataflow.Workload
