import Dataflow.Payload

/-!
# Values

The payloads of the workbench: 64-bit integers that may be fragile. A fragile value
can be copied a limited number of times; every copy uses one up, and comes with as
many as the value has left. After the last one an attempt fails or panics, in a way
that the value itself lays down.
-/

namespace Dataflow.Workload

/-- How an attempt at a copy goes wrong. -/
inductive Breakage where
  | refusal
  /-- A panic with a fixed text. -/
  | fixedText
  /-- A panic with a text made up on the spot. -/
  | madeText
  /-- A panic with a value that is no text. -/
  | wordless
deriving DecidableEq, Repr

/-- The value a panic of this kind carries. -/
def Breakage.panic (b : Breakage) (text : String) : Panic :=
  match b with
  | wordless => .wordless
  | _ => .text text

/-- How many copies are left, and what happens after them. -/
structure Fragility where
  left : Nat
  reason : String
  mode : Breakage
deriving DecidableEq, Repr

/-- A number, possibly fragile. -/
structure Value where
  number : Int64
  fragility : Option Fragility := none
deriving DecidableEq, Repr

namespace Value

/-- What an attempt at a copy of a value without copies left comes to. -/
def breakage (f : Fragility) : CopyFailure :=
  match f.mode with
  | .refusal => .refused ⟨f.reason⟩
  | mode => .panicked (mode.panic f.reason)

/-- Copies a value, using up one of the copies of a fragile one. -/
def copy (x : Value) : Except CopyFailure Value × Value :=
  match x.fragility with
  | none => (.ok x, x)
  | some f =>
    match f.left with
    | 0 => (.error (breakage f), x)
    | left + 1 =>
      let x := { x with fragility := some { f with left } }
      (.ok x, x)

instance : Payload Value := ⟨copy⟩

end Value

end Dataflow.Workload
