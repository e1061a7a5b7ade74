import Dataflow.Panic
import Dataflow.Error

/-!
# Payloads

The values that nodes pass on. A node with several successors needs one value
for each of them, so a payload can be asked for a copy. Making a copy may fail,
may panic, and may change the value it is made from: `Payload.tryCopy` returns
what the value has become beside the copy.

A payload made of parts copies its parts from left to right and stops at the
first that gives none; `Payload.copies` makes the copies that a fan-out needs in
the same way.
-/

namespace Dataflow

/-- Why an attempt at a copy gave none. -/
inductive CopyFailure where
  | refused (e : CopyError)
  | panicked (panic : Panic)
deriving DecidableEq, Repr

/-- What a failed attempt is reported as: a panic counts as a refusal whose
reason tells of the panic. -/
def CopyFailure.report : CopyFailure → CopyError
  | refused e => e
  | panicked panic => ⟨"panicked: " ++ panic.describe⟩

/-- Values that can be asked for a copy of themselves. -/
class Payload (α : Type) where
  /-- The copy or the failure, and what the value is afterwards. -/
  tryCopy : α → Except CopyFailure α × α

namespace Payload

variable {α β : Type}

/-- A copy of plain data always succeeds and leaves the value alone. -/
def duplicate (x : α) : Except CopyFailure α × α :=
  (.ok x, x)

instance : Payload Unit := ⟨duplicate⟩
instance : Payload Bool := ⟨duplicate⟩
instance : Payload Char := ⟨duplicate⟩
instance : Payload Nat := ⟨duplicate⟩
instance : Payload Int := ⟨duplicate⟩
instance : Payload UInt8 := ⟨duplicate⟩
instance : Payload UInt16 := ⟨duplicate⟩
instance : Payload UInt32 := ⟨duplicate⟩
instance : Payload UInt64 := ⟨duplicate⟩
instance : Payload Int8 := ⟨duplicate⟩
instance : Payload Int16 := ⟨duplicate⟩
instance : Payload Int32 := ⟨duplicate⟩
instance : Payload Int64 := ⟨duplicate⟩
instance : Payload String := ⟨duplicate⟩
instance : Payload (List α) := ⟨duplicate⟩
instance : Payload (Array α) := ⟨duplicate⟩

/-- An absent value is copied as absent, a present one by copying it. -/
def copyOption [Payload α] : Option α → Except CopyFailure (Option α) × Option α
  | none => (.ok none, none)
  | some x =>
    match tryCopy x with
    | (.ok y, x) => (.ok (some y), some x)
    | (.error e, x) => (.error e, some x)

/-- A pair is copied component by component; the right one is left alone if the
left one gives no copy. -/
def copyPair [Payload α] [Payload β] : α × β → Except CopyFailure (α × β) × (α × β)
  | (a, b) =>
    match tryCopy a with
    | (.error e, a) => (.error e, (a, b))
    | (.ok a', a) =>
      match tryCopy b with
      | (.error e, b) => (.error e, (a, b))
      | (.ok b', b) => (.ok (a', b'), (a, b))

instance [Payload α] : Payload (Option α) := ⟨copyOption⟩
instance [Payload α] [Payload β] : Payload (α × β) := ⟨copyPair⟩

/-- Makes `n` copies one after another, stopping at the first failure, and
returns what the value has become. -/
def copies [Payload α] : Nat → α → Except CopyFailure (List α) × α
  | 0, x => (.ok [], x)
  | n + 1, x =>
    match tryCopy x with
    | (.error e, x) => (.error e, x)
    | (.ok y, x) =>
      match copies n x with
      | (.error e, x) => (.error e, x)
      | (.ok ys, x) => (.ok (y :: ys), x)

/-- As many copies as were asked for. -/
theorem length_of_copies [Payload α] {n : Nat} {x x' : α} {ys : List α}
    (h : copies n x = (.ok ys, x')) : ys.length = n := by
  induction n generalizing x ys with
  | zero => simp only [copies, Prod.mk.injEq, Except.ok.injEq] at h; simp [← h.1]
  | succ n ih =>
    simp only [copies] at h
    split at h
    · simp at h
    · split at h
      · simp at h
      · rename_i hc
        simp only [Prod.mk.injEq, Except.ok.injEq] at h
        simp [← h.1, ih (hc.trans (by rw [h.2]))]

end Payload

end Dataflow
