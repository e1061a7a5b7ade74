import Dataflow.Ident
import Dataflow.Pool.Slots

/-!
# Pools

A pool is a bounded first-in first-out queue of tagged values over a fixed set
of slots. It can be closed, after which it takes nothing more but still gives
out what it holds, and it counts how often a producer found it full.

The view of a pool is `Pool.entries`, the list of its values in the order of
their arrival. Each operation has one lemma on the view: a push appends, a take
removes one position and keeps the order of the rest.
-/

namespace Dataflow

/-- A value together with the run it belongs to. -/
structure Tagged (α : Type) where
  objectId : ObjectId
  payload : α
deriving DecidableEq, Repr

/-- Applies a function to the value and keeps the tag. -/
def Tagged.map {α β : Type} (f : α → β) (x : Tagged α) : Tagged β :=
  ⟨x.objectId, f x.payload⟩

/-- Why a pool refuses a value. -/
inductive Refusal where
  | full
  | closed
  | zeroCapacity
deriving DecidableEq, Repr

/-- The wording of the refusal. -/
def Refusal.message : Refusal → String
  | full => "buffer pool is full"
  | closed => "buffer pool is closed"
  | zeroCapacity => "buffer pool has no slots"

/-- A refused value, handed back with the reason. -/
structure Rejected (α : Type) where
  reason : Refusal
  entry : Tagged α
deriving DecidableEq, Repr

/-- Slots in use as a queue, with the closing flag and the count of waits. -/
structure Pool (α : Type) where
  slots : Slots (Tagged α)
  isClosed : Bool
  starved : Nat
  sound : slots.Sound

namespace Pool

variable {α : Type}

/-- An open pool of `capacity` free slots. -/
def new (capacity : Nat) : Pool α where
  slots := .empty capacity
  isClosed := false
  starved := 0
  sound := Slots.sound_empty capacity

/-- The number of slots. -/
def capacity (p : Pool α) : Nat := p.slots.cells.size

/-- The number of slots that hold a value. -/
def numFull (p : Pool α) : Nat := p.slots.full.length

/-- The number of slots that can take a value. -/
def numFree (p : Pool α) : Nat := p.slots.free.length

/-- The values in the order of their arrival. -/
def entries (p : Pool α) : List (Tagged α) := p.slots.values

/-- Puts a value into a free slot; a pool without one stays as it is. -/
def store (p : Pool α) (x : Tagged α) : Pool α :=
  match h : p.slots.fill x with
  | .ok slots => { p with slots, sound := p.sound.of_fill h }
  | .error _ => p

/-- Takes out the value at position `k` of the queue. -/
def takeAt (p : Pool α) (k : Nat) : Option (Tagged α × Pool α) :=
  match h : p.slots.drain k with
  | .ok (x, slots) => some (x, { p with slots, sound := p.sound.of_drain h })
  | .error _ => none

/-- Stores a value unless the pool has no slots, is closed or is full, in this
order of precedence. -/
def tryPush (p : Pool α) (x : Tagged α) : Except (Rejected α) (Pool α) :=
  if p.capacity = 0 then .error ⟨.zeroCapacity, x⟩
  else if p.isClosed then .error ⟨.closed, x⟩
  else if p.slots.free.isEmpty then .error ⟨.full, x⟩
  else .ok (p.store x)

/-- Whether a producer has to wait: there are slots, none is free, and the pool
is open. -/
def pushWaits (p : Pool α) : Bool :=
  p.capacity != 0 && p.slots.free.isEmpty && !p.isClosed

/-- A push that does not wait; none if it has to. -/
def push (p : Pool α) (x : Tagged α) : Option (Except (Rejected α) (Pool α)) :=
  if p.pushWaits then none else some (p.tryPush x)

/-- Counts a producer that begins to wait. -/
def countStarved (p : Pool α) : Pool α :=
  { p with starved := p.starved + 1 }

/-- Takes the oldest value. -/
def tryPop (p : Pool α) : Option (Tagged α × Pool α) :=
  p.takeAt 0

/-- Whether a consumer has to wait: nothing is stored and the pool is open. -/
def popWaits (p : Pool α) : Bool :=
  p.slots.full.isEmpty && !p.isClosed

/-- A pop that does not wait; none if it has to. A closed pool without values
gives nothing. -/
def pop (p : Pool α) : Option (Option (Tagged α) × Pool α) :=
  if p.popWaits then none
  else match p.tryPop with
    | some (x, p) => some (some x, p)
    | none => some (none, p)

/-- Takes the oldest value of one run. -/
def takeTagged (p : Pool α) (id : ObjectId) : Option (Tagged α × Pool α) :=
  match p.entries.findIdx? fun x => x.objectId == id with
  | some k => p.takeAt k
  | none => none

/-- Refuses every later push. -/
def close (p : Pool α) : Pool α :=
  { p with isClosed := true }

/-- A number read off each of several pools, added up. -/
def total (measure : Pool α → Nat) : List (Pool α) → Nat
  | [] => 0
  | p :: ps => measure p + total measure ps

/-! ### The view after each operation -/

@[simp] theorem entries_new (n : Nat) : (new n : Pool α).entries = [] := rfl

@[simp] theorem entries_close (p : Pool α) : p.close.entries = p.entries := rfl

@[simp] theorem entries_countStarved (p : Pool α) : p.countStarved.entries = p.entries := rfl

@[simp] theorem capacity_new (n : Nat) : (new n : Pool α).capacity = n := by
  simp [capacity, new, Slots.empty]

theorem length_entries (p : Pool α) : p.entries.length = p.numFull :=
  p.sound.length_values

/-- **Every slot is either free or full.** -/
theorem numFull_add_numFree (p : Pool α) : p.numFull + p.numFree = p.capacity := by
  rw [Nat.add_comm]; exact p.sound.length_free_add

theorem length_entries_le (p : Pool α) : p.entries.length ≤ p.capacity := by
  rw [length_entries, ← numFull_add_numFree]; exact Nat.le_add_right ..

theorem free_isEmpty_iff (p : Pool α) :
    p.slots.free.isEmpty = true ↔ p.entries.length = p.capacity := by
  have h := p.numFull_add_numFree
  rw [length_entries, List.isEmpty_iff_length_eq_zero]
  unfold numFree at h
  omega

/-- A pool with a free slot appends the value. -/
theorem store_spec (p : Pool α) (x : Tagged α) (h : p.entries.length < p.capacity) :
    (p.store x).entries = p.entries ++ [x] ∧ (p.store x).capacity = p.capacity ∧
      (p.store x).isClosed = p.isClosed ∧ (p.store x).starved = p.starved := by
  obtain ⟨i, free, hf⟩ : ∃ i free, p.slots.free = i :: free := by
    cases hf : p.slots.free with
    | nil =>
      have := (p.free_isEmpty_iff).mp (by rw [hf]; rfl)
      omega
    | cons i free => exact ⟨i, free, rfl⟩
  have hfill := Slots.fill_of_sound p.sound hf x
  unfold store
  split
  · rename_i slots hs
    exact ⟨Slots.values_of_fill p.sound hs, Slots.size_of_fill hs, rfl, rfl⟩
  · rename_i e hs
    rw [hfill] at hs
    simp at hs

/-- A position of the queue can be taken exactly if it holds a value, and taking
it leaves the other values in order. -/
theorem takeAt_eq_some {p p' : Pool α} {k : Nat} {x : Tagged α}
    (h : p.takeAt k = some (x, p')) :
    p.entries[k]? = some x ∧ p'.entries = p.entries.eraseIdx k ∧
      p'.capacity = p.capacity ∧ p'.isClosed = p.isClosed ∧ p'.starved = p.starved := by
  unfold takeAt at h
  split at h
  · rename_i y slots hs
    simp only [Option.some.injEq, Prod.mk.injEq] at h
    obtain ⟨rfl, rfl⟩ := h
    obtain ⟨h1, h2⟩ := Slots.values_of_drain p.sound hs
    exact ⟨h1, h2, Slots.size_of_drain hs, rfl, rfl⟩
  · simp at h

theorem takeAt_isSome {p : Pool α} {k : Nat} :
    (p.takeAt k).isSome = true ↔ k < p.entries.length := by
  rw [length_entries]
  unfold takeAt numFull
  cases hk : p.slots.full[k]? with
  | none =>
    have hd : p.slots.drain k = .error .beyondQueue := by simp only [Slots.drain, hk]
    split
    · rename_i hs; rw [hd] at hs; simp at hs
    · have := List.getElem?_eq_none_iff.mp hk
      simp only [Option.isSome_none, Bool.false_eq_true, false_iff]
      omega
  | some i =>
    obtain ⟨y, -, hd⟩ := Slots.drain_of_sound p.sound hk
    split
    · have := (List.getElem?_eq_some_iff.mp hk).1
      simp only [Option.isSome_some, true_iff]
      exact this
    · rename_i hs; rw [hd] at hs; simp at hs

end Pool

end Dataflow
