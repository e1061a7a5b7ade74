import Mathlib.Data.List.Nodup
import Mathlib.Data.List.Perm.Basic
import Dataflow.Pool.Basic

/-!
# The tags in a pool

A pool that holds at most one value of each run can be told apart by its tags. The
operations that executions perform are described here by what they do to the list of
values: a push appends, a pop takes the head, and a tagged take removes the one value
of its run and nothing else.
-/

namespace Dataflow

namespace Pool

variable {α : Type}

/-- The runs that have a value in the pool, in the order of arrival. -/
def tags (p : Pool α) : List ObjectId :=
  p.entries.map (·.objectId)

theorem mem_tags {p : Pool α} {run : ObjectId} :
    run ∈ p.tags ↔ ∃ e, (⟨run, e⟩ : Tagged α) ∈ p.entries := by
  unfold tags
  rw [List.mem_map]
  constructor
  · rintro ⟨x, hx, rfl⟩
    exact ⟨x.payload, hx⟩
  · rintro ⟨e, he⟩
    exact ⟨_, he, rfl⟩

/-- The pool gives away the value of a run, and keeps those of all others. -/
structure Gives (p : Pool α) (run : ObjectId) (e : α) (p' : Pool α) : Prop where
  mem : (⟨run, e⟩ : Tagged α) ∈ p.entries
  mem_iff : ∀ y, y ∈ p'.entries ↔ y ∈ p.entries ∧ y.objectId ≠ run
  tags : p'.tags.Sublist p.tags
  capacity : p'.capacity = p.capacity
  isClosed : p'.isClosed = p.isClosed
  starved : p'.starved = p.starved

/-- Taking out one position takes out the run that has its value there. -/
theorem gives_of_eraseIdx {p p' : Pool α} {k : Nat} {x : Tagged α} (hn : p.tags.Nodup)
    (hx : p.entries[k]? = some x) (he : p'.entries = p.entries.eraseIdx k)
    (hc : p'.capacity = p.capacity ∧ p'.isClosed = p.isClosed ∧ p'.starved = p.starved) :
    p.Gives x.objectId x.payload p' := by
  obtain ⟨hlt, hget⟩ := List.getElem?_eq_some_iff.mp hx
  have hperm : (p.entries[k] :: p.entries.eraseIdx k).Perm p.entries := Slots.perm_eraseIdx hlt
  have hnd := (hperm.map Tagged.objectId).nodup_iff.mpr hn
  rw [List.map_cons, List.nodup_cons, hget] at hnd
  refine ⟨hget ▸ List.getElem_mem hlt, ?_, ?_, hc.1, hc.2.1, hc.2.2⟩
  · intro y
    rw [he]
    constructor
    · intro hy
      refine ⟨hperm.mem_iff.mp (List.mem_cons_of_mem _ hy), fun hyr => hnd.1 ?_⟩
      exact List.mem_map.mpr ⟨y, hy, hyr⟩
    · rintro ⟨hy, hyr⟩
      rcases List.mem_cons.mp (hperm.mem_iff.mpr hy) with rfl | hy
      · exact absurd (congrArg Tagged.objectId hget) hyr
      · exact hy
  · unfold tags
    rw [he]
    exact (List.eraseIdx_sublist p.entries k).map _

/-- **A tagged take** gives the value of its run. -/
theorem takeTagged_eq_some {p p' : Pool α} {run : ObjectId} {x : Tagged α} (hn : p.tags.Nodup)
    (h : p.takeTagged run = some (x, p')) : p.Gives run x.payload p' := by
  unfold takeTagged at h
  split at h
  · next k hk =>
    obtain ⟨hx, he, hc⟩ := takeAt_eq_some h
    obtain ⟨hlt, hp, -⟩ := List.findIdx?_eq_some_iff_getElem.mp hk
    have hrun : x.objectId = run := by
      rw [← (List.getElem?_eq_some_iff.mp hx).2]
      simpa using hp
    rw [← hrun]
    exact gives_of_eraseIdx hn hx he hc
  · simp at h

theorem takeTagged_isSome {p : Pool α} {run : ObjectId} (h : run ∈ p.tags) :
    ∃ x p', p.takeTagged run = some (x, p') := by
  obtain ⟨e, he⟩ := mem_tags.mp h
  unfold takeTagged
  cases hk : p.entries.findIdx? fun x => x.objectId == run with
  | none =>
    have := List.findIdx?_eq_none_iff.mp hk _ he
    simp at this
  | some k =>
    obtain ⟨hlt, -⟩ := List.findIdx?_eq_some_iff_getElem.mp hk
    obtain ⟨⟨x, p'⟩, hx⟩ := Option.isSome_iff_exists.mp (takeAt_isSome.mpr hlt)
    exact ⟨x, p', hx⟩

/-- **A pop** gives the oldest value. -/
theorem pop_eq_some {p p' : Pool α} {x : Tagged α} (hn : p.tags.Nodup)
    (h : p.pop = some (some x, p')) :
    p.Gives x.objectId x.payload p' ∧ p.tags = x.objectId :: p'.tags := by
  unfold pop at h
  split at h
  · simp at h
  · split at h
    · next y q hq =>
      obtain ⟨rfl, rfl⟩ : y = x ∧ q = p' := by simpa using h
      obtain ⟨hx, he, hc⟩ := takeAt_eq_some hq
      refine ⟨gives_of_eraseIdx hn hx he hc, ?_⟩
      unfold tags
      cases hl : p.entries with
      | nil => simp [hl] at hx
      | cons z zs =>
        obtain rfl : z = y := by simpa [hl] using hx
        rw [he, hl]
        rfl
    · simp at h

theorem full_isEmpty_iff (p : Pool α) : p.slots.full.isEmpty = true ↔ p.entries = [] := by
  rw [← List.length_eq_zero_iff, length_entries, List.isEmpty_iff, ← List.length_eq_zero_iff]
  rfl

theorem popWaits_of_nil {p : Pool α} (h : p.entries = []) : p.popWaits = !p.isClosed := by
  rw [popWaits, (full_isEmpty_iff p).mpr h, Bool.true_and]

/-- Nobody waits at a pool with a value. -/
theorem popWaits_of_ne_nil {p : Pool α} (h : p.entries ≠ []) : p.popWaits = false := by
  have hne : p.slots.full.isEmpty = false := by
    rw [Bool.eq_false_iff, ne_eq, full_isEmpty_iff]
    exact h
  rw [popWaits, hne, Bool.false_and]

/-- A pool with a value gives one. -/
theorem pop_of_ne_nil {p : Pool α} (h : p.entries ≠ []) : ∃ x p', p.pop = some (some x, p') := by
  have hw := popWaits_of_ne_nil h
  have hlt : 0 < p.entries.length := List.length_pos_iff.mpr h
  obtain ⟨⟨x, p'⟩, hx⟩ := Option.isSome_iff_exists.mp (takeAt_isSome.mpr hlt)
  refine ⟨x, p', ?_⟩
  unfold pop tryPop
  rw [hw, hx]
  rfl

/-- Without a value, a pop waits or finds the pool closed. -/
theorem pop_of_nil {p : Pool α} (h : p.entries = []) :
    p.pop = if p.isClosed then some (none, p) else none := by
  unfold pop tryPop
  rw [popWaits_of_nil h]
  cases hc : p.isClosed with
  | false => simp
  | true =>
    have : p.takeAt 0 = none := by
      rw [← Option.not_isSome_iff_eq_none, takeAt_isSome, h]
      simp
    simp [this]

/-- A push into an open pool with a free slot appends its value, and does not wait. -/
theorem push_of_room {p : Pool α} (x : Tagged α) (hc : p.isClosed = false)
    (h : p.entries.length < p.capacity) :
    p.push x = some (.ok (p.store x)) ∧ p.tryPush x = .ok (p.store x) := by
  have hcap : p.capacity ≠ 0 := by omega
  have hfree : p.slots.free.isEmpty = false := by
    rw [Bool.eq_false_iff, ne_eq, free_isEmpty_iff]
    omega
  have ht : p.tryPush x = .ok (p.store x) := by
    simp [tryPush, hcap, hc, hfree]
  refine ⟨?_, ht⟩
  simp [push, pushWaits, hfree, ht]

end Pool

end Dataflow
