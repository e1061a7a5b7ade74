import Dataflow.Proofs.Run.Docket

/-!
# Attempts to resolve a cell

A cell can be resolved once, and whoever tries it again fails. So a log of all attempts says
what has become of every cell, as long as none of them has failed (`Futures.Logged`): the
cells that were resolved are those that somebody has tried to resolve, and what the holder
of a future finds or has got is the outcome that the attempt was made with.
-/

namespace Dataflow

variable {α : Type}

/-- An attempt to resolve a cell, and whether it succeeded. -/
structure Resolution (α : Type) where
  cell : CellId
  outcome : RunOutcome α
  succeeded : Bool

/-- A cell that was resolved because its run was cancelled. -/
def Cell.cancelled : Cell α where
  outcome := some (.error (.scheduling .cancelled))
  resolved := true

namespace Futures

variable {f f' : Futures α} {id : CellId} {o : RunOutcome α}
  {taken taken' : List (CellId × RunOutcome α)} {log : List (Resolution α)}

/-- The attempt to resolve one of these cells. -/
def resolution (f : Futures α) (id : CellId) (o : RunOutcome α) : Resolution α :=
  ⟨id, o, (f.resolve id o).isSome⟩

/-- A fresh cell looks like one that does not exist. -/
theorem cell_extend_eq (f : Futures α) (id : CellId) : f.extend.cell id = f.cell id := by
  rcases Nat.lt_trichotomy id f.cells.size with h | rfl | h
  · exact f.cell_extend h
  · simp [cell, extend]
  · have hpush : (f.cells.push {}).size ≤ id := by
      rw [Array.size_push]
      exact h
    simp [cell, extend, Array.getElem?_eq_none (Nat.le_of_lt h), Array.getElem?_eq_none hpush]

/-- A cell is replaced, if there is one. -/
theorem cell_setCell_eq (f : Futures α) (id : CellId) (c : Cell α) (id' : CellId) :
    (f.setCell id c).cell id' = if id' = id ∧ id < f.cells.size then c else f.cell id' := by
  by_cases hid : id < f.cells.size
  · simpa [hid] using f.cell_setCell id c hid
  · have hsame : f.setCell id c = f := by
      rw [setCell, Array.setIfInBounds_eq_of_size_le (Nat.not_lt.mp hid)]
    simp [hid, hsame]

/-- **Several cells are cancelled**, and all others stay as they are. -/
theorem cell_cancel {ids : List CellId} (hn : ids.Nodup)
    (hp : ∀ id ∈ ids, id < f.cells.size ∧ (f.cell id).resolved = false) :
    (f.cancel ids).cells.size = f.cells.size ∧
      ∀ id, (f.cancel ids).cell id = if id ∈ ids then .cancelled else f.cell id := by
  induction ids generalizing f with
  | nil => exact ⟨rfl, fun _ => rfl⟩
  | cons c ids ih =>
    obtain ⟨hfresh, hn⟩ := List.nodup_cons.mp hn
    obtain ⟨hc, hpending⟩ := hp c (List.mem_cons_self ..)
    obtain ⟨f', hf', hsize, hself, hother⟩ :=
      resolve_of_pending hc hpending (.error (.scheduling .cancelled))
    have hstep : f.cancel (c :: ids) = f'.cancel ids := by
      show List.foldl _ ((f.resolve c (.error (.scheduling .cancelled))).getD f) _ = _
      rw [hf']
      rfl
    obtain ⟨hsize', hcells⟩ := ih (f := f') hn fun id hid => by
      have hne : id ≠ c := fun he => hfresh (he ▸ hid)
      rw [hsize, hother id hne]
      exact hp id (List.mem_cons_of_mem _ hid)
    rw [hstep]
    refine ⟨hsize'.trans hsize, fun id => ?_⟩
    rw [hcells id]
    by_cases he : id = c
    · subst he
      rw [if_neg hfresh, if_pos (List.mem_cons_self ..), hself]
      rfl
    · simp only [List.mem_cons, he, false_or, hother id he]

/-- **The log says what has become of every cell**: no attempt has failed, a cell was
resolved if somebody has tried it, and the outcome is the one of the attempt. -/
structure Logged (f : Futures α) (taken : List (CellId × RunOutcome α))
    (log : List (Resolution α)) : Prop where
  succeeded : ∀ r ∈ log, r.succeeded = true
  nodup : (log.map (·.cell)).Nodup
  resolved_iff : ∀ id, (f.cell id).resolved = true ↔ id ∈ log.map (·.cell)
  yields_iff : ∀ id o, f.Yields taken id o ↔ ∃ r ∈ log, r.cell = id ∧ r.outcome = o

namespace Logged

/-- Nothing was resolved so far. -/
theorem nil (hf : ∀ id, f.cell id = {}) : f.Logged [] [] where
  succeeded := nofun
  nodup := List.nodup_nil
  resolved_iff := by simp [hf]
  yields_iff := by simp [Yields, hf]

/-- Nothing was resolved, but holders of futures may have got their outcomes. -/
theorem keep (h : f.Logged taken log) (hk : ∀ id, f.Keeps taken f' taken' id) :
    f'.Logged taken' log where
  succeeded := h.succeeded
  nodup := h.nodup
  resolved_iff := fun id => by rw [(hk id).1, h.resolved_iff]
  yields_iff := fun id o => ((hk id).2 o).trans (h.yields_iff id o)

/-- **A cell is resolved** that was not. -/
theorem resolve (h : f.Logged taken log) (hid : id < f.cells.size)
    (hp : (f.cell id).resolved = false) (hf' : f.resolve id o = some f') :
    f'.Logged taken (log ++ [f.resolution id o]) := by
  obtain ⟨f₁, hf₁, -, hself, hother⟩ := resolve_of_pending hid hp o
  obtain rfl := Option.some.inj (hf₁.symm.trans hf')
  have hfresh : id ∉ log.map (·.cell) := fun hmem => by
    rw [← h.resolved_iff, hp] at hmem
    cases hmem
  -- nobody has got anything from the cell so far
  have hnone : ∀ o', ¬ f.Yields taken id o' := fun o' hy => by
    obtain ⟨r, hr, rfl, -⟩ := (h.yields_iff id o').mp hy
    exact hfresh (List.mem_map_of_mem hr)
  refine {
    succeeded := fun r hr => ?_
    nodup := ?_
    resolved_iff := fun id' => ?_
    yields_iff := fun id' o' => ?_ }
  · rcases List.mem_append.mp hr with hr | hr
    · exact h.succeeded r hr
    · rw [List.mem_singleton.mp hr, resolution, hf']
      rfl
  · rw [List.map_append, List.map_singleton, List.nodup_append]
    refine ⟨h.nodup, List.nodup_singleton _, fun c hc c' hc' he => hfresh ?_⟩
    obtain rfl : c' = id := List.mem_singleton.mp hc'
    exact he ▸ hc
  · rw [List.map_append, List.mem_append, List.map_singleton, List.mem_singleton]
    by_cases he : id' = id
    · subst he
      simp [hself, resolution]
    · rw [hother id' he, h.resolved_iff]
      exact (or_iff_left he).symm
  · simp only [List.mem_append, List.mem_singleton, or_and_right, exists_or, exists_eq_left]
    rw [← h.yields_iff]
    by_cases he : id' = id
    · subst he
      have htaken : (id', o') ∉ taken := fun hmem => hnone o' (Or.inr hmem)
      rw [Yields, hself]
      simp [htaken, hnone, resolution]
    · rw [Yields, Yields, hother id' he]
      exact (or_iff_left fun hr => he hr.1.symm).symm

end Logged

end Futures

end Dataflow
