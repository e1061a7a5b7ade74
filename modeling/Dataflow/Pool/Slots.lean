/-!
# Slots

A fixed number of cells that are handed out and taken back. At any moment every
cell is either free, and then its index lies on a stack, or full, and then its
index waits in a queue. A cell is filled from the top of the stack and queued at
the end; the cell at any position of the queue can be drained, and goes back on
top of the stack.

Both operations check what they rely on and name the check that fails. In a
store that is `Sound` none fails, and both keep it sound.
-/

namespace Dataflow

/-- A check of the slot store that fails. -/
inductive SlotFault where
  /-- A cell was asked for, but none is free. -/
  | noneFree
  /-- The cell handed out holds a value already. -/
  | occupied
  /-- The queue has no such position. -/
  | beyondQueue
  /-- The cell taken back holds no value. -/
  | vacant
deriving DecidableEq, Repr

/-- Cells, the stack of free ones, and the queue of full ones. -/
structure Slots (α : Type) where
  cells : Array (Option α)
  free : List Nat
  full : List Nat

namespace Slots

variable {α : Type}

/-- A store of `n` free cells; the first is handed out first. -/
def empty (n : Nat) : Slots α :=
  ⟨Array.replicate n none, List.range n, []⟩

/-- Puts a value into the cell on top of the stack and queues it. -/
def fill (s : Slots α) (x : α) : Except SlotFault (Slots α) :=
  match s.free with
  | [] => .error .noneFree
  | i :: free =>
    match s.cells[i]? with
    | some none => .ok ⟨s.cells.setIfInBounds i (some x), free, s.full ++ [i]⟩
    | _ => .error .occupied

/-- Takes the value of the cell at position `k` of the queue. -/
def drain (s : Slots α) (k : Nat) : Except SlotFault (α × Slots α) :=
  match s.full[k]? with
  | none => .error .beyondQueue
  | some i =>
    match s.cells[i]? with
    | some (some x) =>
      .ok (x, ⟨s.cells.setIfInBounds i none, i :: s.free, s.full.eraseIdx k⟩)
    | _ => .error .vacant

/-- The stored values in queue order. -/
def values (s : Slots α) : List α :=
  s.full.filterMap fun i => s.cells[i]?.join

/-- Stack and queue together list every cell once, and the queued cells are
those that hold a value. -/
structure Sound (s : Slots α) : Prop where
  partition : (s.free ++ s.full).Perm (List.range s.cells.size)
  queued : ∀ i, i < s.cells.size → (i ∈ s.full ↔ (s.cells[i]?.join).isSome)

/-! ### What soundness says about one index -/

section Indices

variable {s : Slots α}

theorem Sound.nodup (h : s.Sound) : (s.free ++ s.full).Nodup :=
  h.partition.nodup_iff.mpr List.nodup_range

theorem Sound.lt_of_free (h : s.Sound) {i : Nat} (hi : i ∈ s.free) : i < s.cells.size :=
  List.mem_range.mp (h.partition.mem_iff.mp (List.mem_append_left _ hi))

theorem Sound.lt_of_full (h : s.Sound) {i : Nat} (hi : i ∈ s.full) : i < s.cells.size :=
  List.mem_range.mp (h.partition.mem_iff.mp (List.mem_append_right _ hi))

theorem Sound.not_full_of_free (h : s.Sound) {i : Nat} (hi : i ∈ s.free) : i ∉ s.full :=
  fun hf => (List.nodup_append.mp h.nodup).2.2 i hi i hf rfl

/-- A free cell holds nothing. -/
theorem Sound.cell_of_free (h : s.Sound) {i : Nat} (hi : i ∈ s.free) :
    s.cells[i]? = some none := by
  have hlt := h.lt_of_free hi
  have hq := h.queued i hlt
  rw [Array.getElem?_eq_getElem hlt] at hq ⊢
  cases hc : s.cells[i] with
  | none => rfl
  | some x =>
    rw [hc] at hq
    exact absurd (hq.mpr rfl) (h.not_full_of_free hi)

/-- A queued cell holds a value. -/
theorem Sound.cell_of_full (h : s.Sound) {i : Nat} (hi : i ∈ s.full) :
    ∃ x, s.cells[i]? = some (some x) := by
  have hlt := h.lt_of_full hi
  have hq := (h.queued i hlt).mp hi
  rw [Array.getElem?_eq_getElem hlt] at hq ⊢
  cases hc : s.cells[i] with
  | none => rw [hc] at hq; simp at hq
  | some x => exact ⟨x, rfl⟩

end Indices

/-! ### Soundness is kept -/

theorem sound_empty (n : Nat) : (empty n : Slots α).Sound where
  partition := by simp [empty]
  queued := by
    intro i hi
    simp only [empty, Array.size_replicate] at hi
    simp [empty, hi]

theorem fill_of_sound {s : Slots α} (h : s.Sound) {i : Nat} {free : List Nat}
    (hf : s.free = i :: free) (x : α) :
    s.fill x = .ok ⟨s.cells.setIfInBounds i (some x), free, s.full ++ [i]⟩ := by
  have hi : i ∈ s.free := by rw [hf]; exact List.mem_cons_self ..
  simp only [fill, hf, h.cell_of_free hi]

theorem Sound.of_fill {s s' : Slots α} {x : α} (h : s.Sound) (hs : s.fill x = .ok s') :
    s'.Sound := by
  cases hf : s.free with
  | nil => simp [fill, hf] at hs
  | cons i free =>
    rw [fill_of_sound h hf x] at hs
    simp only [Except.ok.injEq] at hs
    subst hs
    have hi : i ∈ s.free := by rw [hf]; exact List.mem_cons_self ..
    have hlt := h.lt_of_free hi
    constructor
    · have hp := h.partition
      rw [hf] at hp
      simp only [Array.size_setIfInBounds]
      refine List.Perm.trans ?_ hp
      simp only [List.cons_append]
      rw [← List.append_assoc]
      exact List.perm_append_singleton i (free ++ s.full)
    · intro j hj
      simp only [Array.size_setIfInBounds] at hj
      simp only [List.mem_append, List.mem_singleton, Array.getElem?_setIfInBounds]
      by_cases hij : i = j
      · subst hij; simp [hlt]
      · have hji : ¬ j = i := fun h => hij h.symm
        simp only [hij, hji, if_false, or_false]
        exact h.queued j hj

/-- Taking out one position of a list leaves the others. -/
theorem perm_eraseIdx {β : Type} {l : List β} {k : Nat} (h : k < l.length) :
    (l[k] :: l.eraseIdx k).Perm l := by
  rw [List.eraseIdx_eq_take_drop_succ]
  refine List.perm_middle.symm.trans ?_
  rw [List.getElem_cons_drop, List.take_append_drop]

theorem drain_of_sound {s : Slots α} (h : s.Sound) {k i : Nat} (hk : s.full[k]? = some i) :
    ∃ x, s.cells[i]? = some (some x) ∧
      s.drain k = .ok (x, ⟨s.cells.setIfInBounds i none, i :: s.free, s.full.eraseIdx k⟩) := by
  obtain ⟨x, hx⟩ := h.cell_of_full (List.mem_of_getElem? hk)
  exact ⟨x, hx, by simp only [drain, hk, hx]⟩

theorem Sound.of_drain {s s' : Slots α} {k : Nat} {x : α} (h : s.Sound)
    (hs : s.drain k = .ok (x, s')) : s'.Sound := by
  cases hk : s.full[k]? with
  | none => simp [drain, hk] at hs
  | some i =>
    obtain ⟨y, -, hd⟩ := drain_of_sound h hk
    rw [hd] at hs
    simp only [Except.ok.injEq, Prod.mk.injEq] at hs
    obtain ⟨rfl, rfl⟩ := hs
    have hmem := List.mem_of_getElem? hk
    have hlt := h.lt_of_full hmem
    obtain ⟨hlen, hget⟩ := List.getElem?_eq_some_iff.mp hk
    have hperm : (i :: s.full.eraseIdx k).Perm s.full := by
      rw [← hget]; exact perm_eraseIdx hlen
    constructor
    · simp only [Array.size_setIfInBounds]
      refine List.Perm.trans ?_ h.partition
      refine List.Perm.trans ?_ (List.Perm.append_left s.free hperm)
      simp only [List.cons_append]
      exact (List.perm_middle).symm
    · intro j hj
      simp only [Array.size_setIfInBounds] at hj
      have hnd : (i :: s.full.eraseIdx k).Nodup :=
        hperm.nodup_iff.mpr (List.nodup_append.mp h.nodup).2.1
      have hnot := (List.nodup_cons.mp hnd).1
      simp only [Array.getElem?_setIfInBounds]
      by_cases hij : i = j
      · subst hij; simp [hnot, hlt]
      · simp only [hij, if_false]
        have hji : ¬ j = i := fun h => hij h.symm
        rw [← h.queued j hj, ← hperm.mem_iff]
        simp [hji]

/-! ### The queue of stored values -/

/-- Functions that agree on a list select the same from it. -/
theorem filterMap_agree {β γ : Type} {f g : β → Option γ} {l : List β}
    (h : ∀ b ∈ l, f b = g b) : l.filterMap f = l.filterMap g := by
  induction l with
  | nil => rfl
  | cons b l ih =>
    simp only [List.filterMap_cons, h b (List.mem_cons_self ..)]
    rw [ih fun b hb => h b (List.mem_cons_of_mem _ hb)]

/-- If every element is mapped to something, positions are kept. -/
theorem filterMap_eraseIdx {β γ : Type} {f : β → Option γ} {l : List β}
    (h : ∀ b ∈ l, (f b).isSome) (k : Nat) :
    (l.eraseIdx k).filterMap f = (l.filterMap f).eraseIdx k := by
  induction l generalizing k with
  | nil => simp
  | cons b l ih =>
    obtain ⟨c, hc⟩ := Option.isSome_iff_exists.mp (h b (List.mem_cons_self ..))
    cases k with
    | zero => simp [hc]
    | succ k =>
      simp only [List.eraseIdx_cons_succ, List.filterMap_cons, hc]
      rw [ih fun b hb => h b (List.mem_cons_of_mem _ hb)]

/-- If every element is mapped to something, so is the one at each position. -/
theorem filterMap_getElem? {β γ : Type} {f : β → Option γ} {l : List β}
    (h : ∀ b ∈ l, (f b).isSome) (k : Nat) :
    (l.filterMap f)[k]? = l[k]?.bind f := by
  induction l generalizing k with
  | nil => simp
  | cons b l ih =>
    obtain ⟨c, hc⟩ := Option.isSome_iff_exists.mp (h b (List.mem_cons_self ..))
    cases k with
    | zero => simp [hc]
    | succ k =>
      simp only [List.filterMap_cons, hc, List.getElem?_cons_succ]
      exact ih (fun b hb => h b (List.mem_cons_of_mem _ hb)) k

theorem Sound.isSome_of_full {s : Slots α} (h : s.Sound) :
    ∀ i ∈ s.full, (s.cells[i]?.join).isSome := by
  intro i hi
  obtain ⟨x, hx⟩ := h.cell_of_full hi
  simp [hx]

/-- Filling a cell appends the value. -/
theorem values_of_fill {s s' : Slots α} {x : α} (h : s.Sound) (hs : s.fill x = .ok s') :
    s'.values = s.values ++ [x] := by
  cases hf : s.free with
  | nil => simp [fill, hf] at hs
  | cons i free =>
    rw [fill_of_sound h hf x] at hs
    simp only [Except.ok.injEq] at hs
    subst hs
    have hi : i ∈ s.free := by rw [hf]; exact List.mem_cons_self ..
    have hlt := h.lt_of_free hi
    have hnot := h.not_full_of_free hi
    simp only [values, List.filterMap_append]
    congr 1
    · refine filterMap_agree fun j hj => ?_
      have hij : i ≠ j := fun e => hnot (e ▸ hj)
      rw [Array.getElem?_setIfInBounds_ne hij]
    · simp [hlt]

/-- Draining position `k` takes the `k`-th value and leaves the others in order. -/
theorem values_of_drain {s s' : Slots α} {k : Nat} {x : α} (h : s.Sound)
    (hs : s.drain k = .ok (x, s')) :
    s.values[k]? = some x ∧ s'.values = s.values.eraseIdx k := by
  cases hk : s.full[k]? with
  | none => simp [drain, hk] at hs
  | some i =>
    obtain ⟨y, hy, hd⟩ := drain_of_sound h hk
    rw [hd] at hs
    simp only [Except.ok.injEq, Prod.mk.injEq] at hs
    obtain ⟨rfl, rfl⟩ := hs
    obtain ⟨hlen, hget⟩ := List.getElem?_eq_some_iff.mp hk
    have hperm : (i :: s.full.eraseIdx k).Perm s.full := by
      rw [← hget]; exact perm_eraseIdx hlen
    have hnot := (List.nodup_cons.mp
      (hperm.nodup_iff.mpr (List.nodup_append.mp h.nodup).2.1)).1
    constructor
    · simp only [values, filterMap_getElem? h.isSome_of_full, hk, hy, Option.bind_some,
        Option.join_some]
    · simp only [values]
      rw [← filterMap_eraseIdx h.isSome_of_full]
      refine filterMap_agree fun j hj => ?_
      have hij : i ≠ j := fun e => hnot (e ▸ hj)
      rw [Array.getElem?_setIfInBounds_ne hij]

theorem Sound.length_values {s : Slots α} (h : s.Sound) : s.values.length = s.full.length := by
  unfold values
  have := h.isSome_of_full
  generalize s.full = l at this
  induction l with
  | nil => rfl
  | cons i l ih =>
    obtain ⟨c, hc⟩ := Option.isSome_iff_exists.mp (this i (List.mem_cons_self ..))
    simp only [List.filterMap_cons, hc, List.length_cons]
    rw [ih fun b hb => this b (List.mem_cons_of_mem _ hb)]

theorem Sound.length_free_add {s : Slots α} (h : s.Sound) :
    s.free.length + s.full.length = s.cells.size := by
  have := h.partition.length_eq
  simpa using this

theorem size_of_fill {s s' : Slots α} {x : α} (hs : s.fill x = .ok s') :
    s'.cells.size = s.cells.size := by
  unfold fill at hs
  split at hs
  · simp at hs
  · split at hs
    · simp only [Except.ok.injEq] at hs; subst hs; simp
    · simp at hs

theorem size_of_drain {s s' : Slots α} {k : Nat} {x : α} (hs : s.drain k = .ok (x, s')) :
    s'.cells.size = s.cells.size := by
  unfold drain at hs
  split at hs
  · simp at hs
  · split at hs
    · simp only [Except.ok.injEq, Prod.mk.injEq] at hs; obtain ⟨-, rfl⟩ := hs; simp
    · simp at hs

end Slots

end Dataflow
