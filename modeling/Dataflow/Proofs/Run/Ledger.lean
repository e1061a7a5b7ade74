import Mathlib.Data.List.Nodup
import Mathlib.Data.List.Range
import Mathlib.Data.List.Perm.Subperm
import Dataflow.Run.Table

/-!
# Slots and runs

The table of runs knows a run by the slot that it holds, and shows it there until the
next one. `Ledger` ties the table to the list of all runs that were accepted: which of
them were launched, in the order of acceptance, and which wait in the backlog.

An admission and a completion are made of three moves. A run is put on the backlog
(`Table.enqueue`), the oldest run of the backlog is launched into a free slot
(`Table.promote`), and a run gives its slot back (`Table.retire`). A submission that finds
a free slot does the first two at once, and a completion that finds a run waiting the
last two, `Ledger.submit_eq` and `Ledger.complete_eq`. So each move is looked at once.

A slot can be found by the run that it shows, `Ledger.slotOf?_eq`, because the slots
that were never used lie behind all others: they stay at the bottom of the stack of free
slots.
-/

namespace Dataflow

/-- What is known of a run that was accepted: what was staged for it, and the cell of
its future. Its number is its position among all of them. -/
structure Request (α : Type) where
  inputs : Staged α
  cell : CellId

namespace Table

variable {α : Type}

/-- The run holds the slot, where this is its bookkeeping. -/
def Holds (t : Table α) (slot : SlotId) (run : ObjectId) (s : RunStatus α) : Prop :=
  t.statuses[slot]? = some s ∧ s.objectId = run ∧ s.cell.isSome = true

/-- The run holds some slot. -/
def InFlight (t : Table α) (run : ObjectId) : Prop :=
  ∃ slot s, t.Holds slot run s

/-- Puts a run on the backlog. -/
def enqueue (t : Table α) (r : Request α) : Table α :=
  { t with backlog := t.backlog ++ [⟨t.nextId, r.inputs, r.cell⟩], nextId := t.nextId + 1 }

/-- The bookkeeping of a run that has just been launched. -/
def fresh (t : Table α) (run : ObjectId) (cell : CellId) : RunStatus α where
  objectId := run
  remainingDeps := t.inDegrees
  remainingSinks := t.sinkCount
  cell := some cell

/-- Launches the oldest run of the backlog into the free slot on top of the stack. -/
def promote (t : Table α) : Table α :=
  match t.backlog, t.free with
  | next :: backlog, slot :: free => { t with
      statuses := t.statuses.setIfInBounds slot (t.fresh next.objectId next.cell)
      free
      backlog
      inFlight := t.inFlight + 1 }
  | _, _ => t

/-- Takes the slot from a run that is over. -/
def retire (t : Table α) (slot : SlotId) (s : RunStatus α) : Table α :=
  { t with
    statuses := t.statuses.setIfInBounds slot { s with error := none, outputs := [], cell := none }
    free := slot :: t.free
    inFlight := t.inFlight - 1 }

/-- Slots from `used` on were never used; all others show different runs. -/
structure Shown (t : Table α) (depth launched used : Nat) : Prop where
  le : used ≤ depth
  free_eq : ∃ stack, t.free = stack ++ List.range' used (depth - used) ∧ ∀ σ ∈ stack, σ < used
  lt : ∀ {σ s}, σ < used → t.statuses[σ]? = some s → s.objectId < launched
  inj : ∀ {σ τ s s'}, σ < used → τ < used → t.statuses[σ]? = some s → t.statuses[τ]? = some s' →
    s.objectId = s'.objectId → σ = τ

/-- **The table and the accepted runs.** The runs below `launched` have got a slot, and
the backlog is made of the following ones, unless it was cancelled. -/
structure Ledger (t : Table α) (depth launched : Nat) (requests : List (Request α)) : Prop where
  size : t.statuses.size = depth
  shown : ∃ used, t.Shown depth launched used
  nodup_free : t.free.Nodup
  mem_free : ∀ σ, σ ∈ t.free ↔ ∃ s, t.statuses[σ]? = some s ∧ s.cell = none
  inFlight_add : t.inFlight + t.free.length = depth
  launched_le : launched ≤ requests.length
  held : ∀ {σ r s}, t.Holds σ r s → r < launched ∧ ∃ q, requests[r]? = some q ∧ s.cell = some q.cell
  nextId_eq : t.nextId = requests.length
  backlog_ids : t.backlog.map (·.objectId) = List.range' launched t.backlog.length
  backlog_mem : ∀ {p}, p ∈ t.backlog → requests[p.objectId]? = some ⟨p.inputs, p.cell⟩
  backlog_all : t.isClosed = false → launched + t.backlog.length = requests.length
  closed : t.isClosed = true → t.backlog = []

namespace Ledger

variable {t : Table α} {depth launched : Nat} {requests : List (Request α)}

/-! ### Reading the table -/

theorem lt_of_holds (h : t.Ledger depth launched requests) {σ : SlotId} {r : ObjectId}
    {s : RunStatus α} (hs : t.Holds σ r s) : σ < depth :=
  h.size ▸ (Array.getElem?_eq_some_iff.mp hs.1).1

theorem not_free (h : t.Ledger depth launched requests) {σ : SlotId} {r : ObjectId}
    {s : RunStatus α} (hs : t.Holds σ r s) : σ ∉ t.free := by
  intro hf
  obtain ⟨s', hs', hc⟩ := (h.mem_free σ).mp hf
  obtain rfl : s = s' := by simpa [hs.1] using hs'
  simpa [hc] using hs.2.2

theorem Shown.lt_used {used σ : Nat} (h : t.Shown depth launched used) (hσ : σ < depth)
    (hf : σ ∉ t.free) : σ < used := by
  obtain ⟨stack, hstack, -⟩ := h.free_eq
  by_contra hge
  refine hf ?_
  rw [hstack]
  exact List.mem_append_right _ (List.mem_range'_1.mpr ⟨Nat.not_lt.mp hge, by have := h.le; omega⟩)

/-- A run holds one slot only. -/
theorem slot_unique (h : t.Ledger depth launched requests) {σ τ : SlotId} {r : ObjectId}
    {s s' : RunStatus α} (hs : t.Holds σ r s) (hs' : t.Holds τ r s') : σ = τ := by
  obtain ⟨used, hu⟩ := h.shown
  exact hu.inj (Shown.lt_used hu (h.lt_of_holds hs) (h.not_free hs))
    (Shown.lt_used hu (h.lt_of_holds hs') (h.not_free hs')) hs.1 hs'.1
    (hs.2.1.trans hs'.2.1.symm)

theorem run_unique {σ : SlotId} {r r' : ObjectId} {s s' : RunStatus α}
    (hs : t.Holds σ r s) (hs' : t.Holds σ r' s') : r = r' := by
  obtain rfl : s = s' := by simpa [hs.1] using hs'.1
  exact hs.2.1.symm.trans hs'.2.1

/-- **The slot of a run is found.** -/
theorem slotOf?_eq (h : t.Ledger depth launched requests) {σ : SlotId} {r : ObjectId}
    {s : RunStatus α} (hs : t.Holds σ r s) : t.slotOf? r = some σ := by
  obtain ⟨used, hu⟩ := h.shown
  have hσ := Shown.lt_used hu (h.lt_of_holds hs) (h.not_free hs)
  obtain ⟨hlt, hget⟩ := Array.getElem?_eq_some_iff.mp hs.1
  refine Array.findIdx?_eq_some_iff_getElem.mpr ⟨hlt, ?_, ?_⟩
  · simp [hget, hs.2.1]
  · intro τ hτ
    have hτs : t.statuses[τ]? = some (t.statuses[τ]) :=
      Array.getElem?_eq_getElem _
    intro he
    have := hu.inj (Nat.lt_trans hτ hσ) hσ hτs hs.1 (by simpa [hs.2.1] using he)
    omega

theorem free_lt (h : t.Ledger depth launched requests) {σ : SlotId} (hσ : σ ∈ t.free) :
    σ < depth := by
  obtain ⟨s, hs, -⟩ := (h.mem_free σ).mp hσ
  exact h.size ▸ (Array.getElem?_eq_some_iff.mp hs).1

/-- No more runs are in flight than are counted. -/
theorem length_le_inFlight (h : t.Ledger depth launched requests) {runs : List ObjectId}
    (hn : runs.Nodup) (hr : ∀ r ∈ runs, t.InFlight r) : runs.length ≤ t.inFlight := by
  let slot (r : ObjectId) : SlotId := (t.slotOf? r).getD 0
  have hslot : ∀ r ∈ runs, ∃ s, t.Holds (slot r) r s := by
    intro r hmem
    obtain ⟨σ, s, hs⟩ := hr r hmem
    exact ⟨s, by simpa [slot, h.slotOf?_eq hs] using hs⟩
  -- the slots that the runs hold are different, and none of them is free
  have hnd : (runs.map slot ++ t.free).Nodup := by
    refine List.nodup_append.mpr ⟨?_, h.nodup_free, ?_⟩
    · refine hn.map_on fun r hmem r' hmem' he => ?_
      obtain ⟨s, hs⟩ := hslot r hmem
      obtain ⟨s', hs'⟩ := hslot r' hmem'
      exact run_unique hs (he ▸ hs')
    · rintro σ hσ τ hτ rfl
      obtain ⟨r, hmem, rfl⟩ := List.mem_map.mp hσ
      obtain ⟨s, hs⟩ := hslot r hmem
      exact h.not_free hs hτ
  have hsub : runs.map slot ++ t.free ⊆ List.range depth := by
    intro σ hσ
    rcases List.mem_append.mp hσ with hσ | hσ
    · obtain ⟨r, hmem, rfl⟩ := List.mem_map.mp hσ
      obtain ⟨s, hs⟩ := hslot r hmem
      exact List.mem_range.mpr (h.lt_of_holds hs)
    · exact List.mem_range.mpr (h.free_lt hσ)
  have hle := (List.subperm_of_subset hnd hsub).length_le
  rw [List.length_append, List.length_map, List.length_range] at hle
  have hadd := h.inFlight_add
  omega

/-- No more runs are in flight than there are slots. -/
theorem length_le (h : t.Ledger depth launched requests) {runs : List ObjectId}
    (hn : runs.Nodup) (hr : ∀ r ∈ runs, t.InFlight r) : runs.length ≤ depth := by
  have hle := h.length_le_inFlight hn hr
  have hadd := h.inFlight_add
  omega

/-- **The count of runs in flight** is zero exactly if no run holds a slot. -/
theorem inFlight_eq_zero (h : t.Ledger depth launched requests) :
    t.inFlight = 0 ↔ ∀ r, ¬ t.InFlight r := by
  have hsub : t.free ⊆ List.range depth := fun σ hσ => List.mem_range.mpr (h.free_lt hσ)
  have hadd := h.inFlight_add
  constructor
  · rintro hz r ⟨σ, s, hs⟩
    have hperm := (List.subperm_of_subset h.nodup_free hsub).perm_of_length_le
      (by rw [List.length_range]; omega)
    exact h.not_free hs (hperm.mem_iff.mpr (List.mem_range.mpr (h.lt_of_holds hs)))
  · intro hno
    have hsub' : List.range depth ⊆ t.free := by
      intro σ hσ
      have hlt : σ < t.statuses.size := h.size ▸ List.mem_range.mp hσ
      refine (h.mem_free σ).mpr ⟨t.statuses[σ], Array.getElem?_eq_getElem hlt, ?_⟩
      by_contra hc
      exact hno _ ⟨σ, _, Array.getElem?_eq_getElem hlt, rfl, Option.isSome_iff_ne_none.mpr hc⟩
    have := (List.subperm_of_subset List.nodup_range hsub').length_le
    rw [List.length_range] at this
    omega

theorem inFlight_pos (h : t.Ledger depth launched requests) {r : ObjectId} (hr : t.InFlight r) :
    0 < t.inFlight := by
  refine Nat.pos_of_ne_zero fun hz => ?_
  exact (h.inFlight_eq_zero.mp hz) r hr

theorem lt_launched (h : t.Ledger depth launched requests) {r : ObjectId} (hr : t.InFlight r) :
    r < launched := by
  obtain ⟨σ, s, hs⟩ := hr
  exact (h.held hs).1

/-- The oldest run of the backlog is the next one to be launched. -/
theorem head_backlog (h : t.Ledger depth launched requests) {next : Pending α}
    {backlog : List (Pending α)} (hb : t.backlog = next :: backlog) :
    next.objectId = launched ∧ requests[launched]? = some ⟨next.inputs, next.cell⟩ ∧
      t.isClosed = false := by
  have hids := h.backlog_ids
  rw [hb, List.map_cons, List.length_cons, List.range'_succ] at hids
  have hid : next.objectId = launched := (List.cons.inj hids).1
  refine ⟨hid, hid ▸ h.backlog_mem (by rw [hb]; exact List.mem_cons_self ..), ?_⟩
  rw [← Bool.not_eq_true]
  intro hc
  simp [h.closed hc] at hb

/-! ### The moves -/

theorem enqueue (h : t.Ledger depth launched requests) (hc : t.isClosed = false)
    (q : Request α) : (t.enqueue q).Ledger depth launched (requests ++ [q]) := by
  have hall := h.backlog_all hc
  obtain ⟨used, hu⟩ := h.shown
  refine { h with
    shown := ⟨used, hu.le, hu.free_eq, hu.lt, hu.inj⟩
    launched_le := ?_
    held := ?_
    nextId_eq := ?_
    backlog_ids := ?_
    backlog_mem := ?_
    backlog_all := ?_
    closed := ?_ }
  · rw [List.length_append]
    exact Nat.le_add_right_of_le h.launched_le
  · intro σ r s hs
    obtain ⟨hr, q', hq', hcell⟩ := h.held hs
    have hlt := (List.getElem?_eq_some_iff.mp hq').1
    exact ⟨hr, q', by rw [List.getElem?_append_left hlt, hq'], hcell⟩
  · simp [Table.enqueue, h.nextId_eq]
  · simp only [Table.enqueue, List.map_append, List.map_cons, List.map_nil, List.length_append,
      List.length_cons, List.length_nil, Nat.zero_add, h.backlog_ids, List.range'_concat,
      h.nextId_eq, Nat.one_mul, hall]
  · intro p hp
    rcases List.mem_append.mp hp with hp | hp
    · have := h.backlog_mem hp
      rw [List.getElem?_append_left (List.getElem?_eq_some_iff.mp this).1, this]
    · obtain rfl := List.mem_singleton.mp hp
      simp [h.nextId_eq]
  · intro _
    simp only [Table.enqueue, List.length_append, List.length_singleton]
    omega
  · intro hcl
    exact absurd hcl (by simp [Table.enqueue, hc])

/-- Changing the bookkeeping of a slot, but neither its run nor its cell. -/
theorem modifyStatus (h : t.Ledger depth launched requests) (σ : SlotId)
    {f : RunStatus α → RunStatus α}
    (hf : ∀ s, (f s).objectId = s.objectId ∧ (f s).cell = s.cell) :
    (t.modifyStatus σ f).Ledger depth launched requests := by
  -- what a slot shows now, it has shown before
  have hget : ∀ {τ : SlotId} {s' : RunStatus α}, (t.modifyStatus σ f).statuses[τ]? = some s' →
      ∃ s, t.statuses[τ]? = some s ∧ s'.objectId = s.objectId ∧ s'.cell = s.cell := by
    intro τ s' hs'
    simp only [Table.modifyStatus, Array.getElem?_modify] at hs'
    split at hs'
    · obtain ⟨s, hs, rfl⟩ := Option.map_eq_some_iff.mp hs'
      exact ⟨s, hs, hf s⟩
    · exact ⟨s', hs', rfl, rfl⟩
  refine { h with
    size := ?_
    shown := ?_
    mem_free := ?_
    held := ?_ }
  · simp [Table.modifyStatus, h.size]
  · obtain ⟨used, hu⟩ := h.shown
    refine ⟨used, hu.le, hu.free_eq, ?_, ?_⟩
    · intro τ s' hτ hs'
      obtain ⟨s, hs, hid, -⟩ := hget hs'
      exact hid ▸ hu.lt hτ hs
    · intro τ τ' s s' hτ hτ' hs hs' he
      obtain ⟨s₁, hs₁, hid₁, -⟩ := hget hs
      obtain ⟨s₂, hs₂, hid₂, -⟩ := hget hs'
      exact hu.inj hτ hτ' hs₁ hs₂ (by rw [← hid₁, ← hid₂, he])
  · intro τ
    rw [show (t.modifyStatus σ f).free = t.free from rfl, h.mem_free]
    constructor
    · rintro ⟨s, hs, hc⟩
      simp only [Table.modifyStatus, Array.getElem?_modify, hs]
      split
      · exact ⟨f s, rfl, (hf s).2.trans hc⟩
      · exact ⟨s, rfl, hc⟩
    · rintro ⟨s', hs', hc⟩
      obtain ⟨s, hs, -, hcell⟩ := hget hs'
      exact ⟨s, hs, hcell ▸ hc⟩
  · intro τ r s' hs'
    obtain ⟨s, hs, hid, hcell⟩ := hget hs'.1
    obtain ⟨hr, q, hq, hc⟩ := h.held (r := r) ⟨hs, hid ▸ hs'.2.1, hcell ▸ hs'.2.2⟩
    exact ⟨hr, q, hq, hcell ▸ hc⟩

/-- **A run gives its slot back.** -/
theorem retire (h : t.Ledger depth launched requests) {σ : SlotId} {r : ObjectId}
    {s : RunStatus α} (hs : t.Holds σ r s) :
    (t.retire σ s).Ledger depth launched requests := by
  have hσ := h.lt_of_holds hs
  -- the slot goes on to show the run, but only others have a cell
  have hget : ∀ {τ : SlotId} {s' : RunStatus α}, (t.retire σ s).statuses[τ]? = some s' →
      ∃ s₀, t.statuses[τ]? = some s₀ ∧ s'.objectId = s₀.objectId ∧ (τ ≠ σ → s' = s₀) := by
    intro τ s' hs'
    simp only [Table.retire, Array.getElem?_setIfInBounds] at hs'
    split at hs'
    · next he =>
      subst he
      split at hs'
      · exact ⟨s, hs.1, by rw [← Option.some.inj hs'], fun hne => absurd rfl hne⟩
      · simp at hs'
    · exact ⟨s', hs', rfl, fun _ => rfl⟩
  have hat : (t.retire σ s).statuses[σ]? =
      some { s with error := none, outputs := [], cell := none } := by
    have hlt := (Array.getElem?_eq_some_iff.mp hs.1).1
    simp [Table.retire, hlt]
  refine { h with
    size := ?_
    shown := ?_
    nodup_free := List.nodup_cons.mpr ⟨h.not_free hs, h.nodup_free⟩
    mem_free := ?_
    inFlight_add := ?_
    held := ?_ }
  · simp [Table.retire, h.size]
  · obtain ⟨used, hu⟩ := h.shown
    obtain ⟨stack, hstack, hlt⟩ := hu.free_eq
    have hσu := Shown.lt_used hu hσ (h.not_free hs)
    refine ⟨used, hu.le, ⟨σ :: stack, by simp [Table.retire, hstack], ?_⟩, ?_, ?_⟩
    · intro τ hτ
      rcases List.mem_cons.mp hτ with rfl | hτ
      · exact hσu
      · exact hlt τ hτ
    · intro τ s' hτ hs'
      obtain ⟨s₀, hs₀, hid, -⟩ := hget hs'
      exact hid ▸ hu.lt hτ hs₀
    · intro τ τ' s₁ s₂ hτ hτ' hs₁ hs₂ he
      obtain ⟨u₁, hu₁, hid₁, -⟩ := hget hs₁
      obtain ⟨u₂, hu₂, hid₂, -⟩ := hget hs₂
      exact hu.inj hτ hτ' hu₁ hu₂ (by rw [← hid₁, ← hid₂, he])
  · intro τ
    rw [show (t.retire σ s).free = σ :: t.free from rfl, List.mem_cons]
    by_cases hτ : τ = σ
    · subst hτ
      exact iff_of_true (Or.inl rfl) ⟨_, hat, rfl⟩
    · have hne : (t.retire σ s).statuses[τ]? = t.statuses[τ]? := by
        simp [Table.retire, Ne.symm hτ]
      rw [hne, ← h.mem_free]
      simp [hτ]
  -- the count does not go below zero
  · have hpos := h.inFlight_pos ⟨σ, s, hs⟩
    have := h.inFlight_add
    simp only [Table.retire, List.length_cons]
    omega
  · intro τ r' s' hs'
    obtain ⟨s₀, hs₀, hid, hsame⟩ := hget hs'.1
    have hτ : τ ≠ σ := by
      rintro rfl
      obtain rfl := Option.some.inj (hat.symm.trans hs'.1)
      simpa using hs'.2.2
    obtain rfl := hsame hτ
    exact h.held ⟨hs₀, hs'.2⟩

theorem holds_retire (h : t.Ledger depth launched requests) {σ : SlotId} {r : ObjectId}
    {s : RunStatus α} (hs : t.Holds σ r s) {τ : SlotId} {r' : ObjectId} {s' : RunStatus α} :
    (t.retire σ s).Holds τ r' s' ↔ t.Holds τ r' s' ∧ r' ≠ r := by
  have hlt := (Array.getElem?_eq_some_iff.mp hs.1).1
  by_cases hτ : τ = σ
  · subst hτ
    constructor
    · intro h'
      have hat := h'.1
      simp only [Table.retire, Array.getElem?_setIfInBounds, hlt, if_true, Option.some.injEq] at hat
      have := h'.2.2
      simp [← hat] at this
    · rintro ⟨h', hne⟩
      exact absurd (run_unique h' hs) hne
  · have hne : (t.retire σ s).statuses[τ]? = t.statuses[τ]? := by
      simp [Table.retire, Ne.symm hτ]
    unfold Holds
    rw [hne]
    constructor
    · intro h'
      exact ⟨h', fun he => hτ (h.slot_unique h' (he ▸ hs))⟩
    · exact fun h' => h'.1

theorem promote_eq {next : Pending α} {backlog : List (Pending α)} {σ : SlotId}
    {free : List SlotId} (hb : t.backlog = next :: backlog) (hf : t.free = σ :: free) :
    t.promote = { t with
      statuses := t.statuses.setIfInBounds σ (t.fresh next.objectId next.cell)
      free
      backlog
      inFlight := t.inFlight + 1 } := by
  simp only [Table.promote, hb, hf]

/-- The slot that is used next is one of those that were used, or the first one that was
not. -/
theorem Shown.next {used : Nat} (h : t.Shown depth launched used) {σ : Nat} {free : List Nat}
    (hf : t.free = σ :: free) : ∃ used', used' ≤ depth ∧
      (∃ stack, free = stack ++ List.range' used' (depth - used') ∧ ∀ τ ∈ stack, τ < used') ∧
      ∀ τ, τ < used' → τ ≠ σ → τ < used := by
  obtain ⟨stack, hstack, hlt⟩ := h.free_eq
  have hle := h.le
  rw [hf] at hstack
  cases stack with
  | cons τ stack =>
    obtain ⟨-, hfree⟩ := List.cons.inj hstack
    exact ⟨used, hle, ⟨stack, hfree, fun τ' hτ' => hlt τ' (List.mem_cons_of_mem _ hτ')⟩,
      fun _ hτ _ => hτ⟩
  | nil =>
    cases hd : depth - used with
    | zero => simp [hd] at hstack
    | succ n =>
      rw [hd, List.nil_append, List.range'_succ] at hstack
      obtain ⟨hσ, hfree⟩ := List.cons.inj hstack
      refine ⟨used + 1, by omega, ⟨[], ?_, by simp⟩, fun τ hτ hne => by omega⟩
      rw [hfree, List.nil_append]
      congr 1
      omega

/-- **The oldest run of the backlog gets a slot.** -/
theorem promote (h : t.Ledger depth launched requests) {next : Pending α}
    {backlog : List (Pending α)} {σ : SlotId} {free : List SlotId}
    (hb : t.backlog = next :: backlog) (hf : t.free = σ :: free) :
    t.promote.Ledger depth (launched + 1) requests := by
  obtain ⟨hid, hreq, hopen⟩ := h.head_backlog hb
  have hσd : σ < depth := h.free_lt (by rw [hf]; exact List.mem_cons_self ..)
  have hσs : σ < t.statuses.size := h.size ▸ hσd
  have hnd := h.nodup_free
  rw [hf] at hnd
  obtain ⟨hσf, hndf⟩ := List.nodup_cons.mp hnd
  rw [promote_eq hb hf]
  -- what a slot shows now
  have hget : ∀ {τ : SlotId} {s' : RunStatus α},
      (t.statuses.setIfInBounds σ (t.fresh next.objectId next.cell))[τ]? = some s' →
      (τ = σ ∧ s' = t.fresh next.objectId next.cell) ∨ (τ ≠ σ ∧ t.statuses[τ]? = some s') := by
    intro τ s' hs'
    rw [Array.getElem?_setIfInBounds] at hs'
    split at hs'
    · next he =>
      subst he
      exact Or.inl ⟨rfl, (Option.some.inj hs').symm⟩
    · next hne => exact Or.inr ⟨Ne.symm hne, hs'⟩
  constructor
  · simp [h.size]
  · obtain ⟨used, hu⟩ := h.shown
    obtain ⟨used', hle, hfree, hback⟩ := Shown.next hu hf
    refine ⟨used', hle, hfree, ?_, ?_⟩
    -- the launched run is younger than all that other slots show
    · intro τ s' hτ hs'
      rcases hget hs' with ⟨-, rfl⟩ | ⟨hne, hs'⟩
      · exact hid ▸ Nat.lt_succ_self _
      · exact Nat.lt_succ_of_lt (hu.lt (hback τ hτ hne) hs')
    · intro τ τ' s₁ s₂ hτ hτ' hs₁ hs₂ he
      rcases hget hs₁ with ⟨hτσ, rfl⟩ | ⟨hne, hold⟩ <;>
        rcases hget hs₂ with ⟨hτσ', rfl⟩ | ⟨hne', hold'⟩
      · rw [hτσ, hτσ']
      · exact absurd (he.symm.trans hid) (Nat.ne_of_lt (hu.lt (hback τ' hτ' hne') hold'))
      · exact absurd (he.trans hid) (Nat.ne_of_lt (hu.lt (hback τ hτ hne) hold))
      · exact hu.inj (hback τ hτ hne) (hback τ' hτ' hne') hold hold' he
  · exact hndf
  · intro τ
    by_cases hτ : τ = σ
    · subst hτ
      refine iff_of_false hσf ?_
      rintro ⟨s', hs', hc⟩
      rcases hget hs' with ⟨-, rfl⟩ | ⟨hne, -⟩
      · simp [fresh] at hc
      · exact hne rfl
    · have hmem := h.mem_free τ
      rw [hf, List.mem_cons] at hmem
      rw [Array.getElem?_setIfInBounds_ne (Ne.symm hτ), ← hmem]
      simp [hτ]
  · have := h.inFlight_add
    rw [hf, List.length_cons] at this
    show t.inFlight + 1 + free.length = depth
    omega
  · exact (List.getElem?_eq_some_iff.mp hreq).1
  · intro τ r s' hs'
    rcases hget hs'.1 with ⟨rfl, rfl⟩ | ⟨hne, hs⟩
    · obtain rfl : launched = r := hid.symm.trans hs'.2.1
      exact ⟨Nat.lt_succ_self _, _, hreq, rfl⟩
    · obtain ⟨hr, hq⟩ := h.held ⟨hs, hs'.2⟩
      exact ⟨Nat.lt_succ_of_lt hr, hq⟩
  · exact h.nextId_eq
  · have hids := h.backlog_ids
    rw [hb, List.map_cons, List.length_cons, List.range'_succ] at hids
    exact (List.cons.inj hids).2
  · intro p hp
    exact h.backlog_mem (by rw [hb]; exact List.mem_cons_of_mem _ hp)
  · intro hc
    have := h.backlog_all hc
    rw [hb, List.length_cons] at this
    show launched + 1 + backlog.length = requests.length
    omega
  · intro hc
    exact absurd (hc.symm.trans hopen) (by simp)

/-- A launched run holds the slot that was free, and all others hold theirs. -/
theorem holds_promote (h : t.Ledger depth launched requests) {next : Pending α}
    {backlog : List (Pending α)} {σ : SlotId} {free : List SlotId}
    (hb : t.backlog = next :: backlog) (hf : t.free = σ :: free) {τ : SlotId} {r : ObjectId}
    {s : RunStatus α} : t.promote.Holds τ r s ↔
      t.Holds τ r s ∨ (τ = σ ∧ r = launched ∧ s = t.fresh launched next.cell) := by
  obtain ⟨hid, -, -⟩ := h.head_backlog hb
  have hmem : σ ∈ t.free := by rw [hf]; exact List.mem_cons_self ..
  have hσs : σ < t.statuses.size := h.size ▸ h.free_lt hmem
  rw [promote_eq hb hf]
  unfold Holds
  simp only
  by_cases hτ : τ = σ
  · subst hτ
    simp only [Array.getElem?_setIfInBounds, if_true, hσs, hid, Option.some.injEq, true_and]
    constructor
    · rintro ⟨rfl, rfl, -⟩
      exact Or.inr ⟨rfl, rfl⟩
    · rintro (hold | ⟨rfl, rfl⟩)
      · exact absurd hmem (h.not_free hold)
      · exact ⟨rfl, rfl, rfl⟩
  · rw [Array.getElem?_setIfInBounds_ne (Ne.symm hτ)]
    simp [hτ]

/-- No run waits any more once the table is closed. -/
theorem close (h : t.Ledger depth launched requests) :
    t.close.1.Ledger depth launched requests := by
  obtain ⟨used, hu⟩ := h.shown
  exact { h with
    shown := ⟨used, hu.le, hu.free_eq, hu.lt, hu.inj⟩
    backlog_ids := rfl
    backlog_mem := fun hp => by simp [Table.close] at hp
    backlog_all := fun hc => by simp [Table.close] at hc
    closed := fun _ => rfl }

/-! ### Submission and completion -/

theorem launch_eq {σ : SlotId} {s : RunStatus α} (hs : t.statuses[σ]? = some s)
    (hc : s.cell = none) (r : ObjectId) (cell : CellId) :
    t.launch σ r cell = .ok { t with
      statuses := t.statuses.setIfInBounds σ (t.fresh r cell)
      inFlight := t.inFlight + 1 } := by
  simp [Table.launch, hs, RunStatus.reset, hc, fresh]

/-- **A submission** puts a run on the backlog, and launches it if a slot is free. -/
theorem submit_eq (h : t.Ledger depth launched requests) (hopen : t.isClosed = false)
    (hcrowd : t.backlog ≠ [] → t.free = []) (q : Request α) :
    t.submit q.inputs q.cell =
      match t.free with
      | σ :: _ => .admitted (t.enqueue q).promote ⟨σ, t.nextId, q.inputs⟩
      | [] =>
        if t.backlogCapacity ≤ t.backlog.length then .refused (.backlogFull t.backlogCapacity)
        else .queued (t.enqueue q) t.nextId := by
  unfold Table.submit
  rw [if_neg (by simp [hopen])]
  cases hf : t.free with
  | nil => simp [Table.enqueue, hf]
  | cons σ free =>
    have hb : t.backlog = [] := by
      by_contra hne
      simp [hcrowd hne] at hf
    obtain ⟨s, hs, hc⟩ := (h.mem_free σ).mp (by rw [hf]; exact List.mem_cons_self ..)
    have hbq : (t.enqueue q).backlog = ⟨t.nextId, q.inputs, q.cell⟩ :: [] := by
      simp [Table.enqueue, hb]
    rw [promote_eq hbq (show (t.enqueue q).free = σ :: free from hf)]
    simp only
    rw [launch_eq (t := { t with free, nextId := t.nextId + 1 }) hs hc]
    simp [Table.enqueue, fresh, hb]

/-- **A completion** takes the outcome of a run and its slot, and launches the oldest run
of the backlog. -/
theorem complete_eq (h : t.Ledger depth launched requests) {σ : SlotId} {r : ObjectId}
    {s : RunStatus α} (hs : t.Holds σ r s) {cell : CellId} (hc : s.cell = some cell) :
    t.complete σ = (.ok ⟨s.error.elim (.ok (.ofOutputs r s.outputs.reverse))
        (fun e => .error (.execution e)), cell,
        t.backlog.head?.map fun p => ⟨σ, p.objectId, p.inputs⟩⟩,
      match t.backlog with
      | [] => t.retire σ s
      | _ :: _ => (t.retire σ s).promote) := by
  have hlt := (Array.getElem?_eq_some_iff.mp hs.1).1
  obtain ⟨n, hn⟩ := Nat.exists_eq_add_of_lt (h.inFlight_pos ⟨σ, s, hs⟩)
  have hn' : t.inFlight = n + 1 := by omega
  unfold Table.complete
  simp only [hs.1, RunStatus.takeOutcome, hc, hn', hs.2.1]
  cases hb : t.backlog with
  | nil =>
    cases he : s.error <;> simp [Table.retire, hn', hs.2.1, hb]
  | cons next backlog =>
    have hbr : (t.retire σ s).backlog = next :: backlog := hb
    rw [promote_eq hbr (show (t.retire σ s).free = σ :: t.free from rfl)]
    simp only
    rw [launch_eq (s := { s with error := none, outputs := [], cell := none })
      (by simp [hlt, hs.2.1]) rfl]
    cases he : s.error <;> simp [Table.retire, hn', hs.2.1, fresh]

end Ledger

/-! ### One run at a time -/

/-- Slots are in the same hands, and the same runs wait. -/
structure SameRuns (t t' : Table α) : Prop where
  backlog : t'.backlog = t.backlog
  free : t'.free = t.free
  isClosed : t'.isClosed = t.isClosed
  inFlight : ∀ r, t'.InFlight r ↔ t.InFlight r

theorem SameRuns.refl (t : Table α) : t.SameRuns t := ⟨rfl, rfl, rfl, fun _ => Iff.rfl⟩

section Amends

variable {t t' : Table α}

/-- The bookkeeping of one run is replaced, and nothing else. -/
structure Amends (t t' : Table α) (slot : SlotId) (run : ObjectId) (s : RunStatus α) : Prop where
  same : t' = { t with statuses := t'.statuses }
  holds : ∀ {τ r s'}, t'.Holds τ r s' ↔
    (r ≠ run ∧ t.Holds τ r s') ∨ (τ = slot ∧ r = run ∧ s' = s)
  ledger : ∀ {depth launched requests}, t.Ledger depth launched requests →
    t'.Ledger depth launched requests

variable {σ : SlotId} {r : ObjectId} {s : RunStatus α} {depth launched : Nat}
  {requests : List (Request α)}

theorem Ledger.amends_refl (h : t.Ledger depth launched requests) (hs : t.Holds σ r s) :
    t.Amends t σ r s where
  same := rfl
  holds := by
    intro τ r' s'
    constructor
    · intro h'
      by_cases hr : r' = r
      · subst hr
        obtain rfl := h.slot_unique h' hs
        exact Or.inr ⟨rfl, rfl, Option.some.inj (h'.1.symm.trans hs.1)⟩
      · exact Or.inl ⟨hr, h'⟩
    · rintro (⟨-, h'⟩ | ⟨rfl, rfl, rfl⟩)
      · exact h'
      · exact hs
  ledger := fun h => h

theorem Ledger.amends_modify (h : t.Ledger depth launched requests) (hs : t.Holds σ r s)
    {f : RunStatus α → RunStatus α}
    (hf : ∀ s, (f s).objectId = s.objectId ∧ (f s).cell = s.cell) :
    t.Amends (t.modifyStatus σ f) σ r (f s) where
  same := rfl
  holds := by
    intro τ r' s'
    have hat : (t.modifyStatus σ f).statuses[σ]? = some (f s) := by
      simp [Table.modifyStatus, Array.getElem?_modify, hs.1]
    constructor
    · intro h'
      by_cases hτ : τ = σ
      · subst hτ
        obtain rfl := Option.some.inj (hat.symm.trans h'.1)
        exact Or.inr ⟨rfl, h'.2.1.symm.trans ((hf s).1.trans hs.2.1), rfl⟩
      · have hne : (t.modifyStatus σ f).statuses[τ]? = t.statuses[τ]? := by
          simp [Table.modifyStatus, Array.getElem?_modify, Ne.symm hτ]
        have hold : t.Holds τ r' s' := ⟨hne ▸ h'.1, h'.2⟩
        exact Or.inl ⟨fun hr => hτ (h.slot_unique hold (hr ▸ hs)), hold⟩
    · rintro (⟨hr, h'⟩ | ⟨rfl, rfl, rfl⟩)
      · have hτ : τ ≠ σ := fun he => hr (run_unique (he ▸ h') hs)
        have hne : (t.modifyStatus σ f).statuses[τ]? = t.statuses[τ]? := by
          simp [Table.modifyStatus, Array.getElem?_modify, Ne.symm hτ]
        exact ⟨hne.trans h'.1, h'.2⟩
      · exact ⟨hat, (hf s).1.trans hs.2.1, (hf s).2 ▸ hs.2.2⟩
  ledger := fun h => h.modifyStatus σ hf

theorem Amends.inFlight_iff (h : t.Amends t' σ r s) (hr : t.InFlight r) {r' : ObjectId} :
    t'.InFlight r' ↔ t.InFlight r' := by
  constructor
  · rintro ⟨τ, s', h'⟩
    rcases h.holds.mp h' with ⟨-, hold⟩ | ⟨-, rfl, -⟩
    · exact ⟨τ, s', hold⟩
    · exact hr
  · rintro ⟨τ, s', h'⟩
    by_cases hrr : r' = r
    · exact ⟨σ, s, h.holds.mpr (Or.inr ⟨rfl, hrr, rfl⟩)⟩
    · exact ⟨τ, s', h.holds.mpr (Or.inl ⟨hrr, h'⟩)⟩

theorem Amends.sameRuns (h : t.Amends t' σ r s) (hr : t.InFlight r) : t.SameRuns t' := by
  have hs := h.same
  refine ⟨?_, ?_, ?_, fun _ => h.inFlight_iff hr⟩ <;> rw [hs]

end Amends

/-! ### Open runs -/

/-- The run was accepted and is not over: it holds a slot or waits for one. -/
def Open (t : Table α) (r : ObjectId) : Prop :=
  t.InFlight r ∨ r ∈ t.backlog.map (·.objectId)

section Open

variable {t t' : Table α} {depth launched : Nat} {requests : List (Request α)} {σ : SlotId}
  {r : ObjectId} {s : RunStatus α}

theorem SameRuns.open_iff (h : t.SameRuns t') (r : ObjectId) : t'.Open r ↔ t.Open r := by
  rw [Open, Open, h.inFlight, h.backlog]

namespace Ledger

/-- Runs that wait have not been launched. -/
theorem launched_le_of_mem (h : t.Ledger depth launched requests)
    (hr : r ∈ t.backlog.map (·.objectId)) : launched ≤ r := by
  rw [h.backlog_ids, List.mem_range'_1] at hr
  exact hr.1

theorem lt_length_of_open (h : t.Ledger depth launched requests) (hr : t.Open r) :
    r < requests.length := by
  rcases hr with hr | hr
  · exact Nat.lt_of_lt_of_le (h.lt_launched hr) h.launched_le
  · obtain ⟨p, hp, rfl⟩ := List.mem_map.mp hr
    exact (List.getElem?_eq_some_iff.mp (h.backlog_mem hp)).1

theorem open_enqueue (h : t.Ledger depth launched requests) (q : Request α) (r : ObjectId) :
    (t.enqueue q).Open r ↔ t.Open r ∨ r = requests.length := by
  unfold Open
  rw [show (t.enqueue q).InFlight r ↔ t.InFlight r from Iff.rfl, or_assoc]
  simp [Table.enqueue, h.nextId_eq]

/-- A run that ends is not open any more, and all others are as they were. -/
theorem open_retire (h : t.Ledger depth launched requests) (hs : t.Holds σ r s)
    (r' : ObjectId) : (t.retire σ s).Open r' ↔ t.Open r' ∧ r' ≠ r := by
  have hholds : ∀ {τ s'}, (t.retire σ s).Holds τ r' s' ↔ _ := h.holds_retire hs
  constructor
  · rintro (⟨τ, s', hs'⟩ | hmem)
    · exact ⟨Or.inl ⟨τ, s', (hholds.mp hs').1⟩, (hholds.mp hs').2⟩
    · refine ⟨Or.inr hmem, fun he => ?_⟩
      exact Nat.not_le.mpr (h.held hs).1 (he ▸ h.launched_le_of_mem hmem)
  · rintro ⟨⟨τ, s', hs'⟩ | hmem, hne⟩
    · exact Or.inl ⟨τ, s', hholds.mpr ⟨hs', hne⟩⟩
    · exact Or.inr hmem

/-- A run that is launched was open before. -/
theorem open_promote (h : t.Ledger depth launched requests) {next : Pending α}
    {backlog : List (Pending α)} {free : List SlotId} (hb : t.backlog = next :: backlog)
    (hf : t.free = σ :: free) (r : ObjectId) : t.promote.Open r ↔ t.Open r := by
  obtain ⟨hid, -, -⟩ := h.head_backlog hb
  have hholds : ∀ {τ s}, t.promote.Holds τ r s ↔ _ := h.holds_promote hb hf
  have hflight : t.promote.InFlight r ↔ t.InFlight r ∨ r = launched := by
    constructor
    · rintro ⟨τ, s, hs⟩
      rcases hholds.mp hs with hold | ⟨-, hr, -⟩
      · exact Or.inl ⟨τ, s, hold⟩
      · exact Or.inr hr
    · rintro (⟨τ, s, hs⟩ | hr)
      · exact ⟨τ, s, hholds.mpr (Or.inl hs)⟩
      · exact ⟨σ, _, hholds.mpr (Or.inr ⟨rfl, hr, rfl⟩)⟩
  unfold Open
  rw [hflight, promote_eq hb hf, hb, List.map_cons, List.mem_cons, hid, or_assoc]

/-- **When no run is in flight, none is open**: none waits while a slot is free. -/
theorem not_open (h : t.Ledger depth launched requests) (hdepth : 0 < depth)
    (hcrowd : t.backlog ≠ [] → t.free = []) (hidle : t.inFlight = 0) (r : ObjectId) :
    ¬ t.Open r := by
  rintro (hr | hr)
  · exact h.inFlight_eq_zero.mp hidle r hr
  · have hne : t.backlog ≠ [] := by
      rintro he
      simp [he] at hr
    have hadd := h.inFlight_add
    rw [hcrowd hne, hidle] at hadd
    exact Nat.ne_of_lt hdepth hadd

end Ledger

end Open

end Table

end Dataflow
