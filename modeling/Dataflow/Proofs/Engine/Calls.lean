import Dataflow.Proofs.Engine.Launch

/-!
# What the owner's calls do to a binding

A binding starts with no runs and nothing under way (`Sound.bind`). After that, its owner
submits runs, each of which goes through the backlog (`Sound.enqueue`) and is launched at
once if a slot is free (`Sound.submit`), cancels those that wait (`Sound.close`), and closes
the pools when no run is in flight (`Sound.dismiss`). Everything else is up to the threads.
-/

namespace Dataflow

variable {α : Type}

/-! ### Inputs -/

namespace Staged

theorem map_fst_put (s : Staged α) (v : NodeId) (x : α) :
    (s.put v x).map (·.1) = s.map (·.1) := by
  unfold put
  rw [List.map_map]
  refine List.map_congr_left fun p _ => ?_
  show (if p.1 = v then (p.1, some x) else p).1 = p.1
  split <;> rfl

end Staged

namespace Graph

variable {g : Graph α}

theorem map_fst_stageAll {staged staged' : Staged α} {inputs : List (NodeId × α)}
    (h : g.stageAll staged inputs = .ok staged') : staged'.map (·.1) = staged.map (·.1) := by
  induction inputs generalizing staged with
  | nil =>
    obtain rfl : staged = staged' := by simpa [stageAll] using h
    rfl
  | cons p inputs ih =>
    obtain ⟨v, x⟩ := p
    simp only [stageAll] at h
    split at h
    · cases h
    · next s hs =>
      rw [ih h]
      unfold stageOne at hs
      split at hs
      · cases hs
      · split at hs
        · cases hs
        · split at hs
          · cases hs
          · obtain rfl := Except.ok.inj hs
            exact staged.map_fst_put v x

/-- **Every source gets one entry**, in the order of the sources. -/
theorem map_fst_stageInputs {inputs : List (NodeId × α)} {staged : Staged α}
    (h : g.stageInputs inputs = .ok staged) : staged.map (·.1) = g.sources := by
  unfold stageInputs at h
  split at h
  · cases h
  · next s hs =>
    split at h
    · cases h
    · obtain rfl := Except.ok.inj h
      rw [map_fst_stageAll hs, List.map_map]
      exact List.map_id _

end Graph

/-! ### An empty table -/

theorem Table.ledger_new (depth : Nat) (inDegrees : Array Nat) (sinkCount backlogCapacity : Nat) :
    (Table.new depth inDegrees sinkCount backlogCapacity : Table α).Ledger depth 0 [] := by
  have hnot : ∀ {σ r} {s : RunStatus α},
      ¬ (Table.new depth inDegrees sinkCount backlogCapacity : Table α).Holds σ r s := by
    rintro σ r s ⟨hs, -, hc⟩
    simp only [Table.new, Array.getElem?_replicate] at hs
    split at hs
    · obtain rfl := Option.some.inj hs
      cases hc
    · cases hs
  constructor
  · simp [Table.new]
  · refine ⟨0, Nat.zero_le _, ⟨[], by simp [Table.new, List.range_eq_range'], by simp⟩, ?_, ?_⟩
    · intro σ s hσ
      exact absurd hσ (Nat.not_lt_zero _)
    · intro σ τ s s' hσ
      exact absurd hσ (Nat.not_lt_zero _)
  · exact List.nodup_range
  · intro σ
    simp [Table.new, Array.getElem?_replicate]
  · simp [Table.new]
  · exact Nat.le_refl _
  · intro σ r s hs
    exact absurd hs hnot
  · rfl
  · rfl
  · intro p hp
    cases hp
  · intro _
    rfl
  · intro _
    rfl

/-- What a new binding has under way. -/
def firstLoad (k : Strategy) (g : Graph α) : List (Execution α) :=
  match k with
  | .stealing => []
  | .dedicated => (List.range g.size).map (.await g)

/-- The threads of nodes wait for the first run. -/
theorem Manned.start (k : Strategy) (g : Graph α) :
    Manned k g false (fun _ _ => .waiting) (firstLoad k g) := by
  have hload : ∀ y ∈ firstLoad k g, k = .dedicated ∧ y = .await g y.node := by
    intro y hy
    cases k with
    | stealing => cases hy
    | dedicated =>
      obtain ⟨v, -, rfl⟩ := List.mem_map.mp hy
      exact ⟨rfl, rfl⟩
  have hidle : ∀ y ∈ firstLoad k g, y.isEngaged k g = false := by
    intro y hy
    rw [(hload y hy).2]
    rfl
  constructor
  · intro x hx he
    exact absurd ((hidle x hx).symm.trans he) (by simp)
  · intro r v st hb
    cases hb
  · rw [List.filter_eq_nil_iff.mpr fun y hy => by simp [hidle y hy]]
    exact List.nodup_nil
  · intro x hx _
    obtain ⟨hk, hx⟩ := hload x hx
    rw [hx]
    exact ⟨hk, rfl, rfl⟩
  · rintro rfl
    show (((List.range g.size).map (Execution.await g)).map (·.node)).Perm _
    rw [List.map_map]
    exact .of_eq (List.map_id _)

/-- **What the acceptance of a run leads to.** -/
structure Admission [Payload α] (k : Strategy) (g : Graph α) (depth : Nat)
    (requests : List (Request α)) (executed : List (NodeId × ObjectId)) (b : Binding α)
    (load : List (Execution α)) (q : Request α) (b' : Binding α) (tasks : List Task) : Prop where
  sound : ∃ launched post, Sound k g depth false (requests ++ [q]) launched post executed b'
    ((if k = .stealing then tasks else []).map .ofTask ++ load)
  isOpen : ∀ r, b'.table.Open r ↔ b.table.Open r ∨ r = requests.length
  isClosed : b'.table.isClosed = false
  crowded : b'.table.backlog ≠ [] → b'.table.free = []

namespace Sound

variable [Payload α] {k : Strategy} {g : Graph α} {depth : Nat} {closed : Bool}
  {requests : List (Request α)} {launched : Nat} {post : ObjectId → NodeId → Post α}
  {executed : List (NodeId × ObjectId)} {b : Binding α} {load : List (Execution α)}

/-- **A new binding.** -/
theorem bind {g₀ : Graph α} (hg : g₀.Linked) {backlogCapacity : Nat}
    (h : Binding.new g₀ depth backlogCapacity = .ok b) (k : Strategy) :
    b.graph.Frozen ∧ 0 < depth ∧ 0 < b.graph.nodes.size ∧ b.table.isClosed = false ∧
      b.table.free = List.range depth ∧ b.table.backlog = [] ∧
      Sound k b.graph depth false [] 0 (fun _ _ => .waiting) [] b (firstLoad k b.graph) := by
  unfold Binding.new at h
  split at h
  · cases h
  · next g hf =>
    obtain rfl := Except.ok.inj h
    have hfrozen := hg.frozen hf
    obtain ⟨hdepth, hsize, order, levels, -, hprep⟩ := Graph.freeze_eq_ok hf
    have hentries : ∀ c, g.entriesAt c = [] := by
      rw [hprep]
      exact hg.entriesAt_prepare depth order levels
    refine ⟨hfrozen, hdepth, by rw [hprep]; exact hsize, rfl, rfl, rfl, ?_⟩
    exact {
      alike := .refl _
      laid := by rw [hprep]; exact hg.laid_prepare depth order levels
      ledger := Table.ledger_new ..
      inDegrees := rfl
      sinkCount := rfl
      inputs := nofun
      tags := fun c => by
        rw [Graph.tagsAt, hentries]
        exact List.Pairwise.nil
      tag_inFlight := fun {c r} hr => by
        rw [Graph.tagsAt, hentries] at hr
        cases hr
      books := fun _ hq => nomatch hq
      passed := fun hr => absurd hr (Nat.not_lt_zero _)
      unborn := fun _ _ => rfl
      abreast := fun _ _ _ _ _ _ hne => absurd rfl hne
      manned := .start k g
      chronicle := ⟨by simp [Progress.zero], fun _ _ => ⟨0, rfl⟩⟩
      closed_idle := nofun }

/-- **A run is accepted** and put on the backlog. -/
theorem enqueue (h : Sound k g depth closed requests launched post executed b load)
    (hopen : b.table.isClosed = false) {q : Request α} (hq : q.inputs.map (·.1) = g.sources) :
    Sound k g depth closed (requests ++ [q]) launched post executed
      { b with table := b.table.enqueue q } load := by
  refine { h with ledger := h.ledger.enqueue hopen q, inputs := ?_, books := ?_ }
  · intro q' hq'
    rcases List.mem_append.mp hq' with hq' | hq'
    · exact h.inputs hq'
    · rw [List.mem_singleton.mp hq']
      exact hq
  · intro σ r s q' (hs : b.table.Holds σ r s) hq'
    obtain ⟨q₀, hq₀, -, hb⟩ := h.request_of_holds hs
    have hlt := (List.getElem?_eq_some_iff.mp hq₀).1
    rw [List.getElem?_append_left hlt] at hq'
    exact h.books hs hq'

/-- **A submission** is refused, or the run is accepted under the next number. It never
fails on a pool that has no room, or on a slot that is not free. -/
theorem submit (hg : g.Frozen) (hsize : 0 < g.nodes.size)
    (h : Sound k g depth false requests launched post executed b load)
    (hcrowd : b.table.backlog ≠ [] → b.table.free = []) (inputs : List (NodeId × α))
    (cell : CellId) : (∃ e, b.submit inputs cell = .refused e) ∨
    ∃ staged b' tasks, b.graph.stageInputs inputs = .ok staged ∧
      b.submit inputs cell = .accepted b' requests.length tasks ∧
      Admission k g depth requests executed b load ⟨staged, cell⟩ b' tasks := by
  unfold Binding.submit
  cases hstaged : b.graph.stageInputs inputs with
  | error e => exact Or.inl ⟨e, rfl⟩
  | ok staged =>
    simp only
    by_cases hopen : b.table.isClosed = false
    swap
    · have hclosed : b.table.isClosed = true := by simpa using hopen
      exact Or.inl ⟨.scheduling .shutDown, by simp [Table.submit, hclosed]⟩
    have hsources : staged.map (·.1) = g.sources :=
      (Graph.map_fst_stageInputs hstaged).trans h.alike.sources
    have hqueued := h.enqueue hopen (q := ⟨staged, cell⟩) hsources
    have hflag : (b.table.enqueue ⟨staged, cell⟩).isClosed = false := hopen
    have hnext := h.ledger.open_enqueue ⟨staged, cell⟩
    rw [h.ledger.submit_eq hopen hcrowd ⟨staged, cell⟩]
    cases hf : b.table.free with
    | nil =>
      by_cases hfull : b.table.backlogCapacity ≤ b.table.backlog.length
      · exact Or.inl ⟨.scheduling (.backlogFull b.table.backlogCapacity), by simp [hfull]⟩
      · refine Or.inr ⟨staged, { b with table := b.table.enqueue ⟨staged, cell⟩ }, [], rfl,
          by simp [hfull, h.ledger.nextId_eq], ?_⟩
        exact {
          sound := ⟨launched, post, by simpa using hqueued⟩
          isOpen := hnext
          isClosed := hflag
          crowded := fun _ => hf }
    | cons σ free =>
      have hnone : b.table.backlog = [] := by
        by_contra hne
        simp [hcrowd hne] at hf
      have hb : (b.table.enqueue ⟨staged, cell⟩).backlog =
          ⟨b.table.nextId, staged, cell⟩ :: [] := by simp [Table.enqueue, hnone]
      obtain ⟨graph, hstart, post', hlaunched⟩ := hqueued.launch hg hsize hb hf
      refine Or.inr ⟨staged, ⟨graph, (b.table.enqueue ⟨staged, cell⟩).promote⟩,
        g.sources.map (⟨·, σ⟩), rfl, ?_, ?_⟩
      · rw [← h.ledger.nextId_eq]
        simp only at hstart
        simp only [hstart]
      · have hpromoted := Table.Ledger.promote_eq hb (show _ = σ :: free from hf)
        exact {
          sound := ⟨launched + 1, post', hlaunched⟩
          isOpen := fun r => (hqueued.ledger.open_promote hb hf r).trans (hnext r)
          isClosed := by rw [hpromoted]; exact hopen
          crowded := fun hne => by rw [hpromoted] at hne; exact absurd rfl hne }

/-- The runs of the backlog are cancelled. -/
theorem close (h : Sound k g depth closed requests launched post executed b load) :
    Sound k g depth closed requests launched post executed
      { b with table := b.table.close.1 } load :=
  { h with ledger := h.ledger.close }

/-- **The pools are closed** when no run is in flight. -/
theorem dismiss (h : Sound k g depth closed requests launched post executed b load)
    (hidle : b.table.inFlight = 0) :
    Sound k g depth true requests launched post executed
      { b with graph := b.graph.closePools } load := by
  refine { h with
    alike := h.alike.trans ⟨rfl, rfl⟩
    laid := h.laid.closePools
    tags := ?_
    tag_inFlight := ?_
    books := ?_
    manned := { h.manned with resting := ?_ }
    closed_idle := fun _ => hidle }
  · intro c
    rw [Graph.tagsAt, Graph.entriesAt_closePools]
    exact h.tags c
  · intro c r hr
    rw [Graph.tagsAt, Graph.entriesAt_closePools] at hr
    exact h.tag_inFlight hr
  · intro σ r s q hs hq
    simp only [Graph.entriesAt_closePools]
    exact h.books hs hq
  · intro x hx he
    have hrest := h.manned.resting hx he
    unfold Execution.Rests at hrest ⊢
    split
    all_goals simp_all

end Sound

end Dataflow
