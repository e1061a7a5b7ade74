import Dataflow.Proofs.Engine.Counting

/-!
# The end of a run

The last sink to finish ends the run, and its slot goes to another run. Nobody may come
back to the slot later on. Every node leads to a sink, so a node that has not made its
last access keeps some sink from finishing: `Books.done_or_completing` says that when
the last sink is about to end the run, all other nodes are done. As a consequence no
entry of the run is left in any pool, and all nodes have recorded what they had to, so
the outcome is the prescribed one (`Sound.retire`).
-/

namespace Dataflow

variable {α : Type} [Payload α] {k : Strategy} {g : Graph α}

/-- There is one stage at which a node is about to end the run. -/
theorem Post.eq_of_completing {α : Type} {p : Post α} (h : p.progress.completing = true) :
    ∃ seat, p = .busy (.completing seat) := by
  cases p with
  | waiting => simp [Progress.zero] at h
  | done => simp [Progress.all] at h
  | busy st =>
    cases st with
    | completing seat => exact ⟨seat, rfl⟩
    | _ => simp [Stage.progress, Progress.publishing, Progress.taking, Progress.zero,
        Progress.all] at h

section Books

variable {staged : Staged α} {failed : Bool} {σ : SlotId} {r : ObjectId} {s : RunStatus α}
  {has : Channel → Entry α → Prop} {p : NodeId → Post α} {u v : NodeId}

/-- A node that has passed everything on to its successors is done. -/
theorem Posts.done_of_passed (h : Posts k g staged failed σ r p) (hne : g.successors v ≠ [])
    (hpub : ∀ c ∈ g.outlets v, (p v).progress.published c = true)
    (hrel : k = .stealing → ∀ w ∈ g.successors v, (p v).progress.released w = true) :
    p v = .done := by
  have hout : ∃ c, c ∈ g.outlets v := by
    obtain ⟨w, hw⟩ := List.exists_mem_of_ne_nil _ hne
    exact ⟨_, Graph.mem_outlets.mpr ⟨w, hw, rfl⟩⟩
  obtain ⟨c, hc⟩ := hout
  obtain ⟨w, hw, -⟩ := Graph.mem_outlets.mp hc
  cases hp : p v with
  | waiting => exact absurd (hpub c hc) (by simp [hp, Progress.zero])
  | done => rfl
  | busy st =>
    have hfit := h.fits hp
    have he := h.engaged hp
    rw [hp] at hpub hrel
    -- only what comes after the last publication has published everything
    cases st with
    | publishing seat ds waiting =>
      obtain ⟨-, hsuff, -⟩ := hfit
      have hds : ds = [] := by
        by_contra hds
        obtain ⟨d, hd⟩ := List.exists_mem_of_ne_nil _ hds
        have hmem : d.1 ∈ ds.map (·.1) := List.mem_map_of_mem hd
        have := hpub d.1 (hsuff.subset hmem)
        simp [Stage.progress, Progress.publishing] at this
        exact this d.2 hd
      have hk : k = .stealing := by simpa [Execution.isEngaged, hds, hne] using he
      exact absurd (hrel hk w hw) (by simp [Stage.progress, Progress.publishing, Progress.taking,
        Progress.zero])
    | releasing seat ws =>
      obtain ⟨hk, hsuff⟩ := hfit
      have hws : ws ≠ [] := by simpa [Execution.isEngaged] using he
      obtain ⟨w', hw'⟩ := List.exists_mem_of_ne_nil _ hws
      exact absurd (hrel hk w' (hsuff.subset hw')) (by simp [Stage.progress, hw'])
    | finishing seat => exact absurd hfit hne
    | completing seat => exact absurd hfit hne
    | resolving cell outcome => exact hfit.elim
    | «over» => exact hfit.elim
    | stopped => exact hfit.elim
    | broken f => exact hfit.elim
    | _ => exact absurd (hpub c hc) (by simp [Stage.progress, Progress.taking, Progress.zero])

/-- A sink that is counted is done, or it is about to end the run. -/
theorem Posts.done_of_finished (h : Posts k g staged failed σ r p)
    (hfin : (p v).progress.finished = true) :
    p v = .done ∨ (p v).progress.completing = true := by
  cases hp : p v with
  | waiting => simp [hp, Progress.zero] at hfin
  | done => exact Or.inl rfl
  | busy st =>
    have hfit := h.fits hp
    rw [hp] at hfin
    refine Or.inr ?_
    cases st with
    | completing seat => rfl
    | resolving cell outcome => exact hfit.elim
    | «over» => exact hfit.elim
    | stopped => exact hfit.elim
    | broken f => exact hfit.elim
    | _ => simp [Stage.progress, Progress.publishing, Progress.taking, Progress.zero] at hfin

omit [Payload α] in
/-- A node at the end of its work has begun, has taken what was for it, and has recorded
what it left behind. -/
theorem Post.progress_of_ending {p : Post α}
    (h : p = .done ∨ p.progress.completing = true) :
    p.progress.begun = true ∧ (∀ c, p.progress.taken c = true) ∧ p.progress.fired = true ∧
      p.progress.recorded = true := by
  rcases h with rfl | hc
  · exact ⟨rfl, fun _ => rfl, rfl, rfl⟩
  · obtain ⟨seat, rfl⟩ := Post.eq_of_completing hc
    exact ⟨rfl, fun _ => rfl, rfl, rfl⟩

/-- **When the last sink is about to end the run, all other nodes are done.** -/
theorem Books.done_or_completing (hg : g.Frozen) (h : Books k g staged σ r s has p)
    (hu : (p u).progress.completing = true) (hv : v < g.nodes.size) :
    p v = .done ∨ (p v).progress.completing = true := by
  have hsinks : ∀ w ∈ g.sinks, (p w).progress.finished = true := by
    have hzero : s.remainingSinks = 0 := h.counts.completing_iff.mp ⟨u, hu⟩
    have := h.counts.sinks_eq
    rw [hzero, eq_comm, List.countP_eq_zero] at this
    simpa using this
  refine hg.backward_induction
    (P := fun v => p v = .done ∨ (p v).progress.completing = true) (fun v hv ih => ?_) hv
  by_cases hne : g.successors v = []
  · exact h.posts.done_of_finished (hsinks v (hg.mem_sinks.mpr ⟨hv, hne⟩))
  · -- the successors have begun, and have taken what was for them
    have hsucc := fun w hw => Post.progress_of_ending (ih w hw)
    refine Or.inl (h.posts.done_of_passed hne ?_ ?_)
    · intro c hc
      obtain ⟨w, hw, rfl⟩ := Graph.mem_outlets.mp hc
      exact h.flow.filled_of_taken (c := .edge v w) hw ((hsucc w hw).2.1 _)
    · intro hk w hw
      exact (h.counts.begun_iff hk (hg.linked.target_lt hw)).mp (hsucc w hw).1 v
        (hg.linked.mem_predecessors.mpr hw)

/-- Nothing of a run is left in the pools when it is about to end. -/
theorem Books.no_entry_of_completing (hg : g.Frozen) (h : Books k g staged σ r s has p)
    (hu : (p u).progress.completing = true) {c : Channel} (hc : g.Carries c) {e : Entry α} :
    ¬ has c e := by
  intro he
  have htaken := (Post.progress_of_ending
    (h.done_or_completing hg hu (hg.reader_lt hc))).2.1 c
  have := ((h.flow.present_iff hc).mp ⟨e, he⟩).2
  rw [htaken] at this
  exact absurd this (by simp)

end Books

namespace Sound

variable {depth : Nat} {closed : Bool} {requests : List (Request α)} {launched : Nat}
  {post : ObjectId → NodeId → Post α} {executed : List (NodeId × ObjectId)} {b : Binding α}
  {x : Execution α} {rest : List (Execution α)} {σ : SlotId} {r : ObjectId}
  {s : RunStatus α} {q : Request α}

/-- **A run ends** with the prescribed outcome, and gives its slot back. -/
theorem retire (hg : g.Frozen)
    (h : Sound k g depth closed requests launched post executed b (x :: rest))
    (he : x.isEngaged k g = true) (hpost : post r x.node = .busy x.stage)
    (hs : b.table.Holds σ r s) (hq : requests[r]? = some q)
    (hst : x.stage = .completing ⟨σ, r⟩) (cell : CellId) (outcome : RunOutcome α) :
    g.Prescribed q.inputs r (s.error.elim (.ok (.ofOutputs r s.outputs.reverse))
      fun e => .error (.execution e)) ∧
    ∃ post', Sound k g depth closed requests launched post' executed
      { b with table := b.table.retire σ s } (⟨x.node, .resolving cell outcome⟩ :: rest) := by
  have hb := h.books hs hq
  have hflight : b.table.InFlight r := ⟨σ, s, hs⟩
  have hcomp : (post r x.node).progress.completing = true := by
    rw [hpost, hst]
    rfl
  have hend : ∀ v, v < g.nodes.size →
      post r v = .done ∨ (post r v).progress.completing = true := fun v hv =>
    hb.done_or_completing hg hcomp hv
  -- every other node is done, and has taken all that was for it
  have hdone : ∀ {v st}, v ≠ x.node → post r v ≠ .busy st := by
    intro v st hv hbusy
    rcases hend v (hb.posts.lt_size hbusy) with hd | hd
    · rw [hd] at hbusy
      cases hbusy
    · exact hv (hb.counts.lone hd hcomp)
  have hgone : ∀ c, r ∉ b.graph.tagsAt c := by
    intro c hr
    obtain ⟨e, hmem⟩ := Graph.mem_tagsAt.mp hr
    by_cases hc : g.Carries c
    · exact hb.no_entry_of_completing hg hcomp hc hmem
    · rw [h.laid.unused fun hc' => hc (h.alike.carries.mp hc')] at hmem
      cases hmem
  refine ⟨hb.results.prescribed hg (fun v hv => (Post.progress_of_ending (hend v hv)).2.2.2) r,
    Function.update post r fun _ => .done, ?_⟩
  have hholds : ∀ {τ r' s'}, (b.table.retire σ s).Holds τ r' s' ↔ _ := h.ledger.holds_retire hs
  refine { h with
    ledger := h.ledger.retire hs
    tag_inFlight := ?_
    books := ?_
    passed := ?_
    unborn := ?_
    abreast := ?_
    manned := ?_
    chronicle := ?_
    closed_idle := fun hc => absurd (hc.symm.trans (h.not_closed hflight)) (by simp) }
  · intro c r' hr'
    obtain ⟨τ, s', hs'⟩ := h.tag_inFlight hr'
    exact ⟨τ, s', hholds.mpr ⟨hs', fun hrr => hgone c (hrr ▸ hr')⟩⟩
  · intro τ r' s' q' hs' hq'
    obtain ⟨hold, hrr⟩ := hholds.mp hs'
    rw [Function.update_of_ne hrr]
    exact h.books hold hq'
  · intro r' hlt hno v
    by_cases hrr : r' = r
    · rw [hrr, Function.update_self]
    · rw [Function.update_of_ne hrr]
      refine h.passed hlt (fun ⟨τ, s', hs'⟩ => hno ⟨τ, s', hholds.mpr ⟨hs', hrr⟩⟩) v
  · intro r' hle v
    have hrr : r' ≠ r := fun hrr =>
      Nat.not_le.mpr (h.ledger.lt_launched hflight) (hrr ▸ hle)
    rw [Function.update_of_ne hrr]
    exact h.unborn hle v
  · refine h.abreast.update (fun _ _ _ _ => rfl) fun _ v hv _ => Or.inl ?_
    rw [← Post.begun_iff]
    exact (Post.progress_of_ending (hend v hv)).1
  -- the execution still has the cell to resolve, and nobody else is busy for the run
  · show Manned k g closed _ ([⟨x.node, .resolving cell outcome⟩] ++ rest)
    refine h.manned.advance ?_ ?_ ?_ ?_ ?_ ?_ ?_ (List.nodup_singleton _) fun _ => rfl
    · intro r' hrr hbusy
      exact hrr (h.run_unique hs (hb.posts.serves hpost) hbusy)
    · rintro y hy hbusy hn
      exact h.not_twice he hpost hy hbusy hn
    · intro y hy hye
      obtain rfl := List.mem_singleton.mp hy
      exact absurd hye (by simp [Execution.isEngaged])
    · intro y hy _
      obtain rfl := List.mem_singleton.mp hy
      trivial
    · intro v st hv
      cases hv
    · intro v st hv hbusy
      exact absurd hbusy (hdone hv)
    · intro r' v st _ _ hp
      cases hp
  · refine h.chronicle.update fun v hv => ?_
    rw [(Post.progress_of_ending (hend v hv)).2.2.1]
    rfl

end Sound

end Dataflow
