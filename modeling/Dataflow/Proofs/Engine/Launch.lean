import Dataflow.Proofs.Engine.Ending

/-!
# The start of a run

A run that gets a slot has its inputs put into the staging pools, one for each source.
Every pool has room, since no more runs are in flight than it holds entries
(`Sound.stage`). Its books start with nothing done: all predecessors are still to be
waited for, and all sinks still to be counted. A node is ready exactly if it is a source,
`Books.open`; with threads of their own, sources wait like everybody else.
-/

namespace Dataflow

variable {α : Type}

/-! ### Staging -/

/-- What is staged for a run at a channel. -/
def Staged.entriesFor (staged : Staged α) (run : ObjectId) : Channel → List (Tagged (Entry α))
  | .staging v => ((staged.entry? v).map (⟨run, ·⟩)).toList
  | .edge _ _ => []

namespace Staged

variable {staged : Staged α} {run : ObjectId}

theorem objectId_of_mem_entriesFor {c : Channel} {y : Tagged (Entry α)}
    (h : y ∈ staged.entriesFor run c) : y.objectId = run := by
  cases c with
  | edge u v => cases h
  | staging v =>
    obtain ⟨e, -, rfl⟩ := Option.map_eq_some_iff.mp (Option.mem_toList.mp h)
    rfl

theorem entriesFor_cons (v : NodeId) (e : Entry α) (hv : v ∉ staged.map (·.1)) (c : Channel) :
    entriesFor ((v, e) :: staged) run c =
      (if c = .staging v then [⟨run, e⟩] else []) ++ staged.entriesFor run c := by
  cases c with
  | edge u w => simp [entriesFor]
  | staging w =>
    by_cases hw : w = v
    · subst hw
      have hnone : staged.lookup w = none := by
        refine List.lookup_eq_none_iff.mpr fun p hp => ?_
        simpa using fun he : w = p.1 => hv (he ▸ List.mem_map_of_mem hp)
      simp [entriesFor, entry?, hnone]
    · have hne : (w == v) = false := by simpa using hw
      simp [entriesFor, entry?, List.lookup_cons, hne, hw]

theorem mem_entriesFor_staging {v : NodeId} {e : Entry α} :
    (⟨run, e⟩ : Tagged (Entry α)) ∈ staged.entriesFor run (.staging v) ↔
      staged.entry? v = some e := by
  simp [entriesFor, Option.mem_toList, Option.map_eq_some_iff]

theorem entry?_isSome_iff {v : NodeId} : (staged.entry? v).isSome ↔ v ∈ staged.map (·.1) := by
  unfold entry?
  rw [← Option.ne_none_iff_isSome, ne_eq, List.lookup_eq_none_iff]
  simp

end Staged

/-- **The staged inputs of a run go into the staging pools**, if these have room. -/
theorem Graph.Laid.stage {depth : Nat} {staged : Staged α} {g : Graph α}
    (hl : g.Laid depth false) (run : ObjectId) (hn : (staged.map (·.1)).Nodup)
    (hs : ∀ v ∈ staged.map (·.1), v ∈ g.sources)
    (hroom : ∀ v ∈ staged.map (·.1), (g.entriesAt (.staging v)).length < depth) :
    ∃ g', Binding.stageEntries g run staged = (.ok (), g') ∧ g.Alike g' ∧ g'.Laid depth false ∧
      ∀ c, g'.entriesAt c = g.entriesAt c ++ staged.entriesFor run c := by
  induction staged generalizing g with
  | nil =>
    refine ⟨g, rfl, .refl g, hl, fun c => ?_⟩
    cases c <;> simp [Staged.entriesFor, Staged.entry?]
  | cons p staged ih =>
    obtain ⟨v, e⟩ := p
    obtain ⟨hv, hn⟩ := List.nodup_cons.mp hn
    have hc : g.Carries (.staging v) := hs v (List.mem_cons_self ..)
    obtain ⟨p, hp, hlt, -, hpush⟩ := hl.push hc ⟨run, e⟩ (hroom v (List.mem_cons_self ..))
    have hgain := gains_store hc hp ⟨run, e⟩ hlt
    obtain ⟨g', he, ha, hl', hent⟩ := ih (hl.store hc hp ⟨run, e⟩ hlt) hn
      (fun w hw => hgain.alike.sources ▸ hs w (List.mem_cons_of_mem _ hw)) fun w hw => by
        rw [hgain.entries, if_neg (fun h => hv (by cases h; exact hw))]
        exact hroom w (List.mem_cons_of_mem _ hw)
    refine ⟨g', ?_, hgain.alike.trans ha, hl', fun c => ?_⟩
    · simp only [Binding.stageEntries, hp, hpush, he]
    · rw [hent, hgain.entries, Staged.entriesFor_cons v e hv, ← List.append_assoc]
      split
      · next hcv => rw [hcv]
      · rw [List.append_nil]

/-! ### The books of a new run -/

/-- Where the nodes stand with a run that has just got a slot. -/
def Post.opened (k : Strategy) (g : Graph α) (σ : SlotId) (v : NodeId) : Post α :=
  if k = .stealing ∧ v ∈ g.sources then .busy (.opening σ) else .waiting

theorem Post.progress_opened (k : Strategy) (g : Graph α) (σ : SlotId) (v : NodeId) :
    (Post.opened k g σ v).progress =
      { Progress.zero with begun := decide (k = .stealing ∧ v ∈ g.sources) } := by
  unfold Post.opened
  split
  · next h => simp [Stage.progress, h]
  · next h => simp [h, Progress.zero]

theorem Post.opened_eq_busy {k : Strategy} {g : Graph α} {σ : SlotId} {v : NodeId}
    {st : Stage α} (h : Post.opened k g σ v = .busy st) :
    k = .stealing ∧ v ∈ g.sources ∧ st = .opening σ := by
  unfold Post.opened at h
  split at h
  · next hc => exact ⟨hc.1, hc.2, (Post.busy.inj h).symm⟩
  · cases h

/-- Some node has no successors. -/
theorem Graph.Frozen.sinks_ne_nil {g : Graph α} (hg : g.Frozen) (h : 0 < g.nodes.size) :
    g.sinks ≠ [] := by
  refine hg.backward_induction (P := fun _ => g.sinks ≠ []) (fun v hv ih => ?_) h
  by_cases hne : g.successors v = []
  · exact List.ne_nil_of_mem (hg.mem_sinks.mpr ⟨hv, hne⟩)
  · obtain ⟨w, hw⟩ := List.exists_mem_of_ne_nil _ hne
    exact ih w hw

variable [Payload α] {k : Strategy} {g : Graph α} {depth : Nat} {requests : List (Request α)}
  {launched : Nat} {post : ObjectId → NodeId → Post α} {executed : List (NodeId × ObjectId)}
  {b : Binding α} {load : List (Execution α)} {σ : SlotId} {r : ObjectId}

/-- The staging pools hold the inputs of a run that has just got a slot, and the pools of
the edges hold nothing of it. -/
theorem Flow.opened {staged : Staged α} (hs : staged.map (·.1) = g.sources) (failed : Bool) :
    Flow g staged failed (fun c e => ⟨r, e⟩ ∈ staged.entriesFor r c) fun v =>
      (Post.opened k g σ v).progress := by
  simp only [Post.progress_opened]
  constructor
  · intro c hc
    cases c with
    | staging v =>
      have hv : (staged.entry? v).isSome :=
        Staged.entry?_isSome_iff.mpr (hs ▸ (show v ∈ g.sources from hc))
      simp only [Staged.mem_entriesFor_staging]
      exact iff_of_true (Option.isSome_iff_exists.mp hv) ⟨rfl, rfl⟩
    | edge u v => simp [Staged.entriesFor, filled, Progress.zero]
  · intro c e hmem
    cases c with
    | staging v =>
      rw [Staged.mem_entriesFor_staging] at hmem
      simp [Graph.Fits, hmem]
    | edge u v => cases hmem
  · intro c _ ht
    exact absurd ht (by simp [Progress.zero])

omit [Payload α] in
/-- Of a run that has just got a slot, the counts are those of the graph: the nodes that
wait for nobody are its sources. -/
theorem Counts.opened (hg : g.Frozen) (hsize : 0 < g.nodes.size) {deps : Array Nat}
    {sinks : Nat} (hd : deps = g.nodes.map (·.predecessors.length))
    (hn : sinks = g.sinks.length) :
    Counts k g deps sinks fun v => (Post.opened k g σ v : Post α).progress := by
  simp only [Post.progress_opened]
  constructor
  · intro _ v hv
    obtain ⟨n, hnode⟩ := Graph.node_of_lt hv
    rw [hd, Array.getElem?_map, hnode, Graph.predecessors_of_node hnode]
    simp [Progress.zero]
  · intro hk v hv
    have hsrc := hg.mem_sources (v := v)
    simp only [hk, true_and, decide_eq_true_eq, hsrc, hv]
    constructor
    · intro hnil u hu
      rw [hnil] at hu
      cases hu
    · intro hall
      refine List.eq_nil_iff_forall_not_mem.mpr fun u hu => ?_
      exact absurd (hall u hu) (by simp [Progress.zero])
  · rw [hn]
    simp [Progress.zero]
  -- nobody completes the run yet, and some sink is outstanding
  · refine iff_of_false (by simp [Progress.zero]) ?_
    rw [hn, List.length_eq_zero_iff]
    exact hg.sinks_ne_nil hsize
  · intro u v hu
    exact absurd hu (by simp [Progress.zero])

/-- A run that has just got a slot has no results. -/
theorem Results.opened (staged : Staged α) :
    Results g staged false none [] fun v => (Post.opened k g σ v).progress := by
  simp only [Post.progress_opened]
  constructor
  · rfl
  · intro e hmem
    cases hmem
  · exact List.nodup_nil
  · intro v x hx
    cases hx
  · intro _ v _ hrec
    exact absurd hrec (by simp [Progress.zero])

/-- In a run that has just got a slot, nobody is busy but the sources that open it. -/
theorem Posts.opened (hg : g.Frozen) (staged : Staged α) (failed : Bool) :
    Posts k g staged failed σ r (.opened k g σ) := by
  constructor
  · intro v st hst
    exact (hg.mem_sources.mp (Post.opened_eq_busy hst).2.1).1
  · intro v st hst
    obtain ⟨-, -, rfl⟩ := Post.opened_eq_busy hst
    rfl
  · intro v st hst
    obtain ⟨-, -, rfl⟩ := Post.opened_eq_busy hst
    rfl
  · intro v st hst
    obtain ⟨hk, -, rfl⟩ := Post.opened_eq_busy hst
    exact hk

/-- **The books of a run that has just got a slot.** -/
theorem Books.opened (hg : g.Frozen) (hsize : 0 < g.nodes.size) {staged : Staged α}
    (hs : staged.map (·.1) = g.sources) {s : RunStatus α}
    (hd : s.remainingDeps = g.nodes.map (·.predecessors.length))
    (hn : s.remainingSinks = g.sinks.length) (hf : s.failed = false) (he : s.error = none)
    (ho : s.outputs = []) :
    Books k g staged σ r s (fun c e => ⟨r, e⟩ ∈ staged.entriesFor r c) (.opened k g σ) where
  flow := .opened hs s.failed
  counts := .opened hg hsize hd hn
  results := by
    rw [hf, he, ho]
    exact .opened staged
  posts := .opened hg staged s.failed

/-! ### The launch -/

omit [Payload α] in
/-- New executions join the load, on behalf of a run that had none. -/
theorem Manned.join {closed : Bool} (h : Manned k g closed post load)
    {p : NodeId → Post α} {news : List (Execution α)} (hold : ∀ v st, post r v ≠ .busy st)
    (hnews : ∀ {v st}, p v = .busy st ↔ ⟨v, st⟩ ∈ news)
    (heng : ∀ y ∈ news, y.isEngaged k g = true) (hnd : news.Nodup)
    (hother : ∀ {r' v st}, r' ≠ r → post r' v = .busy st → p v ≠ .busy st)
    (hk : k = .dedicated → news = []) :
    Manned k g closed (Function.update post r p) (news ++ load) := by
  constructor
  · intro y hy hye
    rcases List.mem_append.mp hy with hy | hy
    · exact ⟨r, by rw [Function.update_self]; exact hnews.mpr hy⟩
    · obtain ⟨r', hr'⟩ := h.engaged hy hye
      have hrr : r' ≠ r := fun he => hold _ _ (he ▸ hr')
      exact ⟨r', by rw [Function.update_of_ne hrr]; exact hr'⟩
  · intro r' v st hb
    by_cases hrr : r' = r
    · rw [hrr, Function.update_self] at hb
      exact List.mem_append_left _ (hnews.mp hb)
    · rw [Function.update_of_ne hrr] at hb
      exact List.mem_append_right _ (h.busy hb)
  · rw [List.filter_append]
    refine List.nodup_append.mpr ⟨hnd.filter _, h.nodup, ?_⟩
    rintro y hy z hz rfl
    obtain ⟨hz, hze⟩ := List.mem_filter.mp hz
    obtain ⟨r', hr'⟩ := h.engaged hz hze
    have hrr : r' ≠ r := fun he => hold _ _ (he ▸ hr')
    exact hother hrr hr' (hnews.mpr (List.mem_filter.mp hy).1)
  · intro y hy hye
    rcases List.mem_append.mp hy with hy | hy
    · exact absurd (hye.symm.trans (heng y hy)) (by simp)
    · exact h.resting hy hye
  · intro hd
    rw [hk hd, List.nil_append]
    exact h.nodes hd

/-- The tasks that are ready when a run starts. -/
def firstTasks (k : Strategy) (g : Graph α) (σ : SlotId) : List Task :=
  if k = .stealing then g.sources.map (⟨·, σ⟩) else []

omit [Payload α] in
theorem Post.opened_eq_busy_iff {v : NodeId} {st : Stage α} :
    Post.opened k g σ v = .busy st ↔ ⟨v, st⟩ ∈ (firstTasks k g σ).map Execution.ofTask := by
  constructor
  · intro h
    obtain ⟨hk, hv, rfl⟩ := Post.opened_eq_busy h
    rw [firstTasks, if_pos hk, List.map_map]
    exact List.mem_map_of_mem (f := Execution.ofTask ∘ fun v => (⟨v, σ⟩ : Task)) hv
  · intro h
    unfold firstTasks at h
    split at h
    · next hk =>
      rw [List.map_map] at h
      obtain ⟨w, hw, he⟩ := List.mem_map.mp h
      obtain ⟨rfl, rfl⟩ : w = v ∧ Stage.opening σ = st := by
        simpa [Execution.ofTask] using he
      exact if_pos ⟨hk, hw⟩
    · cases h

omit [Payload α] in
theorem nodup_firstTasks (hg : g.Frozen) :
    ((firstTasks k g σ).map (Execution.ofTask : Task → Execution α)).Nodup := by
  refine List.Nodup.map (fun t t' he => ?_) ?_
  · cases t
    cases t'
    simpa [Execution.ofTask] using he
  · unfold firstTasks
    split
    · exact hg.nodup_sources.map fun u v he => by simpa using he
    · exact List.nodup_nil

namespace Sound

variable {next : Pending α} {backlog : List (Pending α)} {free : List SlotId}

/-- **The inputs of the oldest run of the backlog are staged** if a slot is free. Nothing
else changes in the pools, which have no entries of the run before. -/
theorem stage_next (hg : g.Frozen)
    (h : Sound k g depth false requests launched post executed b load)
    (hb : b.table.backlog = next :: backlog) (hf : b.table.free = σ :: free) :
    ∃ graph, Binding.stageEntries b.graph launched next.inputs = (.ok (), graph) ∧
      b.graph.Alike graph ∧ graph.Laid depth false ∧
      (∀ c y, y.objectId ≠ launched →
        (y ∈ graph.entriesAt c ↔ y ∈ b.graph.entriesAt c)) ∧
      (∀ c e, (⟨launched, e⟩ : Tagged (Entry α)) ∈ graph.entriesAt c ↔
        ⟨launched, e⟩ ∈ next.inputs.entriesFor launched c) ∧
      ∀ c, (graph.tagsAt c).Pairwise k.Before := by
  obtain ⟨-, hreq, -⟩ := h.ledger.head_backlog hb
  have hinputs : next.inputs.map (·.1) = g.sources :=
    h.inputs (q := ⟨next.inputs, next.cell⟩) (List.mem_of_getElem? hreq)
  have hfree : b.table.free ≠ [] := by
    rw [hf]
    exact List.cons_ne_nil _ _
  obtain ⟨graph, hstage, halike, hlaid, hentries⟩ := h.laid.stage launched
    (by rw [hinputs]; exact hg.nodup_sources)
    (fun v hv => h.alike.sources ▸ hinputs ▸ hv) fun v _ => h.length_lt_of_free hfree _
  have hlt : ∀ {c r}, r ∈ b.graph.tagsAt c → r < launched := fun hr =>
    h.ledger.lt_launched (h.tag_inFlight hr)
  refine ⟨graph, hstage, halike, hlaid, ?_, ?_, ?_⟩
  · intro c y hy
    rw [hentries, List.mem_append]
    exact or_iff_left fun hy' => hy (Staged.objectId_of_mem_entriesFor hy')
  · intro c e
    rw [hentries, List.mem_append]
    exact or_iff_right fun he => Nat.lt_irrefl _ (hlt (Graph.mem_tagsAt.mpr ⟨e, he⟩))
  · intro c
    rw [Graph.tagsAt, hentries, List.map_append]
    refine List.pairwise_append.mpr ⟨h.tags c, ?_, ?_⟩
    -- there is at most one new entry
    · cases c with
      | edge u v => exact List.Pairwise.nil
      | staging v =>
        cases he : next.inputs.entry? v <;> simp [Staged.entriesFor, he]
    -- and it belongs to the youngest run of all
    · intro r hr r' hr'
      obtain ⟨y, hy, rfl⟩ := List.mem_map.mp hr'
      rw [Staged.objectId_of_mem_entriesFor hy]
      have := hlt hr
      cases k with
      | stealing => exact Nat.ne_of_lt this
      | dedicated => exact this

/-- Nobody is busy in a free slot. -/
theorem opened_ne_busy (h : Sound k g depth false requests launched post executed b load)
    (hf : b.table.free = σ :: free) {v : NodeId} {st : Stage α} (hbusy : post r v = .busy st) :
    Post.opened k g σ v ≠ .busy st := by
  intro hop
  obtain ⟨-, -, rfl⟩ := Post.opened_eq_busy hop
  obtain ⟨τ, s, q, hs, -, -, hbooks⟩ := h.holds_of_busy hbusy
  obtain rfl : σ = τ := hbooks.posts.serves hbusy
  exact h.ledger.not_free hs (by rw [hf]; exact List.mem_cons_self ..)

/-- **The oldest run of the backlog is launched** into a free slot, and its inputs are
staged. -/
theorem launch (hg : g.Frozen) (hsize : 0 < g.nodes.size)
    (h : Sound k g depth false requests launched post executed b load)
    (hb : b.table.backlog = next :: backlog) (hf : b.table.free = σ :: free) :
    ∃ graph, ({ b with table := b.table.promote } : Binding α).start
        ⟨σ, next.objectId, next.inputs⟩ =
        (.ok (g.sources.map (⟨·, σ⟩)), ⟨graph, b.table.promote⟩) ∧
      ∃ post', Sound k g depth false requests (launched + 1) post' executed
        ⟨graph, b.table.promote⟩ ((firstTasks k g σ).map .ofTask ++ load) := by
  obtain ⟨hid, hreq, hopen⟩ := h.ledger.head_backlog hb
  have hholds : ∀ {τ r s}, b.table.promote.Holds τ r s ↔ _ := h.ledger.holds_promote hb hf
  have hsame := Table.Ledger.promote_eq hb hf
  have hnew : b.table.promote.Holds σ launched (b.table.fresh launched next.cell) :=
    hholds.mpr (Or.inr ⟨rfl, rfl, rfl⟩)
  have hflight : ∀ {r}, b.table.InFlight r → b.table.promote.InFlight r :=
    fun ⟨τ, s, hs⟩ => ⟨τ, s, hholds.mpr (Or.inl hs)⟩
  obtain ⟨graph, hstage, halike, hlaid, hother, hmine, htags⟩ := h.stage_next hg hb hf
  have hwait : ∀ v, post launched v = .waiting := fun v => h.unborn (Nat.le_refl _) v
  refine ⟨graph, by simp only [Binding.start, hid, hstage, h.alike.sources],
    Function.update post launched (.opened k g σ), ?_⟩
  refine {
    alike := h.alike.trans halike
    laid := hlaid
    ledger := h.ledger.promote hb hf
    inDegrees := by rw [hsame]; exact h.inDegrees
    sinkCount := by rw [hsame]; exact h.sinkCount
    inputs := h.inputs
    tags := htags
    tag_inFlight := ?_
    books := ?_
    passed := ?_
    unborn := ?_
    abreast := ?_
    manned := ?_
    chronicle := ?_
    closed_idle := nofun }
  · intro c r hr
    obtain ⟨e, he⟩ := Graph.mem_tagsAt.mp hr
    by_cases hrr : r = launched
    · exact hrr ▸ ⟨σ, _, hnew⟩
    · exact hflight (h.tag_inFlight (Graph.mem_tagsAt.mpr ⟨e, (hother c _ hrr).mp he⟩))
  -- the books of the run are new, and those of all others are as they were
  · intro τ r s q hs hq
    rcases hholds.mp hs with hold | ⟨rfl, rfl, rfl⟩
    · have hrr : r ≠ launched := Nat.ne_of_lt (h.ledger.held hold).1
      rw [Function.update_of_ne hrr]
      exact (h.books hold hq).congr fun c e => hother c ⟨r, e⟩ hrr
    · obtain rfl := Option.some.inj (hreq.symm.trans hq)
      rw [Function.update_self]
      exact (Books.opened hg hsize (h.inputs (List.mem_of_getElem? hreq)) h.inDegrees
        h.sinkCount rfl rfl rfl).congr hmine
  · intro r hr hno v
    have hrr : r ≠ launched := fun he => hno (he ▸ ⟨σ, _, hnew⟩)
    rw [Function.update_of_ne hrr]
    exact h.passed (Nat.lt_of_le_of_ne (Nat.lt_succ_iff.mp hr) hrr) (fun hf => hno (hflight hf)) v
  · intro r hr v
    rw [Function.update_of_ne (Nat.ne_of_gt hr)]
    exact h.unborn (Nat.le_of_succ_le hr) v
  · refine h.abreast.update (fun _ v _ hd => ?_) fun hk v _ hne => ?_
    · rw [hwait] at hd
      cases hd
    · exact absurd (if_neg fun hc => by rw [hk] at hc; cases hc.1) hne
  · refine h.manned.join (fun v st hbusy => ?_) Post.opened_eq_busy_iff ?_ (nodup_firstTasks hg)
      (fun _ => h.opened_ne_busy hf) ?_
    · rw [hwait] at hbusy
      cases hbusy
    · intro y hy
      obtain ⟨t, -, rfl⟩ := List.mem_map.mp hy
      rfl
    · rintro rfl
      rfl
  · refine h.chronicle.update fun v _ => ?_
    rw [Post.progress_opened, hwait]
    rfl

end Sound

end Dataflow
