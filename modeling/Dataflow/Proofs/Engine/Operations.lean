import Dataflow.Proofs.Engine.Sound

/-!
# The operations of an execution

One by one, the operations that an execution performs on behalf of its run keep the
threads and the shared state `Sound`. Some only move the execution on; they read the
shared state, and the books of the run stay as they are (`Sound.move`). The others touch
one book or two: an entry is taken (`Sound.take`) or published (`Sound.publish`), what
came of the callback is recorded (`Sound.record`), a successor is released
(`Sound.release`), a sink is counted (`Sound.finish`).
-/

namespace Dataflow

/-- The node is at the same point as far as the counts and the results go. -/
structure Progress.Like {α : Type} (k : Strategy) (g : Graph α) (v : NodeId) (P P' : Progress) :
    Prop where
  begun : k = .stealing → P'.begun = P.begun
  recorded : P'.recorded = P.recorded
  released : k = .stealing → ∀ w ∈ g.successors v, P'.released w = P.released w
  finished : v ∈ g.sinks → P'.finished = P.finished
  completing : P'.completing = P.completing

variable {α : Type} [Payload α] {k : Strategy} {g : Graph α}

namespace Books

variable {staged : Staged α} {σ : SlotId} {r : ObjectId} {s : RunStatus α}
  {has has' : Channel → Entry α → Prop} {p : NodeId → Post α} {v : NodeId} {P : Post α}

/-- A node moves on; the books stay as they are. -/
theorem move (hg : g.Frozen) (h : Books k g staged σ r s has p)
    (hlike : (p v).progress.Like k g v P.progress)
    (htaken : ∀ c ∈ g.inlets v, P.progress.taken c = (p v).progress.taken c)
    (hpub : ∀ c ∈ g.outlets v, P.progress.published c = (p v).progress.published c)
    (hposts : Posts k g staged s.failed σ r (Function.update p v P)) :
    Books k g staged σ r s has (Function.update p v P) := by
  constructor
  · rw [progress_update]
    exact h.flow.update hg hpub htaken
  · rw [progress_update]
    exact h.counts.update hg.linked hlike.begun hlike.released hlike.finished hlike.completing
  · rw [progress_update]
    exact h.results.update hlike.recorded
  · exact hposts

/-- A node takes an entry from one of its inlets. -/
theorem take (hg : g.Frozen) (h : Books k g staged σ r s has p) (hv : v < g.nodes.size)
    {c : Channel} {e : Entry α} (hc : c ∈ g.inlets v) (he : has c e)
    (hhas : ∀ c' e', has' c' e' ↔ has c' e' ∧ c' ≠ c)
    (hlike : (p v).progress.Like k g v P.progress)
    (htaken : ∀ c' ∈ g.inlets v,
      P.progress.taken c' = (decide (c' = c) || (p v).progress.taken c'))
    (hpub : ∀ c ∈ g.outlets v, P.progress.published c = (p v).progress.published c)
    (hposts : Posts k g staged s.failed σ r (Function.update p v P)) :
    Books k g staged σ r s has' (Function.update p v P) := by
  constructor
  · rw [progress_update]
    exact h.flow.take hg hv hc he hhas hpub htaken
  · rw [progress_update]
    exact h.counts.update hg.linked hlike.begun hlike.released hlike.finished hlike.completing
  · rw [progress_update]
    exact h.results.update hlike.recorded
  · exact hposts

/-- A node publishes an entry that fits. -/
theorem publish (hg : g.Frozen) (h : Books k g staged σ r s has p) {c : Channel} {e : Entry α}
    (hc : c ∈ g.outlets v) (hnew : (p v).progress.published c = false)
    (he : g.Fits staged s.failed c e)
    (hhas : ∀ c' e', has' c' e' ↔ has c' e' ∨ c' = c ∧ e' = e)
    (hlike : (p v).progress.Like k g v P.progress)
    (htaken : ∀ c ∈ g.inlets v, P.progress.taken c = (p v).progress.taken c)
    (hpub : ∀ c' ∈ g.outlets v,
      P.progress.published c' = (decide (c' = c) || (p v).progress.published c'))
    (hposts : Posts k g staged s.failed σ r (Function.update p v P)) :
    Books k g staged σ r s has' (Function.update p v P) := by
  constructor
  · rw [progress_update]
    exact h.flow.publish hg hc hnew he hhas hpub htaken
  · rw [progress_update]
    exact h.counts.update hg.linked hlike.begun hlike.released hlike.finished hlike.completing
  · rw [progress_update]
    exact h.results.update hlike.recorded
  · exact hposts

/-- A node records what its execution has left behind. -/
theorem record (hg : g.Frozen) (h : Books k g staged σ r s has p) (hv : v < g.nodes.size)
    {f : Firing α} (hf : f.Fits g staged s.failed v) (hnew : (p v).progress.recorded = false)
    (hrec : P.progress.recorded = true)
    (hb : k = .stealing → P.progress.begun = (p v).progress.begun)
    (hr : k = .stealing → ∀ w ∈ g.successors v,
      P.progress.released w = (p v).progress.released w)
    (hfin : v ∈ g.sinks → P.progress.finished = (p v).progress.finished)
    (hcomp : P.progress.completing = (p v).progress.completing)
    (htaken : ∀ c ∈ g.inlets v, P.progress.taken c = (p v).progress.taken c)
    (hpub : ∀ c ∈ g.outlets v, P.progress.published c = (p v).progress.published c)
    (hposts : Posts k g staged (s.record v f.output f.error).failed σ r
      (Function.update p v P)) :
    Books k g staged σ r (s.record v f.output f.error) has (Function.update p v P) := by
  have hs := s.record_eq v f.output f.error
  constructor
  · rw [progress_update, hs]
    refine (h.flow.update hg hpub htaken).mono fun hfail => ?_
    simp [hfail]
  · rw [progress_update, hs]
    exact h.counts.update hg.linked hb hr hfin hcomp
  · rw [progress_update, hs]
    exact h.results.record hg hv hf hnew hrec
  · exact hposts

end Books

/-! ### What the operations bring about -/

namespace Sound

variable {depth : Nat} {closed : Bool} {requests : List (Request α)} {launched : Nat}
  {post : ObjectId → NodeId → Post α} {executed : List (NodeId × ObjectId)} {b : Binding α}
  {x : Execution α} {rest load : List (Execution α)} {σ : SlotId} {r : ObjectId}
  {s : RunStatus α} {q : Request α} {st : Stage α}

omit [Payload α] in
/-- Whether a node has fired for a run does not depend on other nodes. -/
theorem fired_update (hpost : post r x.node = .busy x.stage) {P : Post α}
    (hf : P.progress.fired = x.stage.progress.fired) (v : NodeId) :
    (Function.update (post r) x.node P v).progress.fired = (post r v).progress.fired := by
  by_cases hv : v = x.node
  · subst hv
    rw [Function.update_self, hpost, hf]
    rfl
  · rw [Function.update_of_ne hv]

/-- **An execution moves on** without touching anything. -/
theorem move (hg : g.Frozen)
    (h : Sound k g depth closed requests launched post executed b (x :: rest))
    (he : x.isEngaged k g = true) (hpost : post r x.node = .busy x.stage)
    (hs : b.table.Holds σ r s) (hq : requests[r]? = some q)
    (hlike : x.stage.progress.Like k g x.node st.progress)
    (htaken : ∀ c ∈ g.inlets x.node, st.progress.taken c = x.stage.progress.taken c)
    (hpub : ∀ c ∈ g.outlets x.node, st.progress.published c = x.stage.progress.published c)
    (hfired : st.progress.fired = x.stage.progress.fired) (hserves : st.Serves σ r)
    (hengaged : (⟨x.node, st⟩ : Execution α).isEngaged k g = true)
    (hfits : StageFits k g q.inputs s.failed x.node st) :
    ∃ post', Sound k g depth closed requests launched post' executed b (⟨x.node, st⟩ :: rest) := by
  have hb := h.books hs hq
  have hP : (post r x.node).progress = x.stage.progress := by rw [hpost]; rfl
  have hP' := Post.progress_ofStage hengaged
  have hbooks := hb.move hg (P := .ofStage k g x.node st) (by rw [hP, hP']; exact hlike)
    (by rw [hP, hP']; exact htaken) (by rw [hP, hP']; exact hpub)
    (hb.posts.ofStage (hb.posts.lt_size hpost) hserves hfits)
  exact ⟨_, h.proceed b he hpost hs hq (.refl _) h.laid (h.ledger.amends_refl hs)
    (fun _ _ _ => Iff.rfl) h.tags hbooks
    (h.chronicle.update fun v _ => fired_update hpost (by rw [hP', hfired]) v)
    fun hne => absurd (hengaged.symm.trans hne) (by simp)⟩

/-- **An execution takes the entry** of its run from an inlet. -/
theorem take (hg : g.Frozen)
    (h : Sound k g depth closed requests launched post executed b (x :: rest))
    (he : x.isEngaged k g = true) (hpost : post r x.node = .busy x.stage)
    (hs : b.table.Holds σ r s) (hq : requests[r]? = some q)
    {c : Channel} {cs : List Channel} {p p' : Pool (Entry α)} {e : Entry α}
    (hc : c ∈ g.inlets x.node) (hcs : c ∉ cs) (hp : b.graph.pool? c = some p)
    (hgive : p.Gives r e p') (hold : x.stage.progress = .taking (c :: cs))
    (hnew : st.progress = .taking cs) (hserves : st.Serves σ r)
    (hengaged : (⟨x.node, st⟩ : Execution α).isEngaged k g = true)
    (hfits : g.Fits q.inputs s.failed c e → StageFits k g q.inputs s.failed x.node st) :
    ∃ post', Sound k g depth closed requests launched post' executed
      (b.modifyGraph (·.setPool c p')) (⟨x.node, st⟩ :: rest) := by
  have hb := h.books hs hq
  have hv := hb.posts.lt_size hpost
  -- one inlet fewer is left
  have hP : (post r x.node).progress = .taking (c :: cs) := by rw [hpost]; exact hold
  have hP' := (Post.progress_ofStage hengaged).trans hnew
  have hcar : b.graph.Carries c := h.alike.carries.mpr ((hg.mem_inlets hv).mp hc).1
  have hmem : (⟨r, e⟩ : Tagged (Entry α)) ∈ b.graph.entriesAt c := by
    rw [Graph.entriesAt_of_pool hp]
    exact hgive.mem
  have hbooks : Books k g q.inputs σ r s
      (fun c' e' => ⟨r, e'⟩ ∈ (b.graph.setPool c p').entriesAt c')
      (Function.update (post r) x.node (.ofStage k g x.node st)) := hb.take hg hv hc hmem
    (fun c' e' => by rw [Graph.entriesAt_of_gives hcar hp hgive]; simp)
    (by rw [hP, hP']; exact ⟨fun _ => rfl, rfl, fun _ _ _ => rfl, fun _ => rfl, rfl⟩)
    (fun c' _ => by
      rw [hP, hP']
      by_cases hcc : c' = c
      · subst hcc
        simp [Progress.taking, hcs]
      · simp [Progress.taking, hcc])
    (fun _ _ => by rw [hP, hP']; rfl)
    (hb.posts.ofStage hv hserves (hfits (hb.flow.fits hmem)))
  refine ⟨_, h.proceed (b.modifyGraph (·.setPool c p')) he hpost hs hq (.setPool ..)
    (h.laid.of_gives hcar hp hgive) (h.ledger.amends_refl hs) ?_ ?_ hbooks
    (h.chronicle.update fun v _ => fired_update hpost (by rw [hP', hold]; rfl) v)
    fun hne => absurd (hengaged.symm.trans hne) (by simp)⟩
  · intro c' y hy
    rw [show (b.modifyGraph (·.setPool c p')).graph = b.graph.setPool c p' from rfl,
      Graph.entriesAt_of_gives hcar hp hgive]
    simp [hy]
  · exact fun c' => (h.tags c').sublist (Graph.tagsAt_of_gives hcar hp hgive c')

/-! ### Firing and recording -/

/-- **A node fires**: its callback was skipped, or came to an end. -/
theorem fire (hg : g.Frozen)
    (h : Sound k g depth closed requests launched post executed b (x :: rest))
    (he : x.isEngaged k g = true) (hpost : post r x.node = .busy x.stage)
    (hs : b.table.Holds σ r s) (hq : requests[r]? = some q)
    (hold : x.stage.progress = .taking []) {f : Firing α}
    (hf : f.Fits g q.inputs s.failed x.node) (called : Bool) :
    ∃ post', Sound k g depth closed requests launched post' (executed ++ [(x.node, r)])
      (b.modifyGraph fun g => (if called then g.countCall x.node else g).countRun x.node)
      (⟨x.node, .recording ⟨σ, r⟩ f⟩ :: rest) := by
  have hb := h.books hs hq
  have hv := hb.posts.lt_size hpost
  have hP : (post r x.node).progress = .taking [] := by rw [hpost]; exact hold
  have hP' : (Post.ofStage k g x.node (.recording ⟨σ, r⟩ f)).progress =
      { Progress.taking [] with fired := true } := rfl
  -- counting moves no entry
  have hent : ∀ c, (b.modifyGraph fun g =>
      (if called then g.countCall x.node else g).countRun x.node).graph.entriesAt c =
      b.graph.entriesAt c := Graph.entriesAt_count called x.node
  have hbooks : Books k g q.inputs σ r s (fun c e => ⟨r, e⟩ ∈ (b.modifyGraph fun g =>
      (if called then g.countCall x.node else g).countRun x.node).graph.entriesAt c)
      (Function.update (post r) x.node (.ofStage k g x.node (.recording ⟨σ, r⟩ f))) := by
    simp only [hent]
    exact hb.move hg
      (by rw [hP, hP']; exact ⟨fun _ => rfl, rfl, fun _ _ _ => rfl, fun _ => rfl, rfl⟩)
      (fun _ _ => by rw [hP, hP']) (fun _ _ => by rw [hP, hP'])
      (hb.posts.ofStage hv rfl hf)
  refine ⟨_, h.proceed (b.modifyGraph fun g =>
      (if called then g.countCall x.node else g).countRun x.node) he hpost hs hq
    (Graph.alike_count called x.node)
    (h.laid.of_pools (Graph.alike_count called x.node) (Graph.pool?_count called x.node))
    (h.ledger.amends_refl hs) (fun c y _ => by rw [hent]) ?_ hbooks ?_
    fun hne => absurd hne (by simp [Execution.isEngaged])⟩
  · intro c
    rw [Graph.tagsAt, hent]
    exact h.tags c
  · refine h.chronicle.fire h.abreast hv (by simp [hpost]) (by rw [hP]; rfl) ?_ ?_
    · rw [Function.update_self]
      rfl
    · intro w hw
      rw [Function.update_of_ne hw]

omit [Payload α] in
/-- The entries that are left behind, each with its outlet. -/
theorem map_zip_outlets {v : NodeId} {f : Firing α}
    (hf : f.outgoing.length = (g.successors v).length) :
    ((g.outlets v).zip f.outgoing).map (·.1) = g.outlets v :=
  List.map_fst_zip (by rw [Graph.outlets, List.length_map, hf])

/-- What is left behind fits once it is recorded. -/
theorem fits_zip_outlets {staged : Staged α} {failed : Bool} {v : NodeId} {f : Firing α}
    (hf : f.Fits g staged failed v) {d : Channel × Entry α}
    (hd : d ∈ (g.outlets v).zip f.outgoing) :
    g.Fits staged (failed || f.error.isSome) d.1 d.2 := by
  obtain ⟨i, hi⟩ := List.mem_iff_getElem?.mp hd
  obtain ⟨hc, he⟩ := List.getElem?_zip_eq_some.mp hi
  rw [Graph.outlets, List.getElem?_map] at hc
  obtain ⟨w, hw, hwd⟩ := Option.map_eq_some_iff.mp hc
  rw [← hwd]
  exact hf.delivery hw he

/-- **What came of the callback is recorded**, and the rest is to be published. -/
theorem record (hg : g.Frozen)
    (h : Sound k g depth closed requests launched post executed b (x :: rest))
    (he : x.isEngaged k g = true) (hpost : post r x.node = .busy x.stage)
    (hs : b.table.Holds σ r s) (hq : requests[r]? = some q) {f : Firing α}
    (hst : x.stage = .recording ⟨σ, r⟩ f) :
    ∃ post', Sound k g depth closed requests launched post' executed
      (b.modifyStatus σ (·.record x.node f.output f.error))
      (⟨x.node, .publishing ⟨σ, r⟩ ((g.outlets x.node).zip f.outgoing) false⟩ :: rest) := by
  have hb := h.books hs hq
  have hv := hb.posts.lt_size hpost
  have hf : f.Fits g q.inputs s.failed x.node := by
    have := hb.posts.fits hpost
    rwa [hst] at this
  have hfst := map_zip_outlets (g := g) hf.length
  have hrec := s.record_eq x.node f.output f.error
  -- either something is left to publish, or the sink is left to count
  have hengaged : (⟨x.node, .publishing ⟨σ, r⟩ ((g.outlets x.node).zip f.outgoing) false⟩ :
      Execution α).isEngaged k g = true := by
    cases hsucc : g.successors x.node with
    | nil => simp [Execution.isEngaged, hsucc]
    | cons w ws =>
      have hne : (g.outlets x.node).zip f.outgoing ≠ [] := by
        intro hnil
        rw [hnil, Graph.outlets, hsucc] at hfst
        simp at hfst
      simp [Execution.isEngaged, hne]
  have hP : (post r x.node).progress = { Progress.taking [] with fired := true } := by
    rw [hpost, hst]
    rfl
  have hP' : (Post.ofStage k g x.node
      (.publishing ⟨σ, r⟩ ((g.outlets x.node).zip f.outgoing) false)).progress =
      .publishing (g.outlets x.node) := by
    rw [Post.progress_ofStage hengaged, Stage.progress, hfst]
  have hfits : StageFits k g q.inputs (s.record x.node f.output f.error).failed x.node
      (.publishing ⟨σ, r⟩ ((g.outlets x.node).zip f.outgoing) false) := by
    refine ⟨rfl, ⟨[], hfst⟩, fun d hd => ?_⟩
    rw [hrec]
    exact fits_zip_outlets hf hd
  -- whatever fitted before fits, since recording does not take an error back
  have hmono : s.failed = true → (s.record x.node f.output f.error).failed = true := by
    intro hfail
    rw [hrec]
    simp [hfail]
  have hbooks : Books k g q.inputs σ r (s.record x.node f.output f.error)
      (fun c e => ⟨r, e⟩ ∈ b.graph.entriesAt c) (Function.update (post r) x.node (.ofStage k g
        x.node (.publishing ⟨σ, r⟩ ((g.outlets x.node).zip f.outgoing) false))) := by
    refine hb.record hg hv hf (by rw [hP]; rfl) (by rw [hP']; rfl) ?_ ?_ ?_ ?_ ?_ ?_
      ((hb.posts.mono hmono).ofStage hv rfl hfits)
    · intro _
      rw [hP, hP']
      rfl
    · intro _ _ _
      rw [hP, hP']
      rfl
    · intro _
      rw [hP, hP']
      rfl
    · rw [hP, hP']
      rfl
    · intro _ _
      rw [hP, hP']
      rfl
    · intro c hc
      rw [hP, hP']
      simp [Progress.publishing, Progress.taking, Progress.zero, hc]
  have ht : b.table.Amends (b.modifyStatus σ (·.record x.node f.output f.error)).table σ r
      (s.record x.node f.output f.error) :=
    h.ledger.amends_modify hs fun s => by rw [s.record_eq]; exact ⟨rfl, rfl⟩
  refine ⟨_, h.proceed (b.modifyStatus _ _) he hpost hs hq (.refl _) h.laid ht
    (fun _ _ _ => Iff.rfl) h.tags hbooks (h.chronicle.update fun v _ => fired_update hpost ?_ v)
    fun hne => absurd (hengaged.symm.trans hne) (by simp)⟩
  rw [hP', hst]
  rfl

/-! ### Publishing -/

/-- No pool is closed while a run is in flight. -/
theorem not_closed (h : Sound k g depth closed requests launched post executed b load)
    (hr : b.table.InFlight r) : closed = false := by
  rw [← Bool.not_eq_true]
  intro hc
  have := h.ledger.inFlight_pos hr
  rw [h.closed_idle hc] at this
  exact Nat.lt_irrefl 0 this

/-- **Entries are published in the order of the runs**, where the order matters. -/
theorem tag_before (h : Sound k g depth closed requests launched post executed b load)
    {v w : NodeId} (hw : w ∈ g.successors v) (hpost : post r v = .busy st)
    (hnew : r ∉ b.graph.tagsAt (.edge v w)) {r' : ObjectId}
    (hr' : r' ∈ b.graph.tagsAt (.edge v w)) : k.Before r' r := by
  have hne : r' ≠ r := fun he => hnew (he ▸ hr')
  cases k with
  | stealing => exact hne
  | dedicated =>
    obtain ⟨σ', s', hs'⟩ := h.tag_inFlight hr'
    obtain ⟨q', -, -, hb⟩ := h.request_of_holds hs'
    -- the node has begun with the other run, and cannot have if that is the younger one
    have hpub : (post r' v).progress.published (.edge v w) = true :=
      ((hb.flow.present_iff (c := .edge v w) hw).mp (Graph.mem_tagsAt.mp hr')).1
    have hbegun : post r' v ≠ .waiting := by
      intro hwait
      simp [hwait, Progress.zero] at hpub
    rcases Nat.lt_or_gt_of_ne hne with hlt | hgt
    · exact hlt
    · have := h.abreast rfl hgt (Graph.lt_of_mem_successors hw) hbegun
      rw [hpost] at this
      cases this

/-- **An execution publishes an entry.** There is always room for it. With the last one a
node that has nobody to tell is done. -/
theorem publish (hg : g.Frozen)
    (h : Sound k g depth closed requests launched post executed b (x :: rest))
    (he : x.isEngaged k g = true) (hpost : post r x.node = .busy x.stage)
    (hs : b.table.Holds σ r s) (hq : requests[r]? = some q) {c : Channel} {e : Entry α}
    {ds : Deliveries α} (hst : x.stage = .publishing ⟨σ, r⟩ ((c, e) :: ds) false) :
    ∃ p, b.graph.pool? c = some p ∧ p.entries.length < p.capacity ∧
      p.push ⟨r, e⟩ = some (.ok (p.store ⟨r, e⟩)) ∧
      ∃ post', Sound k g depth closed requests launched post' executed
        (b.modifyGraph (·.setPool c (p.store ⟨r, e⟩)))
        (⟨x.node, .publishing ⟨σ, r⟩ ds false⟩ :: rest) := by
  have hb := h.books hs hq
  have hv := hb.posts.lt_size hpost
  have hflight : b.table.InFlight r := ⟨σ, s, hs⟩
  obtain rfl := h.not_closed hflight
  obtain ⟨-, hsuff, hfit⟩ : StageFits k g q.inputs s.failed x.node
      (.publishing ⟨σ, r⟩ ((c, e) :: ds) false) := hst ▸ hb.posts.fits hpost
  have hc : c ∈ g.outlets x.node := hsuff.subset (List.mem_cons_self ..)
  have hcs : c ∉ ds.map (·.1) := (List.nodup_cons.mp (hsuff.sublist.nodup (hg.nodup_outlets _))).1
  obtain ⟨w, hw, rfl⟩ := Graph.mem_outlets.mp hc
  -- before the operation
  have hP : (post r x.node).progress = .publishing (.edge x.node w :: ds.map (·.1)) := by
    rw [hpost, hst]
    rfl
  have hunpub : (post r x.node).progress.published (.edge x.node w) = false := by
    rw [hP]
    simp [Progress.publishing]
  have hnew : r ∉ b.graph.tagsAt (.edge x.node w) := by
    intro hmem
    have := ((hb.flow.present_iff (c := .edge x.node w) hw).mp (Graph.mem_tagsAt.mp hmem)).1
    rw [filled, hunpub] at this
    exact absurd this Bool.false_ne_true
  -- the run has no entry there yet, and every run has one at most
  have hcar : b.graph.Carries (.edge x.node w) := h.alike.carries.mpr hw
  obtain ⟨p, hp, hroom, hpush, -⟩ := h.laid.push hcar ⟨r, e⟩ (h.length_lt hflight hnew)
  have hgain := Graph.gains_store hcar hp ⟨r, e⟩ hroom
  refine ⟨p, hp, hroom, hpush, ?_⟩
  -- after the operation
  obtain ⟨P, hP', hbegun, htaken, hfired, hrec, hpub, hrel, hcomp⟩ :=
    Post.publishing_ofStage (k := k) (g := g) (v := x.node) ⟨σ, r⟩ ds false
  have hbooks : Books k g q.inputs σ r s
      (fun c' e' => ⟨r, e'⟩ ∈ (b.graph.setPool (.edge x.node w) (p.store ⟨r, e⟩)).entriesAt c')
      (Function.update (post r) x.node (.ofStage k g x.node (.publishing ⟨σ, r⟩ ds false))) := by
    refine hb.publish hg hc hunpub (hfit _ (List.mem_cons_self ..))
      (fun c' e' => by rw [hgain.mem_iff]; simp) ?_ ?_ ?_ (hb.posts.ofStage hv rfl
      ⟨rfl, (List.suffix_cons _ _).trans hsuff, fun d hd => hfit d (List.mem_cons_of_mem _ hd)⟩)
    · rw [hP, hP']
      refine ⟨fun _ => hbegun, hrec, fun hk w _ => hrel hk w, fun hsink => ?_, hcomp⟩
      rw [(hg.mem_sinks.mp hsink).2] at hw
      cases hw
    · intro c' _
      rw [hP, hP', htaken]
      rfl
    · intro c' _
      rw [hP, hP', hpub]
      by_cases hcc : c' = .edge x.node w
      · subst hcc
        simp [Progress.publishing, hcs]
      · simp [Progress.publishing, hcc]
  refine ⟨_, h.proceed (b.modifyGraph (·.setPool (.edge x.node w) (p.store ⟨r, e⟩))) he hpost hs hq
    hgain.alike (h.laid.store hcar hp _ hroom) (h.ledger.amends_refl hs) hgain.mem_other
    (hgain.pairwise_tags h.tags fun r' hr' => h.tag_before hw hpost hnew hr') hbooks
    (h.chronicle.update fun v _ => fired_update hpost ?_ v) ?_⟩
  · rw [hP', hfired, hst]
    rfl
  · intro hne
    simp only [Execution.isEngaged, Bool.or_eq_false_iff] at hne
    refine ⟨?_, by simpa using hne.1.1⟩
    cases k with
    | stealing => simp at hne
    | dedicated => rfl

end Sound

end Dataflow
