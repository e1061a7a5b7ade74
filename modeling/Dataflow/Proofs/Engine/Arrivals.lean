import Dataflow.Proofs.Engine.Operations

/-!
# Inputs by position

A node with a thread of its own does not look for the entries of a run. It takes what
comes first in its inlets, and nothing but the order of the runs makes all that it takes
belong together. Two facts carry the argument.

* The thread of a node is the only execution of that node, `Manned.node_unique`. So a node
  that has not begun with a run waits for it, or is done.
* A run that is older than all entries in an inlet has been taken from there,
  `Sound.taken_of_lt_head`: its entry was published before theirs.

So the first inlet shows the oldest run that the node has not begun with
(`Sound.attach`), and all other inlets show the same run (`Sound.await`).
-/

namespace Dataflow

variable {α : Type}

/-- With threads of their own, nodes are executed by one execution each. -/
theorem Manned.node_unique {g : Graph α} {closed : Bool} {post : ObjectId → NodeId → Post α}
    {load : List (Execution α)} (h : Manned .dedicated g closed post load)
    {x y : Execution α} (hx : x ∈ load) (hy : y ∈ load) (hn : x.node = y.node) : x = y :=
  List.inj_on_of_nodup_map ((h.nodes rfl).nodup_iff.mpr List.nodup_range) hx hy hn

theorem Manned.node_lt {g : Graph α} {closed : Bool} {post : ObjectId → NodeId → Post α}
    {load : List (Execution α)} (h : Manned .dedicated g closed post load) {x : Execution α}
    (hx : x ∈ load) : x.node < g.nodes.size :=
  List.mem_range.mp ((h.nodes rfl).mem_iff.mp (List.mem_map_of_mem hx))

/-- A thread that is busy for no run begins with one. -/
theorem Manned.begin {g : Graph α} {closed : Bool} {post : ObjectId → NodeId → Post α}
    {x : Execution α} {rest : List (Execution α)}
    (h : Manned .dedicated g closed post (x :: rest)) {r : ObjectId} {st : Stage α}
    (hidle : ∀ r' st', post r' x.node ≠ .busy st')
    (heng : (⟨x.node, st⟩ : Execution α).isEngaged .dedicated g = true)
    (hserving : ∀ {r' v st'}, r' ≠ r → post r' v = .busy st' → post r v ≠ .busy st') :
    Manned .dedicated g closed
      (Function.update post r (Function.update (post r) x.node (.busy st)))
      (⟨x.node, st⟩ :: rest) := by
  show Manned .dedicated g closed _ ([⟨x.node, st⟩] ++ rest)
  refine h.advance (fun _ => hidle _ _) ?_ ?_ ?_ ?_ ?_ ?_ (List.nodup_singleton _) fun _ => rfl
  · intro z _ hz hn
    rw [hn] at hz
    exact hidle _ _ hz
  · intro z hz _
    obtain rfl := List.mem_singleton.mp hz
    exact ⟨Function.update_self .., Or.inl rfl⟩
  · intro z hz hne
    obtain rfl := List.mem_singleton.mp hz
    exact absurd (heng.symm.trans hne) (by simp)
  · intro w st' hw
    by_cases hwv : w = x.node
    · subst hwv
      rw [Function.update_self] at hw
      obtain rfl := Post.busy.inj hw
      exact Or.inl (List.mem_singleton_self _)
    · rw [Function.update_of_ne hwv] at hw
      exact Or.inr ⟨hwv, hw⟩
  · intro w st' hwv hw
    rwa [Function.update_of_ne hwv]
  · intro r' w st' hrr hw hp
    by_cases hwv : w = x.node
    · exact hidle _ _ (hwv ▸ hw)
    · rw [Function.update_of_ne hwv] at hp
      exact hserving hrr hw hp

/-- The books of a run when a node has begun with it. -/
theorem Books.begin [Payload α] {g : Graph α} (hg : g.Frozen) {staged : Staged α} {σ : SlotId}
    {r : ObjectId} {s : RunStatus α} {has has' : Channel → Entry α → Prop}
    {p : NodeId → Post α} (h : Books .dedicated g staged σ r s has p) {v : NodeId}
    (hv : v < g.nodes.size) (hwait : p v = .waiting) {c : Channel} {cs : List Channel}
    (hin : g.inlets v = c :: cs) {e : Entry α} (he : has c e)
    (hhas : ∀ c' e', has' c' e' ↔ has c' e' ∧ c' ≠ c) :
    Books .dedicated g staged σ r s has'
      (Function.update p v (.busy (.awaiting (some r) (c.inputs e) cs))) := by
  have hmem : c ∈ g.inlets v := by
    rw [hin]
    exact List.mem_cons_self ..
  have hcs : c ∉ cs := (List.nodup_cons.mp (hin ▸ hg.nodup_inlets v)).1
  have hfits : StageFits .dedicated g staged s.failed v
      (.awaiting (some r) (c.inputs e) cs) :=
    ⟨rfl, [c], hin, by simpa using Claimed.snoc .nil (h.flow.fits he)⟩
  refine h.take hg hv hmem he hhas ?_ ?_ ?_ (h.posts.busy hv rfl rfl hfits)
  · rw [hwait]
    have hk : Strategy.dedicated ≠ .stealing := by decide
    exact ⟨fun h => absurd h hk, rfl, fun h => absurd h hk, fun _ => rfl, rfl⟩
  · intro c' hc'
    rw [hwait]
    rw [hin] at hc'
    rcases List.mem_cons.mp hc' with rfl | hc'
    · simp [Stage.progress, Progress.taking, hcs]
    · have hne : c' ≠ c := fun he => hcs (he ▸ hc')
      simp [Stage.progress, Progress.taking, Progress.zero, hc', hne]
  · intro _ _
    rw [hwait]
    rfl

namespace Sound

variable [Payload α] {g : Graph α} {depth : Nat} {closed : Bool}
  {requests : List (Request α)} {launched : Nat} {post : ObjectId → NodeId → Post α}
  {executed : List (NodeId × ObjectId)} {b : Binding α} {x : Execution α}
  {rest load : List (Execution α)} {c : Channel} {cs : List Channel} {σ : SlotId}
  {r r₀ : ObjectId} {s : RunStatus α} {q : Request α} {p p' : Pool (Entry α)}
  {y : Tagged (Entry α)}

/-- An entry in an inlet has not been taken, and was put there. -/
theorem present (h : Sound .dedicated g depth closed requests launched post executed b load)
    (hc : g.Carries c) (hr : r ∈ b.graph.tagsAt c) :
    (post r c.reader).progress.taken c = false ∧
      filled (fun v => (post r v).progress) c = true := by
  obtain ⟨σ, s, hs⟩ := h.tag_inFlight hr
  obtain ⟨q, -, -, hb⟩ := h.request_of_holds hs
  have := (hb.flow.present_iff hc).mp (Graph.mem_tagsAt.mp hr)
  exact ⟨this.2, this.1⟩

/-- **A run that is older than all entries in an inlet was taken from there.** -/
theorem taken_of_lt_head
    (h : Sound .dedicated g depth closed requests launched post executed b load)
    (hc : g.Carries c) {runs : List ObjectId} (ht : b.graph.tagsAt c = r₀ :: runs)
    (hlt : r < r₀) : (post r c.reader).progress.taken c = true := by
  have hr₀ : r₀ ∈ b.graph.tagsAt c := by
    rw [ht]
    exact List.mem_cons_self ..
  by_cases hr : b.table.InFlight r
  · obtain ⟨σ, s, hs⟩ := hr
    obtain ⟨q, -, -, hb⟩ := h.request_of_holds hs
    -- the entry of the run was put there, since that of the later run was
    have hfilled : filled (fun v => (post r v).progress) c = true := by
      cases c with
      | staging v => rfl
      | edge u v =>
        have hpub := (h.present hc hr₀).2
        have hbegun : post r₀ u ≠ .waiting := by
          intro hwait
          simp [filled, hwait, Progress.zero] at hpub
        have hdone := h.abreast rfl hlt (Graph.lt_of_mem_successors hc) hbegun
        simp [filled, hdone, Progress.all]
    by_contra hno
    have hmem : r ∈ b.graph.tagsAt c := Graph.mem_tagsAt.mpr
      ((hb.flow.present_iff hc).mpr ⟨hfilled, by simpa using hno⟩)
    have hsorted := h.tags c
    rw [ht] at hmem hsorted
    rcases List.mem_cons.mp hmem with rfl | hmem
    · exact Nat.lt_irrefl _ hlt
    · exact Nat.lt_asymm hlt ((List.pairwise_cons.mp hsorted).1 r hmem)
  · obtain ⟨σ, s, hs⟩ := h.tag_inFlight hr₀
    have hlaunched := Nat.lt_trans hlt (h.ledger.held hs).1
    rw [h.passed hlaunched hr]
    rfl

/-- A pool shows the run of its oldest entry first. -/
theorem tagsAt_of_pop (h : Sound .dedicated g depth closed requests launched post executed b load)
    (hp : b.graph.pool? c = some p) (hpop : p.pop = some (some y, p')) :
    p.Gives y.objectId y.payload p' ∧ b.graph.tagsAt c = y.objectId :: p'.tags := by
  have hnd : p.tags.Nodup := by
    rw [← Graph.tagsAt_of_pool hp]
    exact (h.tags c).imp Strategy.Before.ne
  obtain ⟨hgive, htags⟩ := Pool.pop_eq_some hnd hpop
  exact ⟨hgive, (Graph.tagsAt_of_pool hp).trans htags⟩

/-- A thread that waits for a run has not begun with any run that it is not done with. -/
theorem waiting_or_done
    (h : Sound .dedicated g depth closed requests launched post executed b load) (hx : x ∈ load)
    (he : x.isEngaged .dedicated g = false) (r : ObjectId) :
    post r x.node = .waiting ∨ post r x.node = .done := by
  cases hp : post r x.node with
  | waiting => exact Or.inl rfl
  | done => exact Or.inr rfl
  | busy st =>
    obtain ⟨σ, s, q, -, -, -, hb⟩ := h.holds_of_busy hp
    have hsame := h.manned.node_unique hx (h.manned.busy hp) rfl
    rw [hsame, hb.posts.engaged hp] at he
    exact absurd he (by simp)

/-- The node has not begun with the run that its inlet shows, and is done with all earlier
ones. -/
theorem begins_with (hg : g.Frozen)
    (h : Sound .dedicated g depth closed requests launched post executed b load) (hx : x ∈ load)
    (he : x.isEngaged .dedicated g = false) (hmem : c ∈ g.inlets x.node) {runs : List ObjectId}
    (htags : b.graph.tagsAt c = r :: runs) :
    post r x.node = .waiting ∧ ∀ r', r' < r → post r' x.node = .done := by
  obtain ⟨hc, hreader⟩ := (hg.mem_inlets (h.manned.node_lt hx)).mp hmem
  constructor
  · refine (h.waiting_or_done hx he r).resolve_right fun hdone => ?_
    have := (h.present hc (htags ▸ List.mem_cons_self ..)).1
    rw [hreader, hdone] at this
    exact absurd this (by simp [Progress.all])
  · intro r' hlt
    refine (h.waiting_or_done hx he r').resolve_left fun hw => ?_
    have := h.taken_of_lt_head hc htags hlt
    rw [hreader, hw] at this
    exact absurd this (by simp [Progress.zero])

/-- **The first inlet shows the run to begin with.** -/
theorem attach (hg : g.Frozen)
    (h : Sound .dedicated g depth closed requests launched post executed b (x :: rest))
    (hst : x.stage = .awaiting none [] (c :: cs)) (hin : g.inlets x.node = c :: cs)
    (hp : b.graph.pool? c = some p)
    (hpop : p.pop = some (some y, p')) :
    ∃ post', Sound .dedicated g depth closed requests launched post' executed
      (b.modifyGraph (·.setPool c p'))
      (⟨x.node, .awaiting (some y.objectId) (c.inputs y.payload) cs⟩ :: rest) := by
  obtain ⟨r, e⟩ := y
  obtain ⟨hgive, htags⟩ := h.tagsAt_of_pop hp hpop
  have he : x.isEngaged .dedicated g = false := by simp [Execution.isEngaged, hst]
  have hv := h.manned.node_lt (List.mem_cons_self ..)
  have hmem : c ∈ g.inlets x.node := by
    rw [hin]
    exact List.mem_cons_self ..
  have hcar : b.graph.Carries c := h.alike.carries.mpr ((hg.mem_inlets hv).mp hmem).1
  -- the node waits for this run, and its thread is busy for no other
  obtain ⟨hwait, hearlier⟩ := h.begins_with hg (List.mem_cons_self ..) he hmem htags
  have hidle : ∀ r' st', post r' x.node ≠ .busy st' := by
    intro r' st' hbusy
    rcases h.waiting_or_done (List.mem_cons_self ..) he r' with hp | hp <;>
      simp [hp] at hbusy
  obtain ⟨σ, s, hs⟩ := h.tag_inFlight (htags ▸ List.mem_cons_self ..)
  obtain ⟨q, hq, -, hb⟩ := h.request_of_holds hs
  have hentry : (⟨r, e⟩ : Tagged (Entry α)) ∈ b.graph.entriesAt c := by
    rw [Graph.entriesAt_of_pool hp]
    exact hgive.mem
  have hbooks : Books .dedicated g q.inputs σ r s
      (fun c' e' => ⟨r, e'⟩ ∈ (b.graph.setPool c p').entriesAt c')
      (Function.update (post r) x.node
        (.busy (.awaiting (some r) (c.inputs e) cs))) :=
    hb.begin hg hv hwait hin hentry fun c' e' => by
      rw [Graph.entriesAt_of_gives hcar hp hgive]
      simp
  have halike : b.graph.Alike (b.modifyGraph (·.setPool c p')).graph := .setPool ..
  refine ⟨_, h.advance hs hq halike (h.laid.of_gives hcar hp hgive) (h.ledger.amends_refl hs) ?_ ?_
    hbooks ?_ ?_ (h.chronicle.update ?_)⟩
  · intro c' y hy
    rw [show (b.modifyGraph (·.setPool c p')).graph = b.graph.setPool c p' from rfl,
      Graph.entriesAt_of_gives hcar hp hgive]
    simp [hy]
  · exact fun c' => (h.tags c').sublist (Graph.tagsAt_of_gives hcar hp hgive c')
  · refine h.abreast.update ?_ ?_
    · intro _ w _ hw
      have hne : w ≠ x.node := by
        rintro rfl
        rw [hwait] at hw
        cases hw
      rwa [Function.update_of_ne hne]
    · intro _ w _ hw
      by_cases hwv : w = x.node
      · subst hwv
        exact Or.inr hearlier
      · rw [Function.update_of_ne hwv] at hw
        exact Or.inl hw
  · exact h.manned.begin hidle (by simp [Execution.isEngaged]) fun hrr hw hp =>
      hrr (h.run_unique hs (hb.posts.serves hp) hw)
  · intro w _
    by_cases hwv : w = x.node
    · subst hwv
      rw [Function.update_self, hwait]
      rfl
    · rw [Function.update_of_ne hwv]

/-- **Every other inlet shows the run that the node has begun with.** -/
theorem await (hg : g.Frozen)
    (h : Sound .dedicated g depth closed requests launched post executed b (x :: rest))
    (hpost : post r x.node = .busy x.stage) (hs : b.table.Holds σ r s)
    (hq : requests[r]? = some q) {taken : List (Entry α)}
    (hst : x.stage = .awaiting (some r) taken (c :: cs)) (hp : b.graph.pool? c = some p)
    (hpop : p.pop = some (some y, p')) :
    y.objectId = r ∧ ∃ post', Sound .dedicated g depth closed requests launched post' executed
      (b.modifyGraph (·.setPool c p'))
      (⟨x.node, .awaiting (some r) (taken ++ c.inputs y.payload) cs⟩ :: rest) := by
  obtain ⟨r', e⟩ := y
  obtain ⟨hgive, htags⟩ := h.tagsAt_of_pop hp hpop
  have hb := h.books hs hq
  have hv := hb.posts.lt_size hpost
  obtain ⟨-, cs₀, hin, hclaimed⟩ : StageFits .dedicated g q.inputs s.failed x.node
      (.awaiting (some r) taken (c :: cs)) := hst ▸ hb.posts.fits hpost
  have hmem : c ∈ g.inlets x.node := by simp [hin]
  obtain ⟨hc, hreader⟩ := (hg.mem_inlets hv).mp hmem
  have hcs : c ∉ cs := by
    have hnd := hg.nodup_inlets x.node
    rw [hin] at hnd
    exact (List.nodup_cons.mp (List.nodup_append.mp hnd).2.1).1
  have hleft : (post r x.node).progress.taken c = false := by
    rw [hpost, hst]
    simp [Stage.progress, Progress.taking]
  have hr' : r' ∈ b.graph.tagsAt c := by
    rw [htags]
    exact List.mem_cons_self ..
  obtain rfl : r' = r := by
    rcases Nat.lt_trichotomy r' r with hlt | he | hgt
    · have hdone := h.abreast rfl hlt hv (by simp [hpost])
      have := (h.present hc hr').1
      rw [hreader, hdone] at this
      exact absurd this (by simp [Progress.all])
    · exact he
    · have := h.taken_of_lt_head hc htags hgt
      rw [hreader, hleft] at this
      exact absurd this Bool.false_ne_true
  refine ⟨rfl, h.take hg (by simp [Execution.isEngaged, hst]) hpost hs hq hmem hcs hp hgive
    (by rw [hst]; rfl) rfl rfl rfl fun hfit => ?_⟩
  exact ⟨rfl, cs₀ ++ [c], by simp [hin], hclaimed.snoc hfit⟩

end Sound

end Dataflow
