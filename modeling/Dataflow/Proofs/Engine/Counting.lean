import Dataflow.Proofs.Engine.Operations

/-!
# Counting down

The operations that the slot of a run counts. A worker releases the successors of a node
one after another, and the last predecessor to do so makes a task of the successor
(`Sound.release`). Each sink is counted when it has finished, and the last one ends the
run (`Sound.finish`). No count is ever below what is still to come, so none is counted
down from zero.
-/

namespace Dataflow

variable {α : Type} {k : Strategy} {g : Graph α}

/-! ### The posts of a run when a node releases another -/

/-- The post of a node that has so many predecessors left to wait for. -/
def Post.owing (σ : SlotId) (n : Nat) : Post α :=
  if n == 0 then .busy (.opening σ) else .waiting

theorem Post.progress_owing (σ : SlotId) (n : Nat) :
    (owing σ n : Post α).progress = { Progress.zero with begun := n == 0 } := by
  unfold owing
  cases hz : n == 0 <;> rfl

/-- What has been brought about while successors are left to release, or none are. -/
theorem Post.releasing_ofStage (k : Strategy) (g : Graph α) (v : NodeId) (seat : Seat)
    (ws : List NodeId) :
    ∃ P, (Post.ofStage k g v (.releasing seat ws : Stage α)).progress = P ∧
      P.begun = true ∧ (∀ c, P.taken c = true) ∧ P.fired = true ∧ P.recorded = true ∧
      (∀ c, P.published c = true) ∧ (∀ w, P.released w = decide (w ∉ ws)) ∧
      P.completing = false := by
  refine ⟨_, rfl, ?_⟩
  by_cases he : (⟨v, .releasing seat ws⟩ : Execution α).isEngaged k g = true
  · rw [Post.progress_ofStage he]
    simp [Stage.progress, Progress.publishing, Progress.taking, Progress.zero]
  · have hws : ws = [] := by simpa [Execution.isEngaged] using he
    rw [Post.ofStage, if_neg he]
    simp [Progress.all, hws]

/-- The node `v` has released `w`, which has `n` predecessors left to wait for, and goes on
with the successors `ws`. -/
def released (k : Strategy) (g : Graph α) (p : NodeId → Post α) (v : NodeId) (seat : Seat)
    (ws : List NodeId) (w : NodeId) (n : Nat) : NodeId → Post α :=
  Function.update (Function.update p v (.ofStage k g v (.releasing seat ws))) w
    (.owing seat.slot n)

section released

variable {p : NodeId → Post α} {v w : NodeId} {seat : Seat} {ws : List NodeId} {n : Nat}

theorem released_self : released k g p v seat ws w n w = .owing seat.slot n :=
  Function.update_self ..

theorem released_releaser (hne : w ≠ v) :
    released k g p v seat ws w n v = .ofStage k g v (.releasing seat ws) := by
  rw [released, Function.update_of_ne hne.symm, Function.update_self]

theorem released_other {u : NodeId} (hw : u ≠ w) (hv : u ≠ v) :
    released k g p v seat ws w n u = p u := by
  rw [released, Function.update_of_ne hw, Function.update_of_ne hv]

/-- The released node is busy if nothing is left to wait for, and the releaser is if
successors are. -/
theorem busy_of_released {u : NodeId} {st : Stage α} (hne : w ≠ v)
    (h : released k g p v seat ws w n u = .busy st) :
    (u = w ∧ (n == 0) = true ∧ st = .opening seat.slot) ∨
      (u = v ∧ st = .releasing seat ws) ∨ u ≠ v ∧ p u = .busy st := by
  by_cases hw : u = w
  · subst hw
    rw [released_self, Post.owing] at h
    split at h
    · next hz => exact Or.inl ⟨rfl, hz, (Post.busy.inj h).symm⟩
    · cases h
  · by_cases hv : u = v
    · subst hv
      rw [released_releaser hne, Post.ofStage] at h
      split at h
      · exact Or.inr (Or.inl ⟨rfl, (Post.busy.inj h).symm⟩)
      · cases h
    · rw [released_other hw hv] at h
      exact Or.inr (Or.inr ⟨hv, h⟩)

end released

variable [Payload α]

namespace Books

variable {staged : Staged α} {σ : SlotId} {r : ObjectId} {s : RunStatus α}
  {has : Channel → Entry α → Prop} {p : NodeId → Post α} {v w : NodeId} {P W : Post α}

/-- A node releases a successor that has been waiting. -/
theorem release (hg : g.Frozen) (h : Books k g staged σ r s has p) (hk : k = .stealing)
    (hw : w ∈ g.successors v) (hne : w ≠ v) (hwait : p w = .waiting)
    (hnew : (p v).progress.released w = false) {n : Nat}
    (hn : s.remainingDeps[w]? = some (n + 1))
    (hW : W.progress = { Progress.zero with begun := n == 0 })
    (hbegun : P.progress.begun = (p v).progress.begun)
    (htaken : ∀ c ∈ g.inlets v, P.progress.taken c = (p v).progress.taken c)
    (hpub : ∀ c ∈ g.outlets v, P.progress.published c = (p v).progress.published c)
    (hrec : P.progress.recorded = (p v).progress.recorded)
    (hrel : ∀ u, P.progress.released u = (decide (u = w) || (p v).progress.released u))
    (hcomp : P.progress.completing = (p v).progress.completing)
    (hposts : Posts k g staged s.failed σ r (Function.update (Function.update p v P) w W)) :
    Books k g staged σ r (s.releaseDependency w) has
      (Function.update (Function.update p v P) w W) := by
  have hq : (fun u => (Function.update (Function.update p v P) w W u).progress) =
      Function.update (Function.update (fun u => (p u).progress) v P.progress) w W.progress := by
    rw [progress_update, progress_update]
  have hzero : Function.update (fun u => (p u).progress) v P.progress w = .zero := by
    rw [Function.update_of_ne hne, hwait]
    rfl
  constructor
  · rw [hq]
    refine (h.flow.update hg hpub htaken).update hg ?_ ?_
    · intro c _
      rw [hzero, hW]
    · intro c _
      rw [hzero, hW]
  · rw [hq]
    refine h.counts.release hg.linked hk hw hnew hn sizeLimit ?_ ?_ ?_ ?_
    · intro u w' hw'
      by_cases huw : u = w
      · subst huw
        rw [Function.update_self, hW]
        simp [hwait, hne, Progress.zero]
      · rw [Function.update_of_ne huw]
        by_cases huv : u = v
        · subst huv
          simp [hrel]
        · simp [huv]
    · intro w'
      by_cases hww : w' = w
      · subst hww
        simp [hW]
      · rw [Function.update_of_ne hww, if_neg hww]
        exact update_same (·.begun) hbegun w'
    · intro u hu
      have hus := (hg.mem_sinks.mp hu).2
      by_cases huw : u = w
      · subst huw
        rw [Function.update_self, hW, hwait]
        rfl
      · have huv : u ≠ v := by
          rintro rfl
          rw [hus] at hw
          cases hw
        rw [Function.update_of_ne huw, Function.update_of_ne huv]
    · intro u
      by_cases huw : u = w
      · subst huw
        rw [Function.update_self, hW, hwait]
        rfl
      · rw [Function.update_of_ne huw]
        exact update_same (·.completing) hcomp u
  · rw [hq]
    refine (h.results.update hrec).update ?_
    rw [hzero, hW]
  · exact hposts

/-- A node that is to release a successor is waited for by it. -/
theorem waiting_of_releasing (hg : g.Frozen) (h : Books k g staged σ r s has p)
    {ws : List NodeId} (hpost : p v = .busy (.releasing ⟨σ, r⟩ (w :: ws))) :
    k = .stealing ∧ w ∈ g.successors v ∧ w ∉ ws ∧ w ≠ v ∧ p w = .waiting ∧
      ∃ n, s.remainingDeps[w]? = some (n + 1) := by
  obtain ⟨hk, hsuff⟩ : StageFits k g staged s.failed v (.releasing ⟨σ, r⟩ (w :: ws)) :=
    h.posts.fits hpost
  have hw : w ∈ g.successors v := hsuff.subset (List.mem_cons_self ..)
  have hws : w ∉ ws :=
    (List.nodup_cons.mp (hsuff.sublist.nodup (hg.linked.nodup_successors _))).1
  have hnew : (p v).progress.released w = false := by
    rw [hpost]
    simp [Stage.progress, Progress.publishing]
  -- it owes the release, so the successor has not begun
  obtain ⟨hbegun, n, hn⟩ := h.counts.owed hg.linked hk hw hnew
  have hwait : p w = .waiting := by
    by_contra hne
    have := (Post.begun_iff (p := p w)).mpr hne
    rw [hbegun] at this
    exact absurd this Bool.false_ne_true
  have hne : w ≠ v := by
    rintro rfl
    rw [hpost] at hwait
    cases hwait
  exact ⟨hk, hw, hws, hne, hwait, n, hn⟩

/-- The books of the run when it has done so. -/
theorem releasing (hg : g.Frozen) (h : Books k g staged σ r s has p) {ws : List NodeId} {n : Nat}
    (hpost : p v = .busy (.releasing ⟨σ, r⟩ (w :: ws)))
    (hn : s.remainingDeps[w]? = some (n + 1)) :
    Books k g staged σ r (s.releaseDependency w) has (released k g p v ⟨σ, r⟩ ws w n) := by
  obtain ⟨hk, hw, hws, hne, hwait, -⟩ := h.waiting_of_releasing hg hpost
  have hsuff : w :: ws <:+ g.successors v := (h.posts.fits hpost).2
  have hP : (p v).progress =
      { Progress.publishing [] with released := fun u => decide (u ∉ w :: ws) } := by
    rw [hpost]
    rfl
  obtain ⟨P, hP', hPb, hPt, -, hPr, hPp, hPrel, hPc⟩ :=
    Post.releasing_ofStage k g v ⟨σ, r⟩ ws
  have hposts : Posts k g staged s.failed σ r (released k g p v ⟨σ, r⟩ ws w n) := by
    have hreleaser : Posts k g staged s.failed σ r
        (Function.update p v (.ofStage k g v (.releasing ⟨σ, r⟩ ws))) :=
      h.posts.ofStage (h.posts.lt_size hpost) rfl ⟨hk, (List.suffix_cons _ _).trans hsuff⟩
    unfold released Post.owing
    split
    · exact hreleaser.busy (hg.linked.target_lt hw) rfl rfl hk
    · exact hreleaser.idle (by simp)
  have hnew : (p v).progress.released w = false := by simp [hP]
  refine h.release hg hk hw hne hwait hnew hn (Post.progress_owing σ n) ?_ ?_ ?_ ?_ ?_ ?_ hposts
  · rw [hP, hP', hPb]
    rfl
  · intro c _
    rw [hP, hP', hPt]
    rfl
  · intro c _
    rw [hP, hP', hPp]
    rfl
  · rw [hP, hP', hPr]
    rfl
  · intro u
    rw [hP, hP', hPrel]
    by_cases huw : u = w
    · subst huw
      simp [hws]
    · simp [huw]
  · rw [hP, hP', hPc]
    rfl

/-- A sink is counted. -/
theorem finish (hg : g.Frozen) (h : Books k g staged σ r s has p) (hv : v ∈ g.sinks) {n : Nat}
    (hn : s.remainingSinks = n + 1) (hnew : (p v).progress.finished = false)
    (hbegun : P.progress.begun = (p v).progress.begun)
    (htaken : ∀ c ∈ g.inlets v, P.progress.taken c = (p v).progress.taken c)
    (hrec : P.progress.recorded = (p v).progress.recorded) (hfin : P.progress.finished = true)
    (hcomp : P.progress.completing = (n == 0))
    (hposts : Posts k g staged s.failed σ r (Function.update p v P)) :
    Books k g staged σ r s.finishSink has (Function.update p v P) := by
  have hs : s.finishSink.remainingSinks = n := by
    simp [RunStatus.finishSink, hn, countDown]
  constructor
  · rw [progress_update]
    refine h.flow.update hg (fun c hc => ?_) htaken
    rw [Graph.outlets, (hg.mem_sinks.mp hv).2] at hc
    cases hc
  · rw [progress_update, hs]
    exact h.counts.finish hg hv hnew hn (fun _ => hbegun) hfin hcomp
  · rw [progress_update]
    exact h.results.update hrec
  · exact hposts

end Books

namespace Sound

variable {depth : Nat} {closed : Bool}
  {requests : List (Request α)} {launched : Nat} {post : ObjectId → NodeId → Post α}
  {executed : List (NodeId × ObjectId)} {b : Binding α} {x : Execution α}
  {rest : List (Execution α)} {σ : SlotId} {r : ObjectId} {s : RunStatus α} {q : Request α}

/-- **A successor is released**, and becomes a task if it was waiting for this node
only. -/
theorem release (hg : g.Frozen)
    (h : Sound k g depth closed requests launched post executed b (x :: rest))
    (he : x.isEngaged k g = true) (hpost : post r x.node = .busy x.stage)
    (hs : b.table.Holds σ r s) (hq : requests[r]? = some q) {w : NodeId} {ws : List NodeId}
    (hst : x.stage = .releasing ⟨σ, r⟩ (w :: ws)) :
    ∃ last, b.table.dependencyVerdict σ w = .ok last ∧
      ∃ post', Sound k g depth closed requests launched post' executed
        (b.modifyStatus σ (·.releaseDependency w))
        (⟨x.node, .releasing ⟨σ, r⟩ ws⟩ ::
          (if last then [⟨w, σ⟩] else []).map .ofTask ++ rest) := by
  have hb := h.books hs hq
  obtain ⟨hk, -, -, hne, hwait, n, hn⟩ := hb.waiting_of_releasing hg (hst ▸ hpost)
  refine ⟨n == 0, by simp [Table.dependencyVerdict, hs.1, RunStatus.dependencyVerdict, hn], ?_⟩
  have hbooks := hb.releasing hg (hst ▸ hpost) hn
  have ht : b.table.Amends (b.modifyStatus σ (·.releaseDependency w)).table σ r
      (s.releaseDependency w) := h.ledger.amends_modify hs fun _ => ⟨rfl, rfl⟩
  have hfired : ∀ u, u < g.nodes.size →
      (released k g (post r) x.node ⟨σ, r⟩ ws w n u).progress.fired =
        (post r u).progress.fired := by
    intro u _
    by_cases huw : u = w
    · subst huw
      rw [released_self, Post.progress_owing, hwait]
      rfl
    · by_cases hux : u = x.node
      · subst hux
        obtain ⟨P, hP, -, -, hfired, -⟩ := Post.releasing_ofStage k g x.node ⟨σ, r⟩ ws
        rw [released_releaser hne, hP, hfired, hpost, hst]
        rfl
      · rw [released_other huw hux]
  have hnot : k ≠ .dedicated := by
    rw [hk]
    decide
  -- the released node gets a task if it is busy now, and nothing else is new
  refine ⟨_, h.onward (b.modifyStatus σ (·.releaseDependency w)) he hpost hs hq (.refl _) h.laid ht
    (fun _ _ _ => Iff.rfl) h.tags hbooks (fun hd => absurd hd hnot) (h.chronicle.update hfired)
    ?_ ?_ ?_ ?_ ?_ fun hd => absurd hd hnot⟩
  · intro y hy hye
    rcases List.mem_cons.mp hy with rfl | hy
    · exact ⟨by rw [released_releaser hne, Post.ofStage, if_pos hye], Or.inl rfl⟩
    · split at hy
      · next hz =>
        obtain rfl : y = .ofTask ⟨w, σ⟩ := by simpa using hy
        exact ⟨released_self.trans (if_pos hz), Or.inr hwait⟩
      · simp at hy
  · intro y hy hye
    rcases List.mem_cons.mp hy with rfl | hy
    · exact ⟨hk, by simpa [Execution.isEngaged] using hye⟩
    · split at hy
      · obtain rfl : y = .ofTask ⟨w, σ⟩ := by simpa using hy
        simp [Execution.isEngaged, Execution.ofTask] at hye
      · simp at hy
  · intro u st hu
    rcases busy_of_released hne hu with ⟨rfl, hz, rfl⟩ | ⟨rfl, rfl⟩ | hold
    · exact Or.inl (by simp [hz, Execution.ofTask])
    · exact Or.inl (List.mem_cons_self ..)
    · exact Or.inr hold
  · intro u st hux hu
    have huw : u ≠ w := by
      rintro rfl
      rw [hwait] at hu
      cases hu
    rwa [released_other huw hux]
  · split <;> simp [Execution.ofTask, Ne.symm hne]

/-- **A sink is counted as finished.** The last one goes on to end the run, and any other
one is done. -/
theorem finish (hg : g.Frozen)
    (h : Sound k g depth closed requests launched post executed b (x :: rest))
    (he : x.isEngaged k g = true) (hpost : post r x.node = .busy x.stage)
    (hs : b.table.Holds σ r s) (hq : requests[r]? = some q)
    (hst : x.stage = .finishing ⟨σ, r⟩) {news : List (Execution α)}
    (hnews : ∀ {y}, y ∈ news → y.isEngaged k g = false ∧ y.Rests k g closed)
    (hnodup : (news.map (·.node)).Nodup)
    (hnodes : k = .dedicated → news.map (·.node) = [x.node]) :
    ∃ last, b.table.sinkVerdict σ = .ok last ∧
      ∃ post', Sound k g depth closed requests launched post' executed
        (b.modifyStatus σ (·.finishSink))
        ((if last then [⟨x.node, .completing ⟨σ, r⟩⟩] else news) ++ rest) := by
  have hb := h.books hs hq
  have hv := hb.posts.lt_size hpost
  have hsucc : StageFits k g q.inputs s.failed x.node (.finishing ⟨σ, r⟩) :=
    hst ▸ hb.posts.fits hpost
  have hsink : x.node ∈ g.sinks := hg.mem_sinks.mpr ⟨hv, hsucc⟩
  have hP : (post r x.node).progress =
      { Progress.publishing [] with released := fun _ => true } := by
    rw [hpost, hst]
    rfl
  have hnew : (post r x.node).progress.finished = false := by
    rw [hP]
    rfl
  obtain ⟨n, hn⟩ := hb.counts.unfinished hsink hnew
  have ht : b.table.Amends (b.modifyStatus σ (·.finishSink)).table σ r s.finishSink :=
    h.ledger.amends_modify hs fun _ => ⟨rfl, rfl⟩
  have hbooks : ∀ {P : Post α}, P.progress = { Progress.all with
      completing := n == 0, ended := P.progress.ended } →
      Posts k g q.inputs s.failed σ r (Function.update (post r) x.node P) →
      Books k g q.inputs σ r s.finishSink (fun c e => ⟨r, e⟩ ∈ b.graph.entriesAt c)
        (Function.update (post r) x.node P) := by
    intro P hP' hposts
    refine hb.finish hg hsink hn hnew ?_ ?_ ?_ ?_ ?_ hposts
    · rw [hP, hP']
      rfl
    · intro c _
      rw [hP, hP']
      rfl
    · rw [hP, hP']
      rfl
    · rw [hP']
      rfl
    · rw [hP']
  refine ⟨n == 0, by simp [Table.sinkVerdict, hs.1, RunStatus.sinkVerdict, hn], ?_⟩
  by_cases hz : n = 0
  -- the last sink goes on to end the run
  · subst hz
    refine ⟨_, h.proceed (b.modifyStatus σ (·.finishSink)) he hpost hs hq (.refl _) h.laid ht
      (fun _ _ _ => Iff.rfl) h.tags (hbooks ?_ (hb.posts.ofStage hv rfl hsucc))
      (h.chronicle.update fun v _ => fired_update hpost ?_ v) ?_⟩
    · rfl
    · rw [hst]
      rfl
    · exact fun hne => absurd hne (by simp [Execution.isEngaged])
  -- any other one is done
  · have hz' : (n == 0) = false := by simpa using hz
    rw [hz']
    refine ⟨_, h.quit (b.modifyStatus σ (·.finishSink)) he hpost hs hq (.refl _) h.laid ht
      (fun _ _ _ => Iff.rfl) h.tags (hbooks ?_ (hb.posts.idle (by simp)))
      (h.chronicle.update fun v _ => fired_update hpost ?_ v) hnews hnodup hnodes⟩
    · rw [hz']
      rfl
    · rw [hst]
      rfl

end Sound

end Dataflow
