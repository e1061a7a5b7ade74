import Dataflow.Proofs.Engine.Arrivals
import Dataflow.Proofs.Engine.Ending

/-!
# Nothing gets stuck

As long as a run is in flight, some execution can go on (`Sound.idle_of_rest`). Executions
wait for nothing but entries, and only those of nodes with threads of their own do
(`Sound.waits`). So take the oldest run in flight, and suppose that nobody can go on. Along
the edges, every node turns out to be done with the run: its predecessors are done and have
published, so nothing keeps it from taking its inputs. But then the last sink would be
about to end the run.

With workers any run would do. A node with a thread of its own may have to turn to older
runs first, and of the oldest run in flight there are none.
-/

namespace Dataflow

variable {α : Type} [Payload α] {k : Strategy} {g : Graph α}

/-- A run in flight is not over: some node is not done with it. -/
theorem Books.not_all_done {staged : Staged α} {σ : SlotId} {r : ObjectId} {s : RunStatus α}
    {has : Channel → Entry α → Prop} {p : NodeId → Post α} (hg : g.Frozen)
    (h : Books k g staged σ r s has p) : ¬ ∀ v, v < g.nodes.size → p v = .done := by
  intro hall
  have hzero : s.remainingSinks = 0 := by
    rw [h.counts.sinks_eq, List.countP_eq_zero]
    intro v hv
    simp [hall v (hg.mem_sinks.mp hv).1, Progress.all]
  -- no sink is outstanding, so somebody is about to give the slot back
  obtain ⟨v, hv⟩ := h.counts.completing_iff.mpr hzero
  obtain ⟨seat, hbusy⟩ := Post.eq_of_completing hv
  have hdone := hall v (h.posts.lt_size hbusy)
  rw [hbusy] at hdone
  cases hdone

namespace Sound

variable {depth : Nat} {closed : Bool} {requests : List (Request α)} {launched : Nat}
  {post : ObjectId → NodeId → Post α} {executed : List (NodeId × ObjectId)} {b : Binding α}
  {load : List (Execution α)} {x : Execution α} {r : ObjectId} {σ : SlotId}
  {s : RunStatus α} {v : NodeId}

/-- **Who cannot go on** waits for an entry, or was dismissed. -/
theorem waits (h : Sound k g depth closed requests launched post executed b load)
    (hx : x ∈ load) (hcan : x.canAdvance b = false) : k = .dedicated ∧
      ((∃ run taken c cs, x.stage = .awaiting run taken (c :: cs) ∧ b.graph.tagsAt c = []) ∨
        x.stage = .stopped ∧ closed = true) := by
  have hfacts : (∃ staged failed, StageFits k g staged failed x.node x.stage) ∨
      x.Rests k g closed := by
    cases he : x.isEngaged k g with
    | true =>
      obtain ⟨r, σ, s, q, hpost, -, -, -, hb⟩ := h.serving hx he
      exact Or.inl ⟨q.inputs, s.failed, hb.posts.fits hpost⟩
    | false => exact Or.inr (h.manned.resting hx he)
  unfold Execution.canAdvance at hcan
  -- of the stages that may be unable to go on, only two occur in a load that is sound
  split at hcan
  · next run taken c cs hst =>
    have hk : k = .dedicated := by
      rcases hfacts with ⟨staged, failed, hfits⟩ | hrests
      · rw [hst] at hfits
        exact hfits.1
      · simp only [Execution.Rests, hst] at hrests
        split at hrests <;> simp_all
    obtain ⟨p, hp, hwaits⟩ : ∃ p, b.graph.pool? c = some p ∧ p.popWaits = true := by
      cases hp : b.graph.pool? c with
      | none => simp [hp] at hcan
      | some p => exact ⟨p, rfl, by simpa [hp] using hcan⟩
    refine ⟨hk, Or.inl ⟨run, taken, c, cs, hst, ?_⟩⟩
    have hempty : p.entries = [] := by
      by_contra hne
      rw [Pool.popWaits_of_ne_nil hne] at hwaits
      cases hwaits
    rw [Graph.tagsAt, Graph.entriesAt_of_pool hp, hempty]
    rfl
  · next seat c e rest hst =>
    rcases hfacts with ⟨staged, failed, hfits⟩ | hrests
    · rw [hst] at hfits
      exact absurd hfits.1 (by simp)
    · simp [Execution.Rests, hst] at hrests
  · next hst =>
    rcases hfacts with ⟨staged, failed, hfits⟩ | hrests
    · rw [hst] at hfits
      exact hfits.elim
    · simp [Execution.Rests, hst] at hrests
  · next hst =>
    rcases hfacts with ⟨staged, failed, hfits⟩ | hrests
    · rw [hst] at hfits
      exact hfits.elim
    · simp only [Execution.Rests, hst] at hrests
      exact ⟨hrests.1, Or.inr ⟨hst, hrests.2⟩⟩
  · next hst =>
    rcases hfacts with ⟨staged, failed, hfits⟩ | hrests
    · rw [hst] at hfits
      exact hfits.elim
    · simp [Execution.Rests, hst] at hrests
  · cases hcan

/-- The entries of a run are there when the predecessors are done. -/
theorem mem_tagsAt (hg : g.Frozen)
    (h : Sound k g depth closed requests launched post executed b load)
    (hs : b.table.Holds σ r s) (hv : v < g.nodes.size)
    (hpreds : ∀ u ∈ g.predecessors v, post r u = .done) {c : Channel} (hc : c ∈ g.inlets v)
    (hleft : (post r v).progress.taken c = false) : r ∈ b.graph.tagsAt c := by
  obtain ⟨q, -, -, hb⟩ := h.request_of_holds hs
  obtain ⟨hcar, hreader⟩ := (hg.mem_inlets hv).mp hc
  refine Graph.mem_tagsAt.mpr ((hb.flow.present_iff hcar).mpr ⟨?_, hreader ▸ hleft⟩)
  cases c with
  | staging w => rfl
  | edge u w =>
    obtain rfl : w = v := hreader
    simp [filled, hpreds u (hg.linked.mem_predecessors.mpr hcar), Progress.all]

/-- **Nobody can go on, and so every node is done** with the oldest run in flight. -/
theorem done_of_rest (hg : g.Frozen)
    (h : Sound k g depth closed requests launched post executed b load)
    (hrest : ∀ x ∈ load, x.canAdvance b = false) (hs : b.table.Holds σ r s)
    (holdest : ∀ r' < r, ¬ b.table.InFlight r') (hv : v < g.nodes.size) :
    post r v = .done := by
  obtain ⟨q, -, -, hb⟩ := h.request_of_holds hs
  have hopen := h.not_closed ⟨σ, s, hs⟩
  refine hg.forward_induction (P := fun v => post r v = .done) (fun v hv hpreds => ?_) hv
  -- an inlet that the node has not taken from is not empty
  have hentry : ∀ c ∈ g.inlets v, (post r v).progress.taken c = false →
      b.graph.tagsAt c ≠ [] := fun c hc hleft =>
    List.ne_nil_of_mem (h.mem_tagsAt hg hs hv hpreds hc hleft)
  cases hp : post r v with
  | done => rfl
  | busy st =>
    exfalso
    obtain ⟨rfl, ⟨run, taken, c, cs, hst, hnil⟩ | ⟨-, hc⟩⟩ :=
      h.waits (h.manned.busy hp) (hrest _ (h.manned.busy hp))
    · obtain rfl : st = .awaiting run taken (c :: cs) := hst
      obtain ⟨-, cs₀, hin, -⟩ := hb.posts.fits hp
      refine hentry c (by simp [hin]) ?_ hnil
      simp [hp, Stage.progress, Progress.taking]
    · rw [hopen] at hc
      cases hc
  | waiting =>
    exfalso
    cases k with
    | stealing =>
      -- the last predecessor that was done has made the node begin
      have hbegun := (hb.counts.begun_iff rfl hv).mpr fun u hu => by
        simp [hpreds u hu, Progress.all]
      simp [hp, Progress.zero] at hbegun
    | dedicated =>
      -- the thread of the node does not work for another run
      obtain ⟨x, hx, rfl⟩ := List.mem_map.mp
        ((h.manned.nodes rfl).mem_iff.mpr (List.mem_range.mpr hv))
      have hidle : x.isEngaged .dedicated g = false := by
        by_contra he
        obtain ⟨r', hr'⟩ := h.manned.engaged hx (by simpa using he)
        rcases Nat.lt_trichotomy r' r with hlt | rfl | hgt
        · obtain ⟨τ, s', -, hs', -⟩ := h.holds_of_busy hr'
          exact holdest r' hlt ⟨τ, s', hs'⟩
        · rw [hp] at hr'
          cases hr'
        · have hdone := h.abreast rfl hgt hv (by simp [hr'])
          rw [hp] at hdone
          cases hdone
      obtain ⟨-, ⟨run, taken, c, cs, hst, hnil⟩ | ⟨-, hc⟩⟩ := h.waits hx (hrest x hx)
      · have hrests := h.manned.resting hx hidle
        rw [Execution.Rests, hst] at hrests
        cases run with
        | some run => exact hrests.elim
        | none =>
          refine hentry c (by simp [← hrests.2.2]) ?_ hnil
          simp [hp, Progress.zero]
      · rw [hopen] at hc
        cases hc

/-- **When nobody can go on, no run is in flight.** -/
theorem idle_of_rest (hg : g.Frozen)
    (h : Sound k g depth closed requests launched post executed b load)
    (hrest : ∀ x ∈ load, x.canAdvance b = false) : b.table.inFlight = 0 := by
  classical
  refine h.ledger.inFlight_eq_zero.mpr fun r hr => ?_
  -- nobody stands in the way of the oldest run in flight
  have hex : ∃ r, b.table.InFlight r := ⟨r, hr⟩
  obtain ⟨σ, s, hs⟩ := Nat.find_spec hex
  obtain ⟨q, -, -, hb⟩ := h.request_of_holds hs
  exact hb.not_all_done hg fun v hv =>
    h.done_of_rest hg hrest hs (fun r' hr' => Nat.find_min hex hr') hv

end Sound

end Dataflow
