import Dataflow.Proofs.Engine.Once
import Dataflow.Proofs.Scheduler.History
import Dataflow.Proofs.Scheduler.Outcomes

/-!
# Every node is executed once, and in order

Of all that threads do for the runs of a graph, in whatever interleaving, three things can be
said. Nothing is done twice, or before its turn, or for anybody else than runs that were
accepted and not cancelled (`Tenure.Orderly`). What is due to a run has been done by the time
it gets its outcome. And when no run is in flight, the counters of the nodes say how many
runs have ended, and how many callbacks were entered.

The predecessors of a node are listed in the order in which the edges were made
(`Graph.predecessors_link`), and so are the inputs of its callback.
-/

namespace Dataflow

variable {α : Type} [Payload α] {k : Strategy}

/-- **A history in good order.** A run that is refused has no number, so that nothing can be
done for it. -/
structure Tenure.Orderly (t : Tenure α) (T : List (Deed α)) : Prop where
  starts : (Deed.starts T).Nodup
  fires : (Deed.fires T).Nodup
  calls : (Deed.calls T).Nodup
  inTurn : Conforms (Deed.InTurn t.graph t.requests) T
  accepted : ∀ d ∈ T, ∃ a ∈ t.tickets, a.run = d.run ∧ a.run ∉ t.cancelled

/-- All that is due to a run has been done, and nothing of it twice. -/
structure Tenure.Through (t : Tenure α) (T : List (Deed α)) (a : Ticket α)
    (o : RunOutcome α) : Prop where
  ended : a.run ∈ Deed.ended T
  fired : ∀ v < t.graph.nodes.size, (Deed.fires T).count (v, a.run) = 1
  called : ∀ {result}, o = .ok result → ∀ {v n}, t.graph.nodes[v]? = some n →
    n.work.isSome = true → (Deed.calls T).count (v, a.run) = 1

namespace World

variable {w : World α} {t : Tenure α} {ts : List (Tenure α)} {b : Binding α} {T : List (Deed α)}

/-- What is known of a history and of the tenure that it belongs to. -/
theorem Recorded.precedence (h : w.Recorded k T) (hb : w.scheduler.binding = some b)
    (hts : w.tenures = t :: ts) :
    t.Running k w.scheduler w.owner w.taken b ∧ Custody k (t.scene w.scheduler b T) ∧
      Register (t.scene w.scheduler b T) ∧ Precedence (t.scene w.scheduler b T) := by
  obtain ⟨t₁, ts₁, hts₁, ⟨hc, hr⟩, hp⟩ := h.holds (stable_precedence k) hb
  obtain ⟨rfl, rfl⟩ := List.cons.inj (hts.symm.trans hts₁)
  exact ⟨h.reachable.orderly.running hb hts, hc, hr, hp⟩

/-- The runs that got a slot were accepted, and neither wait nor are cancelled. -/
theorem Recorded.mem_launched (h : w.Recorded k T) (hb : w.scheduler.binding = some b)
    (hts : w.tenures = t :: ts) {r : ObjectId} : r ∈ Deed.launched T ↔
      r < t.tickets.length ∧ r ∉ b.table.backlog.map (·.objectId) ∧ r ∉ t.cancelled := by
  obtain ⟨-, -, hr, -⟩ := h.precedence hb hts
  refine hr.launched_iff.trans ?_
  rw [Scene.Waits, not_or, Tenure.scene, Tenure.requests, List.length_map]

theorem Recorded.orderly (h : w.Recorded k T) (hb : w.scheduler.binding = some b)
    (hts : w.tenures = t :: ts) : t.Orderly T := by
  obtain ⟨hrun, hc, hr, hp⟩ := h.precedence hb hts
  refine {
    starts := hp.nodup_starts (hrun.scene_sound T) hr
    fires := hr.fires ▸ hr.nodup
    calls := hp.nodup_calls (hrun.scene_sound T) hr
    inTurn := hp.inTurn
    accepted := fun d hd => ?_ }
  obtain ⟨hlt, -, hnot⟩ := (h.mem_launched hb hts).mp (hc.launched_of_mem hd)
  have hnumber : t.tickets[d.run].run = d.run := by
    have := List.getElem_of_eq hrun.numbers (by simpa using hlt)
    simpa using this
  exact ⟨_, List.getElem_mem hlt, hnumber, hnumber.symm ▸ hnot⟩

/-- A run that has got its outcome is not open any more, and so it has ended. -/
theorem Recorded.through (h : w.Recorded k T) (hb : w.scheduler.binding = some b)
    (hts : w.tenures = t :: ts) {a : Ticket α} (ha : a ∈ t.tickets) (hc : a.run ∉ t.cancelled)
    {o : RunOutcome α} (ho : w.Yields a.cell o) : t.Through T a o := by
  obtain ⟨hrun, -, hr, hp⟩ := h.precedence hb hts
  have horderly := h.orderly hb hts
  have hq := Tenure.request_of_mem hrun.numbers ha
  obtain ⟨hresolved, hprescribed⟩ := hrun.docket.outcome hq ho
  have hclosed : ¬ b.table.Open a.run := fun hopen => by
    rw [hrun.docket.pending hq hopen] at hresolved
    cases hresolved
  have hended : a.run ∈ Deed.ended T := by
    refine hr.ended_iff.mpr ⟨(h.mem_launched hb hts).mpr ⟨?_, ?_, hc⟩, ?_⟩
    · have := (List.getElem?_eq_some_iff.mp hq).1
      rwa [Tenure.requests, List.length_map] at this
    · exact fun hmem => hclosed (Or.inr hmem)
    · exact fun hflight => hclosed (Or.inl hflight)
  have hfired : ∀ {v}, v < t.graph.nodes.size → (v, a.run) ∈ Deed.fires T :=
    fun hv => hp.fired_of_ended hended hv
  refine ⟨hended, fun v hv => List.count_eq_one_of_mem horderly.fires (hfired hv), ?_⟩
  rintro result rfl v n hn hw
  have hok : t.graph.failures (t.graph.evaluate a.staged) = [] := by
    rw [if_neg hc] at hprescribed
    rcases hprescribed with ⟨hf, -⟩ | ⟨e, -, he⟩
    · exact hf
    · cases he
  have hv : v < t.graph.nodes.size := (Array.getElem?_eq_some_iff.mp hn).1
  exact List.count_eq_one_of_mem horderly.calls
    (hp.called_of_fired (hfired hv) hq hok hn hw)

/-- The runs that have ended when no run is in flight: those that were accepted and not
cancelled. -/
theorem Recorded.ended_of_idle (h : w.Recorded k T) (hb : w.scheduler.binding = some b)
    (hts : w.tenures = t :: ts) (hidle : b.table.inFlight = 0) :
    (Deed.ended T).Perm ((t.tickets.map (·.run)).filter (· ∉ t.cancelled)) := by
  obtain ⟨hrun, -, hr, -⟩ := h.precedence hb hts
  obtain ⟨closed, launched, post, hsound, -⟩ := hrun.sound
  have hclosed := hsound.ledger.not_open hrun.depth_pos hrun.crowded hidle
  have hnodup : ((t.tickets.map (·.run)).filter (· ∉ t.cancelled)).Nodup := by
    rw [hrun.numbers]
    exact List.nodup_range.filter _
  refine (List.perm_ext_iff_of_nodup hr.nodup_ended hnodup).mpr fun r => ?_
  have hlaunched := h.mem_launched hb hts (r := r)
  rw [List.mem_filter, hrun.numbers, List.mem_range, decide_eq_true_iff]
  constructor
  · intro hended
    obtain ⟨hlt, -, hnot⟩ := hlaunched.mp (hr.ended_iff.mp hended).1
    exact ⟨hlt, hnot⟩
  · rintro ⟨hlt, hnot⟩
    exact hr.ended_iff.mpr ⟨hlaunched.mpr ⟨hlt, fun hmem => hclosed r (Or.inr hmem), hnot⟩,
      fun hflight => hclosed r (Or.inl hflight)⟩

/-- **Exactly once, and in order**, whatever the interleaving. -/
theorem executes_once_in_order (h : w.Reachable k) (hb : w.scheduler.binding = some b) :
    (∃ T, w.Recorded k T) ∧ ∃ t ts, w.tenures = t :: ts ∧ ∀ T, w.Recorded k T →
      t.Orderly T ∧
      (∀ a ∈ t.tickets, a.run ∉ t.cancelled → ∀ o, w.Yields a.cell o → t.Through T a o) ∧
      (b.table.inFlight = 0 →
        (Deed.ended T).Perm ((t.tickets.map (·.run)).filter (· ∉ t.cancelled)) ∧
        ∀ v < t.graph.nodes.size, ∃ runs timed, t.graph.tally v = some (runs, timed) ∧
          b.graph.tally v = some (runs + (Deed.ended T).length,
            timed + occurrences v (Deed.calls T))) := by
  obtain ⟨t, ts, hts, -⟩ := h.orderly.bound hb
  refine ⟨h.recorded, t, ts, hts, fun T hT => ⟨hT.orderly hb hts,
    fun a ha hc o ho => hT.through hb hts ha hc ho, fun hidle =>
    ⟨hT.ended_of_idle hb hts hidle, fun v hv => ?_⟩⟩⟩
  obtain ⟨hrun, hc, hr, hp⟩ := hT.precedence hb hts
  have htally := hp.tally_of_idle hc hr (hrun.scene_sound T) hidle hv
  have hstation : v < t.graph.stations.size := by
    rw [hrun.frozen.linked.size_stations]
    exact hv
  have hbound : t.graph.tally v =
      some (t.graph.stations[v].runs, t.graph.stations[v].timed) := by
    simp [Graph.tally, hstation]
  refine ⟨_, _, hbound, ?_⟩
  rw [show (t.scene w.scheduler b T).graph = t.graph from rfl, hbound] at htally
  exact htally

/-- In the relay the first run fails, and all three have been through both nodes. -/
theorem executes_once_in_order_relay :
    ∃ T t, (Relay.rested .dedicated).Recorded .dedicated T ∧
      (Relay.rested .dedicated).tenures = [t] ∧ t.Orderly T ∧
      (∀ a ∈ t.tickets, ∃ o, t.Through T a o) ∧
      (Deed.ended T).length = 3 ∧ occurrences 1 (Deed.calls T) = 3 := by
  obtain ⟨b, hb⟩ := Option.isSome_iff_exists.mp
    (show (Relay.rested .dedicated).scheduler.binding.isSome by decide +kernel)
  have hidle : ∀ b ∈ (Relay.rested .dedicated).scheduler.binding, b.table.inFlight = 0 := by
    decide +kernel
  have htallies : ∀ b ∈ (Relay.rested .dedicated).scheduler.binding,
      b.graph.tally 1 = some (3, 3) := by
    decide +kernel
  have hbefore : ∀ t ∈ (Relay.rested .dedicated).tenures, t.cancelled = [] ∧
      1 < t.graph.nodes.size ∧ t.graph.tally 1 = some (0, 0) := by
    decide +kernel
  obtain ⟨⟨T, hT⟩, t, ts, hts, hall⟩ :=
    executes_once_in_order (Relay.reachable_rested .dedicated) hb
  obtain ⟨horderly, hthrough, hrest⟩ := hall T hT
  have ht : t ∈ (Relay.rested .dedicated).tenures := hts ▸ List.mem_cons_self ..
  obtain ⟨hcancelled, hsize, hzero⟩ := hbefore t ht
  have hone : ts = [] := by
    have := Relay.rested_tenures .dedicated
    rw [hts] at this
    simpa using this
  obtain ⟨-, htally⟩ := hrest (hidle b hb)
  obtain ⟨runs, timed, hwas, his⟩ := htally 1 hsize
  rw [hzero] at hwas
  rw [htallies b hb] at his
  obtain ⟨rfl, rfl⟩ := Prod.mk.inj (Option.some.inj hwas)
  obtain ⟨hended, hcalls⟩ := Prod.mk.inj (Option.some.inj his)
  refine ⟨T, t, hT, hone ▸ hts, horderly, fun a ha => ?_, by omega, by omega⟩
  obtain ⟨o, ho⟩ := (Relay.reachable_rested .dedicated).yields_of_rest ht ha
    (Relay.rested_atRest _)
  exact ⟨o, hthrough a ha (by simp [hcancelled]) o ho⟩

end World

end Dataflow
