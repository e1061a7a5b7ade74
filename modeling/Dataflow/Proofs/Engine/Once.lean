import Mathlib.Data.List.Flatten
import Dataflow.Proofs.Engine.Precedence

/-!
# Nothing is done twice

For every run that gets a slot, a node begins once, fires once, and calls its callback once
at most. That it fires once is on record; who has begun has fired, or is still at it, and
nobody is at it who has fired (`Precedence.nodup_begun`).

When no run is in flight, nobody is at anything, and all runs that got a slot have been
through all nodes. So the counters of a node say how many runs have ended, and how many
callbacks were entered (`Precedence.tally_of_idle`).
-/

namespace Dataflow

variable {α : Type}

/-! ### The runs of a history -/

namespace Deed

/-- The run that something is done for. -/
def run : Deed α → ObjectId
  | .reset seat => seat.run
  | .taken seat => seat.run
  | .queued _ r => r
  | .did _ r _ _ => r

/-- Whoever holds a slot has got it. -/
theorem Held.launched {past : List (Deed α)} {seat : Seat} (h : Held past seat) :
    seat.run ∈ launched past := by
  obtain ⟨before, since, rfl, -⟩ := h
  rw [launched_append]
  exact List.mem_append_right _ (List.mem_cons_self ..)

end Deed

/-- **Nothing is done for a run without a slot.** -/
theorem Custody.launched_of_mem {k : Strategy} {s : Scene α} (h : Custody k s) {d : Deed α}
    (hd : d ∈ s.trail) : d.run ∈ Deed.launched s.trail := by
  obtain ⟨past, later, hsplit⟩ := List.append_of_mem hd
  have hheld : ∀ {σ}, Deed.Held past ⟨σ, d.run⟩ → d.run ∈ Deed.launched s.trail := by
    intro σ hh
    rw [hsplit, Deed.launched_append]
    exact List.mem_append_left _ hh.launched
  have hin := h.inTime past d later hsplit
  cases d with
  | reset seat =>
    rw [hsplit, Deed.launched_append]
    exact List.mem_append_right _ (List.mem_cons_self ..)
  | taken seat => exact hheld hin
  | queued task r => exact hheld hin
  | did slot r v act =>
    cases slot with
    | none => exact hheld hin.choose_spec
    | some σ => exact hheld hin.1

namespace Precedence

variable [Payload α] {k : Strategy} {s : Scene α} {v : NodeId} {r : ObjectId}

/-! ### At most once -/

/-- Who has begun and not fired is busy, and the node has not fired. -/
theorem busy_of_holds {depth launched : Nat} {closed : Bool} {post : ObjectId → NodeId → Post α}
    (hs : Dataflow.Sound k s.graph depth closed s.requests launched post s.executed s.binding
      s.load) {x : Execution α} (hx : x ∈ s.load)
    (hp : (v, r) ∈ Account.executions.holds x s.graph) :
    x.isEngaged k s.graph = true ∧ x.node = v ∧ post r v = .busy x.stage ∧
      (v, r) ∉ s.executed := by
  have hstage : x.isEngaged k s.graph = true ∧ x.stage.progress.fired = false ∧ x.node = v ∧
      ∀ σ r', x.stage.Serves σ r' → r' = r := by
    cases hst : x.stage with
    | claiming seat taken cs | entering seat inputs | working seat xs c =>
      simp only [Account.executions, hst, List.mem_singleton, Prod.mk.injEq] at hp
      obtain ⟨rfl, rfl⟩ := hp
      refine ⟨by simp [Execution.isEngaged, hst], rfl, rfl, ?_⟩
      rintro σ r' rfl
      rfl
    | _ => simp [Account.executions, hst] at hp
  obtain ⟨he, hunfired, rfl, hrun⟩ := hstage
  obtain ⟨r', σ, st, q, hpost, -, -, -, hbooks⟩ := hs.serving hx he
  obtain rfl := hrun σ r' (hbooks.posts.serves hpost)
  refine ⟨he, rfl, hpost, ?_⟩
  rw [hs.chronicle.mem_iff (hbooks.posts.lt_size hpost), hpost, Post.progress_busy, hunfired]
  exact Bool.false_ne_true

/-- **Nobody begins again** with what is done or under way. -/
theorem nodup_begun (hs : s.Sound k) (hr : Register s) :
    (s.executed ++ s.load.flatMap (Account.executions.holds · s.graph)).Nodup := by
  obtain ⟨-, -, depth, closed, launched, post, hsound⟩ := hs
  refine List.nodup_append'.mpr ⟨hr.nodup, List.nodup_flatMap.mpr ⟨fun x _ => ?_, ?_⟩, ?_⟩
  · simp only [Account.executions]
    split <;> simp
  · refine (List.pairwise_filter.mp hsound.manned.nodup).imp_of_mem fun {x y} hx hy hne => ?_
    rintro ⟨v, r⟩ hpx hpy
    obtain ⟨hex, hnx, hx', -⟩ := busy_of_holds hsound hx hpx
    obtain ⟨hey, hny, hy', -⟩ := busy_of_holds hsound hy hpy
    -- the node is at one stage of the run
    have hstage : x.stage = y.stage := Post.busy.inj (hx'.symm.trans hy')
    refine hne hex hey ?_
    cases x
    cases y
    simp_all
  · rintro ⟨v, r⟩ hexec hopen
    obtain ⟨x, hx, hp⟩ := List.mem_flatMap.mp hopen
    exact (busy_of_holds hsound hx hp).2.2.2 hexec

theorem nodup_starts (h : Precedence s) (hs : s.Sound k) (hr : Register s) :
    (Deed.starts s.trail).Nodup := by
  rw [(Account.balanced_executions.mp h.executions).nodup_iff, hr.fires]
  exact nodup_begun hs hr

/-- Who is in a callback is at an execution that has begun. -/
theorem nodup_calls (h : Precedence s) (hs : s.Sound k) (hr : Register s) :
    (Deed.calls s.trail).Nodup := by
  rw [(Account.balanced_callbacks.mp h.callbacks).nodup_iff]
  refine (nodup_begun hs hr).sublist (.append ?_ (List.Sublist.flatMap_right _ fun x _ => ?_))
  · rw [← hr.fires]
    exact Deed.returns_sublist _
  · cases hst : x.stage <;> simp [Account.callbacks, Account.executions, hst]

/-! ### Once -/

/-- **When the outcome of a run is taken**, all nodes have fired. -/
theorem fired_of_ended (h : Precedence s) (hr : r ∈ Deed.ended s.trail)
    (hv : v < s.graph.nodes.size) : (v, r) ∈ Deed.fires s.trail := by
  obtain ⟨σ, hd⟩ := Deed.mem_ended.mp hr
  obtain ⟨past, later, hsplit⟩ := List.append_of_mem hd
  rw [hsplit, Deed.fires_append]
  exact List.mem_append_left _ (h.inTurn past _ later hsplit v hv)

/-- Only nodes of the graph fire. -/
theorem lt_size_of_fired (h : Precedence s) (hfired : (v, r) ∈ Deed.fires s.trail) :
    v < s.graph.nodes.size := by
  obtain ⟨slot, called, hd⟩ := Deed.mem_fires.mp hfired
  obtain ⟨past, later, hsplit⟩ := List.append_of_mem hd
  have hturn := h.inTurn past _ later hsplit
  cases called with
  | false =>
    obtain ⟨-, n, hn, -⟩ := hturn
    exact (Array.getElem?_eq_some_iff.mp hn).1
  | true =>
    obtain ⟨slot', xs, hcall⟩ := Deed.mem_calls.mp hturn
    obtain ⟨before, since, hpast⟩ := List.append_of_mem hcall
    rw [hpast, List.append_assoc] at hsplit
    obtain ⟨-, ⟨n, hn, -⟩, -⟩ := h.inTurn before _ _ hsplit
    exact (Array.getElem?_eq_some_iff.mp hn).1

/-- **In a run that succeeds**, the callback of a node that has fired was entered. -/
theorem called_of_fired (h : Precedence s) {q : Request α} {n : Node α}
    (hfired : (v, r) ∈ Deed.fires s.trail) (hq : s.requests[r]? = some q)
    (hok : s.graph.failures (s.graph.evaluate q.inputs) = []) (hn : s.graph.nodes[v]? = some n)
    (hw : n.work.isSome = true) : (v, r) ∈ Deed.calls s.trail := by
  obtain ⟨slot, called, hd⟩ := Deed.mem_fires.mp hfired
  obtain ⟨past, later, hsplit⟩ := List.append_of_mem hd
  have hturn := h.inTurn past _ later hsplit
  cases called with
  | true =>
    rw [hsplit, Deed.calls_append]
    exact List.mem_append_left _ hturn
  | false =>
    obtain ⟨-, n', hn', hwhy⟩ := hturn
    obtain rfl := Option.some.inj (hn.symm.trans hn')
    obtain ⟨q', hq', hfail⟩ := hwhy hw
    obtain rfl := Option.some.inj (hq.symm.trans hq')
    exact absurd hok hfail

/-! ### When no run is in flight -/

/-- Nobody is at anything when no run is in flight. -/
theorem holds_nil_of_idle (hs : s.Sound k) (hidle : s.binding.table.inFlight = 0) :
    s.load.flatMap (Account.executions.holds · s.graph) = [] := by
  obtain ⟨-, -, depth, closed, launched, post, hsound⟩ := hs
  refine List.flatMap_eq_nil_iff.mpr fun x hx => List.eq_nil_iff_forall_not_mem.mpr ?_
  rintro ⟨v, r⟩ hp
  obtain ⟨-, -, hpost, -⟩ := busy_of_holds hsound hx hp
  obtain ⟨σ, st, q, hst, -⟩ := hsound.holds_of_busy hpost
  exact hsound.ledger.inFlight_eq_zero.mp hidle r ⟨σ, st, hst⟩

/-- A callback that was entered has come to an end when no run is in flight. -/
theorem calls_of_idle (h : Precedence s) (hs : s.Sound k)
    (hidle : s.binding.table.inFlight = 0) :
    (Deed.calls s.trail).Perm (Deed.returns s.trail) := by
  have hnone : s.load.flatMap (Account.callbacks.holds · s.graph) = [] := by
    refine List.flatMap_eq_nil_iff.mpr fun x hx => ?_
    have hx := List.flatMap_eq_nil_iff.mp (holds_nil_of_idle hs hidle) x hx
    unfold Account.callbacks
    cases hst : x.stage <;> simp_all [Account.executions]
  have hp := Account.balanced_callbacks.mp h.callbacks
  rwa [hnone, List.append_nil] at hp

/-- A node has fired for the runs that have ended, and for no others, when no run is in
flight. -/
theorem occurrences_of_idle (h : Precedence s) (hc : Custody k s) (hr : Register s)
    (hs : s.Sound k) (hidle : s.binding.table.inFlight = 0) (hv : v < s.graph.nodes.size) :
    occurrences v (Deed.fires s.trail) = (Deed.ended s.trail).length := by
  obtain ⟨-, -, depth, closed, launched, post, hsound⟩ := hs
  have hfired : ((Deed.fires s.trail).filter (·.1 == v)).Nodup :=
    (hr.fires ▸ hr.nodup).filter _
  have hruns : (((Deed.fires s.trail).filter (·.1 == v)).map (·.2)).Nodup := by
    refine hfired.map_on ?_
    rintro ⟨u, r⟩ hu ⟨u', r'⟩ hu' rfl
    simp only [List.mem_filter, beq_iff_eq] at hu hu'
    rw [hu.2, hu'.2]
  have hperm : (((Deed.fires s.trail).filter (·.1 == v)).map (·.2)).Perm
      (Deed.ended s.trail) := by
    refine (List.perm_ext_iff_of_nodup hruns hr.nodup_ended).mpr fun r => ?_
    simp only [List.mem_map, List.mem_filter, beq_iff_eq, Prod.exists, exists_eq_right]
    constructor
    · intro hfires
      obtain ⟨slot, called, hd⟩ := Deed.mem_fires.mp hfires
      exact hr.ended_iff.mpr
        ⟨hc.launched_of_mem hd, hsound.ledger.inFlight_eq_zero.mp hidle r⟩
    · exact fun hend => h.fired_of_ended hend hv
  rw [← hperm.length_eq, List.length_map, occurrences, List.countP_eq_length_filter]

/-- **The counters of a node** when no run is in flight. -/
theorem tally_of_idle (h : Precedence s) (hc : Custody k s) (hr : Register s) (hs : s.Sound k)
    (hidle : s.binding.table.inFlight = 0) (hv : v < s.graph.nodes.size) :
    s.binding.graph.tally v = (s.graph.tally v).map fun p =>
      (p.1 + (Deed.ended s.trail).length, p.2 + occurrences v (Deed.calls s.trail)) := by
  have hcalls : occurrences v (Deed.calls s.trail) = occurrences v (Deed.returns s.trail) :=
    (h.calls_of_idle hs hidle).countP_eq _
  rw [hr.tally, h.occurrences_of_idle hc hr hs hidle hv, hcalls]

end Precedence

end Dataflow
