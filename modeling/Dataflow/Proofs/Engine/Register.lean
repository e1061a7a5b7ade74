import Dataflow.Proofs.Engine.Accounts

/-!
# What is on record

The record of executions, the counters of the graph and the history say the same
(`Register`): a node fires once for a run, its counters go up with that, and a run whose
outcome was taken is in flight no more. Every run that was accepted is in one of three
places. It got a slot, it waits for one, or it was cancelled before it got one.
-/

namespace Dataflow

variable {α : Type}

/-! ### Counters -/

namespace Graph

variable {g : Graph α}

theorem tally_countRun (u v : NodeId) :
    (g.countRun u).tally v = (g.tally v).map fun p => (p.1 + if u = v then 1 else 0, p.2) := by
  simp only [tally, countRun, Array.getElem?_modify]
  split
  · cases g.stations[v]? <;> simp
  · cases g.stations[v]? <;> simp

theorem tally_countCall (u v : NodeId) :
    (g.countCall u).tally v = (g.tally v).map fun p => (p.1, p.2 + if u = v then 1 else 0) := by
  simp only [tally, countCall, Array.getElem?_modify]
  split
  · cases g.stations[v]? <;> simp
  · cases g.stations[v]? <;> simp

end Graph

/-- How often a node occurs in a list of nodes and runs. -/
def occurrences (v : NodeId) (l : List (NodeId × ObjectId)) : Nat :=
  l.countP (·.1 == v)

@[simp] theorem occurrences_nil (v : NodeId) : occurrences v [] = 0 := rfl

theorem occurrences_append (v : NodeId) (l l' : List (NodeId × ObjectId)) :
    occurrences v (l ++ l') = occurrences v l + occurrences v l' :=
  List.countP_append

theorem occurrences_singleton (v u : NodeId) (r : ObjectId) :
    occurrences v [(u, r)] = if u = v then 1 else 0 := by
  simp [occurrences, List.countP_cons]

/-! ### What a move puts on record -/

namespace Move

variable [Payload α] {k : Strategy} {g : Graph α} {b : Binding α} {x : Execution α}
  {a : Advance α} {ds : List (Deed α)}

/-- The record of executions gains what the history gains. -/
theorem fires_eq (hm : Move k g b x a ds) : Deed.fires ds = x.fired a.stage := by
  cases hm with
  | passed hst =>
    unfold Execution.afterPublishing
    split <;> rfl
  | released last | finished last =>
    cases last <;> simp [Execution.did, Deed.fires, Execution.fired]
  | _ => simp [Execution.did, Deed.fires, Execution.fired, Execution.conclude]

/-- A node fires when its callback is skipped, or has come to an end. -/
theorem fired (hm : Move k g b x a ds) : x.fired a.stage = [] ∨
    ∃ σ r s, b.table.Holds σ r s ∧ x.fired a.stage = [(x.node, r)] ∧
      ((∃ inputs, x.stage = .entering ⟨σ, r⟩ inputs) ∨
        ∃ xs c, x.stage = .working ⟨σ, r⟩ xs c) := by
  cases hm with
  | skipped hst hs => exact Or.inr ⟨_, _, _, hs, rfl, Or.inl ⟨_, hst⟩⟩
  | returned hst hs => exact Or.inr ⟨_, _, _, hs, rfl, Or.inr ⟨_, _, hst⟩⟩
  | passed hst =>
    refine Or.inl ?_
    unfold Execution.afterPublishing
    split <;> rfl
  | finished last => cases last <;> exact Or.inl rfl
  | _ => exact Or.inl rfl

/-- **A node fires for a run that was accepted**, and has not fired for it before. -/
theorem fired_fresh {depth launched : Nat} {closed : Bool} {requests : List (Request α)}
    {post : ObjectId → NodeId → Post α} {executed : List (NodeId × ObjectId)}
    {rest : List (Execution α)} (hm : Move k g b x a ds)
    (h : Sound k g depth closed requests launched post executed b (x :: rest)) :
    x.fired a.stage = [] ∨ ∃ r, x.fired a.stage = [(x.node, r)] ∧ (x.node, r) ∉ executed ∧
      x.node < g.nodes.size ∧ r < requests.length := by
  rcases hm.fired with he | ⟨σ, r, st, hst, he, hstage⟩
  · exact Or.inl he
  have hengaged : x.isEngaged k g = true := by
    rcases hstage with ⟨inputs, hx⟩ | ⟨xs, c, hx⟩ <;> simp [Execution.isEngaged, hx]
  obtain ⟨r', σ', st', q, hpost, hst', hq, -, hserves, -⟩ := h.engaged_head hengaged
  obtain rfl : r' = r := by
    rcases hstage with ⟨inputs, hx⟩ | ⟨xs, c, hx⟩ <;>
      · rw [hx] at hserves
        exact (Seat.mk.inj hserves).2.symm
  have hv := (h.books hst' hq).posts.lt_size hpost
  refine Or.inr ⟨r', he, ?_, hv, (List.getElem?_eq_some_iff.mp hq).1⟩
  rw [h.chronicle.mem_iff hv, hpost]
  rcases hstage with ⟨inputs, hx⟩ | ⟨xs, c, hx⟩ <;>
    simp [hx, Stage.progress, Progress.taking, Progress.zero]

/-- **The counters go up** with the executions and with the callbacks that come to an end. -/
theorem tally (hm : Move k g b x a ds) (v : NodeId) :
    a.binding.graph.tally v = (b.graph.tally v).map fun p =>
      (p.1 + occurrences v (Deed.fires ds), p.2 + occurrences v (Deed.returns ds)) := by
  have hquiet : ∀ {ds : List (Deed α)}, Deed.fires ds = [] → Deed.returns ds = [] →
      b.graph.tally v = (b.graph.tally v).map fun p =>
        (p.1 + occurrences v (Deed.fires ds), p.2 + occurrences v (Deed.returns ds)) := by
    intro ds hf hr
    rw [hf, hr]
    exact Option.map_id'.symm
  cases hm with
  | skipped hst hs =>
    show (b.graph.countRun x.node).tally v = _
    simp [Graph.tally_countRun, Execution.did, Deed.fires, Deed.returns, occurrences_singleton]
  | returned hst hs =>
    show ((b.graph.countCall x.node).countRun x.node).tally v = _
    simp [Graph.tally_countRun, Graph.tally_countCall, Execution.did, Deed.fires, Deed.returns,
      occurrences_singleton, Function.comp_def]
  | claimed p | drawn p | published p =>
    exact (Graph.tally_setPool _ p v).trans (hquiet rfl rfl)
  | released last => cases last <;> exact hquiet rfl rfl
  | _ => exact hquiet rfl rfl

end Move

/-! ### The invariant -/

/-- **The record, the counters and the history agree.** -/
structure Register (s : Scene α) : Prop where
  fires : Deed.fires s.trail = s.executed
  nodup : s.executed.Nodup
  tally : ∀ v, s.binding.graph.tally v = (s.graph.tally v).map fun p =>
    (p.1 + occurrences v (Deed.fires s.trail), p.2 + occurrences v (Deed.returns s.trail))
  ended_iff : ∀ {r}, r ∈ Deed.ended s.trail ↔
    r ∈ Deed.launched s.trail ∧ ¬ s.binding.table.InFlight r
  nodup_ended : (Deed.ended s.trail).Nodup
  /-- A run got a slot, or waits, or was cancelled. -/
  launched_iff : ∀ {r}, r ∈ Deed.launched s.trail ↔ r < s.requests.length ∧ ¬ s.Waits r

/-- A run in flight has got a slot. -/
theorem Custody.launched_of_inFlight {k : Strategy} {s : Scene α} (h : Custody k s) {r : ObjectId}
    (hr : s.binding.table.InFlight r) : r ∈ Deed.launched s.trail := by
  obtain ⟨σ, st, hst⟩ := hr
  obtain ⟨before, since, htrail, -⟩ := h.held_iff.mpr ⟨st, hst⟩
  rw [htrail, Deed.launched_append]
  exact List.mem_append_right _ (List.mem_cons_self ..)

namespace Register

variable [Payload α] {k : Strategy} {s : Scene α}

section Move

variable {x : Execution α} {rest : List (Execution α)} {a : Advance α} {ds : List (Deed α)}

/-- A node fires once only. -/
theorem nodup_move (h : Register s) (hs : s.Sound k) (hload : s.load = x :: rest)
    (hm : Move k s.graph s.binding x a ds) : (s.executed ++ x.fired a.stage).Nodup := by
  obtain ⟨depth, closed, launched, post, hsound⟩ := hs.sound
  rw [hload] at hsound
  rcases hm.fired_fresh hsound with he | ⟨r, he, hnew, -, -⟩
  · rw [he, List.append_nil]
    exact h.nodup
  · rw [he]
    exact List.nodup_append.mpr ⟨h.nodup, List.nodup_singleton _, fun p hp q hq hpq =>
      hnew (List.mem_singleton.mp hq ▸ hpq ▸ hp)⟩

/-- The outcome of a run is taken when it leaves its slot. -/
theorem ended_move (h : Register s) (hc : Custody k s) {depth launched : Nat}
    (hl : s.binding.table.Ledger depth launched s.requests)
    (hm : Move k s.graph s.binding x a ds) :
    (∀ {r}, r ∈ Deed.ended (s.trail ++ ds) ↔
      r ∈ Deed.launched s.trail ∧ ¬ a.binding.table.InFlight r) ∧
    (Deed.ended (s.trail ++ ds)).Nodup := by
  rcases hm.slots hl with ⟨hsame, hno⟩ | ⟨σ, r', st, cell, o, -, hst, rfl, rfl⟩
  · have hended : Deed.ended ds = [] := by
      refine List.filterMap_eq_nil_iff.mpr fun d hd => ?_
      have := hno d hd
      cases d with
      | taken seat => exact absurd (this seat.slot) (by simp [Deed.touches])
      | _ => rfl
    have hflight : ∀ {r}, a.binding.table.InFlight r ↔ s.binding.table.InFlight r := fun {r} =>
      exists_congr fun σ => hsame
    rw [Deed.ended_append, hended, List.append_nil]
    exact ⟨h.ended_iff.trans (and_congr_right fun _ => not_congr hflight.symm), h.nodup_ended⟩
  · have hended : Deed.ended [x.did ⟨σ, r'⟩ .complete, .taken ⟨σ, r'⟩] = [r'] := rfl
    have hflight : ∀ {r}, (s.binding.table.retire σ st).InFlight r ↔
        s.binding.table.InFlight r ∧ r ≠ r' := by
      intro r
      simp only [Table.InFlight, hl.holds_retire hst, exists_and_right]
    have hnew : r' ∉ Deed.ended s.trail := fun hr => (h.ended_iff.mp hr).2 ⟨σ, st, hst⟩
    rw [Deed.ended_append, hended]
    refine ⟨fun {r} => ?_, ?_⟩
    · show _ ↔ _ ∧ ¬ (s.binding.table.retire σ st).InFlight r
      rw [List.mem_append, h.ended_iff, List.mem_singleton, hflight, not_and_or, not_not,
        and_or_left]
      refine or_congr_right ⟨?_, And.right⟩
      rintro rfl
      exact ⟨hc.launched_of_inFlight ⟨σ, st, hst⟩, rfl⟩
    · refine List.nodup_append.mpr ⟨h.nodup_ended, List.nodup_singleton _, ?_⟩
      rintro r hr _ hr' rfl
      exact hnew (List.mem_singleton.mp hr' ▸ hr)

theorem move (h : Register s) (hc : Custody k s) (hs : s.Sound k) (hload : s.load = x :: rest)
    (hm : Move k s.graph s.binding x a ds) : Register (s.move k x rest a ds) := by
  obtain ⟨depth, closed, launched, post, hsound⟩ := hs.sound
  obtain ⟨hended, hnodup⟩ := h.ended_move hc hsound.ledger hm
  have hlaunched : Deed.launched (s.trail ++ ds) = Deed.launched s.trail := by
    rw [Deed.launched_append, hm.launched_eq_nil, List.append_nil]
  constructor
  · show Deed.fires (s.trail ++ ds) = s.executed ++ x.fired a.stage
    rw [Deed.fires_append, h.fires, hm.fires_eq]
  · exact h.nodup_move hs hload hm
  · intro v
    show a.binding.graph.tally v = _
    rw [hm.tally, h.tally, Option.map_map]
    simp only [Scene.move, Deed.fires_append, Deed.returns_append, occurrences_append,
      Nat.add_assoc, Function.comp_def]
  · show ∀ {r}, r ∈ Deed.ended (s.trail ++ ds) ↔ r ∈ Deed.launched (s.trail ++ ds) ∧ _
    rw [hlaunched]
    exact hended
  · exact hnodup
  · intro r
    show r ∈ Deed.launched (s.trail ++ ds) ↔ r < s.requests.length ∧
      ¬ (r ∈ a.binding.table.backlog.map (·.objectId) ∨ r ∈ s.cancelled)
    rw [hlaunched, hm.backlog]
    exact h.launched_iff

end Move

section Launch

variable {next : Pending α} {backlog : List (Pending α)} {σ : SlotId} {free : List SlotId}

omit [Payload α] in
/-- The launch is of the run, and nothing has fired or ended in its course. -/
theorem readings_launch (seat : Seat) (tasks : List Task) :
    Deed.fires (Deed.launch seat tasks : List (Deed α)) = [] ∧
      Deed.returns (Deed.launch seat tasks : List (Deed α)) = [] ∧
      Deed.ended (Deed.launch seat tasks : List (Deed α)) = [] ∧
      Deed.launched (Deed.launch seat tasks : List (Deed α)) = [seat.run] :=
  ⟨Deed.filterMap_launch (fun _ => rfl) (fun _ _ => rfl) ..,
    Deed.filterMap_launch (fun _ => rfl) (fun _ _ => rfl) ..,
    Deed.filterMap_launch (fun _ => rfl) (fun _ _ => rfl) ..,
    by simp [Deed.launch, Deed.launched]⟩

omit [Payload α] in
/-- The run that is launched is in flight, and has not ended. -/
theorem ended_launch (h : Register s)
    (hl : s.binding.table.Ledger depth launched s.requests)
    (hb : s.binding.table.backlog = next :: backlog) (hf : s.binding.table.free = σ :: free)
    {r : ObjectId} :
    r ∈ Deed.ended s.trail ↔ (r ∈ Deed.launched s.trail ∨ r = next.objectId) ∧
      ¬ s.binding.table.promote.InFlight r := by
  have hwaits : s.Waits next.objectId := Or.inl (by rw [hb]; exact List.mem_cons_self ..)
  have hflight : s.binding.table.promote.InFlight r ↔
      s.binding.table.InFlight r ∨ r = next.objectId := by
    simp only [Table.InFlight, Custody.holds_launch hl hb hf, exists_or]
    simp
  rw [hflight, h.ended_iff]
  constructor
  · rintro ⟨hr, hno⟩
    refine ⟨Or.inl hr, not_or.mpr ⟨hno, ?_⟩⟩
    rintro rfl
    exact (h.launched_iff.mp hr).2 hwaits
  · rintro ⟨hr, hno⟩
    obtain ⟨hno, hne⟩ := not_or.mp hno
    exact ⟨hr.resolve_right hne, hno⟩

omit [Payload α] in
/-- The run that is launched waits no longer, and nobody else does so. -/
theorem launched_launch (h : Register s)
    (hl : s.binding.table.Ledger depth launched s.requests)
    (hb : s.binding.table.backlog = next :: backlog) (hn : next.objectId ∉ s.cancelled)
    {r : ObjectId} :
    r ∈ Deed.launched s.trail ∨ r = next.objectId ↔ r < s.requests.length ∧
      ¬ (r ∈ backlog.map (·.objectId) ∨ r ∈ s.cancelled) := by
  have hids := hl.backlog_ids
  rw [hb, List.map_cons] at hids
  have hnodup : (next.objectId :: backlog.map (·.objectId)).Nodup := hids ▸ List.nodup_range'
  rw [h.launched_iff, Scene.Waits, hb, List.map_cons, List.mem_cons]
  constructor
  · rintro (⟨hr, hno⟩ | rfl)
    · exact ⟨hr, fun hw => hno (hw.imp_left Or.inr)⟩
    · refine ⟨hl.lt_length_of_open (Or.inr (by rw [hb]; exact List.mem_cons_self ..)), ?_⟩
      rintro (hw | hw)
      · exact (List.nodup_cons.mp hnodup).1 hw
      · exact hn hw
  · rintro ⟨hr, hno⟩
    by_cases he : r = next.objectId
    · exact Or.inr he
    · exact Or.inl ⟨hr, fun hw => hno (hw.imp_left fun hb => hb.resolve_left he)⟩

/-- **A run is launched**, and waits no longer. -/
theorem launch (h : Register s) (hs : s.Sound k) {graph : Graph α}
    (hb : s.binding.table.backlog = next :: backlog) (hf : s.binding.table.free = σ :: free)
    (hn : next.objectId ∉ s.cancelled) (ht : ∀ v, graph.tally v = s.binding.graph.tally v) :
    Register (s.launch k ⟨σ, next.objectId⟩ graph) := by
  obtain ⟨depth, closed, launched, post, hsound⟩ := hs.sound
  have hl := hsound.ledger
  obtain ⟨hfires, hreturns, hended, hlaunched⟩ :=
    readings_launch (α := α) ⟨σ, next.objectId⟩ (firstTasks k s.graph σ)
  constructor
  · show Deed.fires (s.trail ++ _) = s.executed
    rw [Deed.fires_append, hfires, List.append_nil, h.fires]
  · exact h.nodup
  · intro v
    show graph.tally v = _
    rw [ht, h.tally]
    simp only [Scene.launch, Deed.fires_append, Deed.returns_append, hfires, hreturns,
      List.append_nil]
  · intro r
    show r ∈ Deed.ended (s.trail ++ _) ↔ r ∈ Deed.launched (s.trail ++ _) ∧
      ¬ s.binding.table.promote.InFlight r
    rw [Deed.ended_append, hended, List.append_nil, Deed.launched_append, hlaunched,
      List.mem_append, List.mem_singleton]
    exact h.ended_launch hl hb hf
  · show (Deed.ended (s.trail ++ _)).Nodup
    rw [Deed.ended_append, hended, List.append_nil]
    exact h.nodup_ended
  · intro r
    show r ∈ Deed.launched (s.trail ++ _) ↔ r < s.requests.length ∧
      ¬ (r ∈ s.binding.table.promote.backlog.map (·.objectId) ∨ r ∈ s.cancelled)
    rw [Deed.launched_append, hlaunched, List.mem_append, List.mem_singleton,
      Table.Ledger.promote_eq hb hf]
    exact h.launched_launch hl hb hn

end Launch

end Register

/-- **All histories agree with what is on record.** -/
theorem stable_register [Payload α] (k : Strategy) :
    Stable k (fun s : Scene α => Custody k s ∧ Register s) where
  first := fun {depth b} hg hsound => by
    refine ⟨(stable_custody k).first hg hsound, ?_⟩
    constructor
    · rfl
    · exact List.nodup_nil
    · intro v
      exact Option.map_id'.symm
    · exact iff_of_false List.not_mem_nil fun hr => List.not_mem_nil hr.1
    · exact List.nodup_nil
    · exact iff_of_false List.not_mem_nil fun hr => Nat.not_lt_zero _ hr.1
  aside := fun {s s'} ha h => by
    refine ⟨(stable_custody k).aside ha h.1, ?_⟩
    obtain ⟨-, h⟩ := h
    constructor
    · rw [ha.trail, ha.executed]
      exact h.fires
    · rw [ha.executed]
      exact h.nodup
    · intro v
      rw [ha.tally, ha.graph, ha.trail]
      exact h.tally v
    · intro r
      rw [ha.trail, h.ended_iff, Table.InFlight, Table.InFlight]
      simp only [Table.Holds, ha.statuses]
    · rw [ha.trail]
      exact h.nodup_ended
    · intro r
      have hle := ha.requests.length_le
      rw [ha.trail, h.launched_iff, ha.waits]
      constructor
      · rintro ⟨hr, hno⟩
        exact ⟨Nat.lt_of_lt_of_le hr hle,
          not_or.mpr ⟨hno, fun hnew => absurd hnew.1 (Nat.not_le.mpr hr)⟩⟩
      · rintro ⟨hr, hno⟩
        obtain ⟨hno, hold⟩ := not_or.mp hno
        exact ⟨Nat.not_le.mp fun hle => hold ⟨hle, hr⟩, hno⟩
  move := fun hs hload hm hs' h =>
    ⟨(stable_custody k).move hs hload hm hs' h.1, h.2.move h.1 hs hload hm⟩
  launch := fun hs hb hf hn ht hs' h =>
    ⟨(stable_custody k).launch hs hb hf hn ht hs' h.1, h.2.launch hs hb hf hn ht⟩

end Dataflow
