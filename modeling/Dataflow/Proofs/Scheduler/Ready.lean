import Dataflow.Proofs.Engine.Deeds
import Dataflow.Proofs.Engine.Rest
import Dataflow.Proofs.Scheduler.Occupancy

/-!
# Some node can be executed

Between the executions of nodes, there is always one that can come next, as long as a run
is in flight. Some node is not done with the oldest run, although all its predecessors are
(`Sound.exists_front`). Workers have the node in their queues, because the last of its
predecessors has put it there. If the node has a thread of its own, that is free for the
run, finds an entry of it in every inlet, ahead of all others, and room for one in every
outlet.
-/

namespace Dataflow

variable {α : Type}

/-- **The thread of a node can execute it** for a run, without waiting for anybody. -/
structure Execution.Ready (b : Binding α) (x : Execution α) (r : ObjectId) : Prop where
  /-- The thread is not at another run. -/
  free : x.isEngaged .dedicated b.graph = false
  canAdvance : x.canAdvance b = true
  entries : ∀ c ∈ b.graph.inlets x.node, ∃ p y p', b.graph.pool? c = some p ∧
    p.pop = some (some y, p') ∧ y.objectId = r
  room : ∀ c ∈ b.graph.outlets x.node, ∃ p, b.graph.pool? c = some p ∧
    p.entries.length < p.capacity

/-- **The task is queued**, or a worker has just got it and has not begun. -/
def Crew.Offers (c : Crew Task (Execution α)) (task : Task) : Prop :=
  task ∈ c.injector ∨
    ∃ w ∈ c.workers.toList, task ∈ w.deque ∨ Execution.ofTask task ∈ w.stage.load .ofTask

/-- **Some node can be executed**: its task is queued, or its thread has all that it needs for
a run in flight. -/
def Threads.Enabled (b : Binding α) : Threads α → Prop
  | .crew c => ∃ task, c.Offers task
  | .nodes xs => ∃ x ∈ xs.toList, ∃ r, b.table.InFlight r ∧ x.Ready b r

/-- **Somebody can go on**: an execution that is under way, or a worker that begins with a
task. -/
def Scheduler.CanGoOn [Payload α] (s : Scheduler α) : Prop :=
  (∃ i choice s', (s.threads.execution? i).isSome = true ∧ s.step i choice = some s') ∨
    ∃ c task, s.threads = .crew c ∧ c.Offers task

theorem Crew.offers_of_mem_load {c : Crew Task (Execution α)} {task : Task}
    (h : .ofTask task ∈ c.load .ofTask) : c.Offers task := by
  have hqueue : ∀ {tasks : List Task},
      Execution.ofTask task ∈ tasks.map (.ofTask : Task → Execution α) → task ∈ tasks :=
    fun hmem => (List.mem_map_of_injective Execution.ofTask_injective).mp hmem
  rcases List.mem_append.mp h with h | h
  · exact Or.inl (hqueue h)
  · obtain ⟨w, hw, h⟩ := List.mem_flatMap.mp h
    rcases List.mem_append.mp h with h | h
    · exact Or.inr ⟨w, hw, Or.inr h⟩
    · exact Or.inr ⟨w, hw, Or.inl (hqueue h)⟩

/-- What is left to do is under way, or a task that is queued. -/
theorem Crew.cases_of_mem_load {c : Crew Task (Execution α)} {x : Execution α}
    (h : x ∈ c.load .ofTask) :
    (∃ i, c.execution? i = some x) ∨ ∃ task, x = .ofTask task ∧ c.Offers task := by
  by_cases htask : ∃ task, x = .ofTask task
  · obtain ⟨task, rfl⟩ := htask
    exact Or.inr ⟨task, rfl, offers_of_mem_load h⟩
  refine Or.inl ?_
  have hqueue : ∀ {tasks : List Task}, x ∉ tasks.map .ofTask := fun hmem => by
    obtain ⟨task, -, rfl⟩ := List.mem_map.mp hmem
    exact htask ⟨task, rfl⟩
  obtain ⟨w, hw, hwx⟩ := List.mem_flatMap.mp ((List.mem_append.mp h).resolve_left hqueue)
  have hstage := (List.mem_append.mp hwx).resolve_right hqueue
  have hrunning : w.execution? = some x := by
    unfold Worker.execution?
    cases hst : w.stage with
    | running y =>
      rw [hst] at hstage
      rw [List.mem_singleton.mp hstage]
    | found task | activating task | checkingThieves task =>
      rw [hst] at hstage
      exact absurd ⟨task, List.mem_singleton.mp hstage⟩ htask
    | notifying n errand =>
      rw [hst] at hstage
      exact absurd hstage hqueue
    | _ =>
      rw [hst] at hstage
      cases hstage
  obtain ⟨i, hi, rfl⟩ := List.mem_iff_getElem.mp hw
  refine ⟨i, ?_⟩
  rw [Crew.execution?, ← Array.getElem?_toList, List.getElem?_eq_getElem hi]
  exact hrunning

/-- A thread goes on with its execution unless that has to wait. -/
theorem Scheduler.exists_step [Payload α] {s : Scheduler α} {i : Nat} {x : Execution α}
    {b : Binding α} (hx : s.threads.execution? i = some x) (hb : s.binding = some b)
    (hcan : x.canAdvance b = true) (choice : Choice) : ∃ s', s.step i choice = some s' := by
  have hmoved : ∃ s', s.attempt i choice = (s', true) := by
    unfold attempt
    cases hth : s.threads with
    | crew c =>
      rw [hth] at hx
      simp only [show c.execution? i = some x from hx, hb, hcan, if_true]
      exact ⟨_, rfl⟩
    | nodes xs =>
      rw [hth] at hx
      simp only [show xs[i]? = some x from hx, hb, hcan, if_true]
      exact ⟨_, rfl⟩
  obtain ⟨s', hs'⟩ := hmoved
  exact ⟨s', by rw [step, hs']⟩

/-- **Whatever can advance, somebody can go on with it.** -/
theorem Scheduler.canGoOn [Payload α] {s : Scheduler α} {x : Execution α} {b : Binding α}
    (hx : x ∈ s.threads.load) (hb : s.binding = some b) (hcan : x.canAdvance b = true) :
    s.CanGoOn := by
  have hthread : (∃ i, s.threads.execution? i = some x) ∨
      ∃ c task, s.threads = .crew c ∧ c.Offers task := by
    cases hth : s.threads with
    | crew c =>
      rw [hth] at hx
      rcases Crew.cases_of_mem_load hx with hi | ⟨task, -, ht⟩
      · exact Or.inl hi
      · exact Or.inr ⟨c, task, rfl, ht⟩
    | nodes xs =>
      rw [hth] at hx
      obtain ⟨i, hi, hget⟩ := List.mem_iff_getElem.mp (show x ∈ xs.toList from hx)
      refine Or.inl ⟨i, ?_⟩
      show xs[i]? = _
      rw [← Array.getElem?_toList, List.getElem?_eq_getElem hi, hget]
  refine hthread.imp_left fun ⟨i, hi⟩ => ?_
  obtain ⟨s', hs'⟩ := exists_step hi hb hcan .go
  exact ⟨i, .go, s', by rw [hi]; rfl, hs'⟩

namespace Sound

variable [Payload α] {k : Strategy} {g : Graph α} {depth : Nat} {closed : Bool}
  {requests : List (Request α)} {launched : Nat} {post : ObjectId → NodeId → Post α}
  {executed : List (NodeId × ObjectId)} {b : Binding α} {load : List (Execution α)}
  {σ : SlotId} {r : ObjectId} {s : RunStatus α} {v : NodeId}

/-- **Some node is next** for a run in flight. -/
theorem exists_front (hg : g.Frozen)
    (h : Sound k g depth closed requests launched post executed b load)
    (hs : b.table.Holds σ r s) :
    ∃ v, v < g.nodes.size ∧ post r v ≠ .done ∧ ∀ u ∈ g.predecessors v, post r u = .done := by
  obtain ⟨q, -, -, hb⟩ := h.request_of_holds hs
  by_contra hno
  refine hb.not_all_done hg fun v hv =>
    hg.forward_induction (P := fun v => post r v = .done) (fun v hv hpreds => ?_) hv
  by_contra hne
  exact hno ⟨v, hv, hne, hpreds⟩

/-- When no execution is midway, a node that is next has been queued, or waits. -/
theorem front_cases (h : Sound k g depth closed requests launched post executed b load)
    (hmid : ∀ x ∈ load, ¬ x.IsMidway k g) (hv : post r v ≠ .done) :
    (∃ slot, k = .stealing ∧ post r v = .busy (.opening slot)) ∨ post r v = .waiting := by
  cases hp : post r v with
  | done => exact absurd hp hv
  | waiting => exact Or.inr rfl
  | busy st =>
    obtain ⟨τ, s', q, -, -, -, hb⟩ := h.holds_of_busy hp
    have hnot := hmid _ (h.manned.busy hp)
    cases st with
    | opening slot => exact Or.inl ⟨slot, hb.posts.fits hp, rfl⟩
    | _ => exact absurd ⟨hb.posts.engaged hp, nofun⟩ hnot

/-- **Some task is queued** while a run is in flight. -/
theorem exists_task (hg : g.Frozen)
    (h : Sound .stealing g depth closed requests launched post executed b load)
    (hmid : ∀ x ∈ load, ¬ x.IsMidway .stealing g) (hs : b.table.Holds σ r s) :
    ∃ t, .ofTask t ∈ load := by
  obtain ⟨v, hv, hne, hpreds⟩ := h.exists_front hg hs
  obtain ⟨q, -, -, hb⟩ := h.request_of_holds hs
  rcases h.front_cases hmid hne with ⟨slot, -, hp⟩ | hp
  · exact ⟨⟨v, slot⟩, h.manned.busy hp⟩
  · -- the last predecessor that was done has made the node begin
    have hbegun := (hb.counts.begun_iff rfl hv).mpr fun u hu => by simp [hpreds u hu, Progress.all]
    simp [hp, Progress.zero] at hbegun

/-- An inlet shows the oldest run in flight first, if it has an entry of it. -/
theorem pop_oldest (h : Sound .dedicated g depth closed requests launched post executed b load)
    (holdest : ∀ r' < r, ¬ b.table.InFlight r') {c : Channel} (hr : r ∈ b.graph.tagsAt c) :
    ∃ p y p', b.graph.pool? c = some p ∧ p.pop = some (some y, p') ∧ y.objectId = r := by
  have hcar : b.graph.Carries c := by
    by_contra hno
    rw [Graph.tagsAt, h.laid.unused hno] at hr
    cases hr
  obtain ⟨p, hp, -⟩ := h.laid.exists_pool hcar
  have hne : p.entries ≠ [] := by
    intro he
    rw [Graph.tagsAt, Graph.entriesAt_of_pool hp, he] at hr
    cases hr
  obtain ⟨y, p', hpop⟩ := Pool.pop_of_ne_nil hne
  refine ⟨p, y, p', hp, hpop, ?_⟩
  obtain ⟨-, htags⟩ := h.tagsAt_of_pop hp hpop
  have hsorted := h.tags c
  rw [htags] at hr hsorted
  rcases List.mem_cons.mp hr with he | hr
  · exact he.symm
  · -- the run of an earlier entry would be older
    have hlt : y.objectId < r := (List.pairwise_cons.mp hsorted).1 r hr
    exact absurd (h.tag_inFlight (htags ▸ List.mem_cons_self ..)) (holdest _ hlt)

/-- A thread of a node that is not midway is not at any run. -/
theorem not_engaged (h : Sound .dedicated g depth closed requests launched post executed b load)
    {x : Execution α} (hx : x ∈ load) (hmid : ¬ x.IsMidway .dedicated g) :
    x.isEngaged .dedicated g = false := by
  by_contra he
  have he : x.isEngaged .dedicated g = true := by simpa using he
  refine hmid ⟨he, fun slot hst => ?_⟩
  obtain ⟨r, hr⟩ := h.manned.engaged hx he
  obtain ⟨τ, s, q, -, -, -, hb⟩ := h.holds_of_busy hr
  have hfits := hb.posts.fits hr
  rw [hst] at hfits
  cases hfits

/-- A thread that is not at any run waits for an entry in its first inlet, or for nothing. -/
theorem canAdvance_of_inlets
    (h : Sound .dedicated g depth closed requests launched post executed b load)
    (hs : b.table.Holds σ r s) {x : Execution α} (hx : x ∈ load)
    (hidle : x.isEngaged .dedicated g = false)
    (hinlets : ∀ c ∈ g.inlets x.node, ∃ p y p', b.graph.pool? c = some p ∧
      p.pop = some (some y, p')) : x.canAdvance b = true := by
  by_contra hcan
  obtain ⟨-, ⟨run, taken, c, cs, hst, hnil⟩ | ⟨-, hc⟩⟩ := h.waits hx (by simpa using hcan)
  · have hrests := h.manned.resting hx hidle
    rw [Execution.Rests, hst] at hrests
    cases run with
    | some run => exact hrests.elim
    | none =>
      obtain ⟨p, y, p', hpool, hpop⟩ := hinlets c (by simp [← hrests.2.2])
      obtain ⟨-, htags⟩ := h.tagsAt_of_pop hpool hpop
      rw [hnil] at htags
      cases htags
  · rw [h.not_closed ⟨σ, s, hs⟩] at hc
    cases hc

/-- An outlet has room for an entry of a run as long as the node has not begun with it. -/
theorem room_of_waiting
    (h : Sound .dedicated g depth closed requests launched post executed b load)
    (hs : b.table.Holds σ r s) (hp : post r v = .waiting) {c : Channel} (hc : c ∈ g.outlets v) :
    ∃ p, b.graph.pool? c = some p ∧ p.entries.length < p.capacity := by
  obtain ⟨w, hw, rfl⟩ := Graph.mem_outlets.mp hc
  obtain ⟨q, -, -, hb⟩ := h.request_of_holds hs
  have hcar : g.Carries (.edge v w) := hw
  obtain ⟨p, hpool, hcap⟩ := h.laid.exists_pool (h.alike.carries.mpr hcar)
  have habsent : r ∉ b.graph.tagsAt (.edge v w) := fun hr => by
    have hfilled := ((hb.flow.present_iff hcar).mp (Graph.mem_tagsAt.mp hr)).1
    simp [filled, hp, Progress.zero] at hfilled
  have hlt := h.length_lt ⟨σ, s, hs⟩ habsent
  rw [Graph.entriesAt_of_pool hpool] at hlt
  exact ⟨p, hpool, hcap ▸ hlt⟩

/-- **Some node has all it needs** while a run is in flight: the first one that the oldest run
has not been through. -/
theorem exists_ready (hg : g.Frozen)
    (h : Sound .dedicated g depth closed requests launched post executed b load)
    (hmid : ∀ x ∈ load, ¬ x.IsMidway .dedicated g) (hs : b.table.Holds σ r s)
    (holdest : ∀ r' < r, ¬ b.table.InFlight r') : ∃ x ∈ load, x.Ready b r := by
  obtain ⟨v, hv, hne, hpreds⟩ := h.exists_front hg hs
  have hp : post r v = .waiting := by
    rcases h.front_cases hmid hne with ⟨slot, hk, -⟩ | hp
    · cases hk
    · exact hp
  obtain ⟨x, hx, rfl⟩ := List.mem_map.mp
    ((h.manned.nodes rfl).mem_iff.mpr (List.mem_range.mpr hv))
  have hidle := h.not_engaged hx (hmid x hx)
  have hentries : ∀ c ∈ g.inlets x.node, ∃ p y p', b.graph.pool? c = some p ∧
      p.pop = some (some y, p') ∧ y.objectId = r := fun c hc =>
    h.pop_oldest holdest (h.mem_tagsAt hg hs hv hpreds hc (by rw [hp]; rfl))
  refine ⟨x, hx, ?_, h.canAdvance_of_inlets hs hx hidle fun c hc => ?_, ?_, fun c hc => ?_⟩
  · unfold Execution.isEngaged at hidle ⊢
    simpa only [h.alike.successors] using hidle
  · obtain ⟨p, y, p', hpool, hpop, -⟩ := hentries c hc
    exact ⟨p, y, p', hpool, hpop⟩
  · rw [h.alike.inlets]
    exact hentries
  · exact h.room_of_waiting hs hp (h.alike.outlets x.node ▸ hc)

end Sound

end Dataflow
