import Dataflow.Proofs.Scheduler.Liveness
import Dataflow.Proofs.Scheduler.Once
import Dataflow.Proofs.Scheduler.StartUp

/-!
# Graphs are given back as they were bound

While a graph is bound it is frozen, entries come into its pools and go out of them, and nodes
are counted. Giving it back undoes all of that but the counts (`World.Returned`), whatever has
happened in the meantime, and it can always be done: the owner waits twice, and both waits are
over some day (`World.GivesBack`).

The graph can then be built upon and bound again. That comes to the same as binding a graph that
was only built, with the same nodes (`World.BindsAlike`).
-/

namespace Dataflow

variable {α : Type}

namespace Graph

theorem tally_prepare (g : Graph α) (depth : Nat) (order : Array NodeId)
    (levels : Array (Option Nat)) (v : NodeId) :
    (g.prepare depth order levels).tally v = g.tally v := by
  simp only [tally, prepare, Array.getElem?_mapIdx, Option.map_map]
  refine Option.map_congr fun p _ => ?_
  simp only [Function.comp]
  split <;> rfl

theorem tally_thaw (g : Graph α) (v : NodeId) : g.thaw.tally v = g.tally v := by
  simp only [tally, thaw, Array.getElem?_map, Option.map_map]
  rfl

theorem Linked.exists_tally {g : Graph α} (hg : g.Linked) {v : NodeId} (hv : v < g.nodes.size) :
    ∃ runs timed, g.tally v = some (runs, timed) := by
  have hstation : v < g.stations.size := by
    rw [hg.size_stations]
    exact hv
  exact ⟨g.stations[v].runs, g.stations[v].timed, by simp [tally, hstation]⟩

/-- A graph that was thawed has no pools with room for anything. -/
theorem sizes_thaw (g : Graph α) : ∀ p ∈ g.thaw.stations, p.sizes = (0, []) := by
  intro p hp
  obtain ⟨q, -, rfl⟩ := Array.mem_map.mp hp
  rfl

end Graph

namespace Scheduler

variable {s s' : Scheduler α}

/-- The graph is there when the call comes back. -/
theorem exists_binding {g : Graph α} (h : s.bind g = .ok s') : ∃ b, s'.binding = some b := by
  unfold bind at h
  split at h
  · cases h
  split at h
  · cases h
  split at h
  · cases h
  · next b hb =>
    split at h
    · obtain rfl := Except.ok.inj h
      exact ⟨b, rfl⟩
    · split at h
      · cases h
      · obtain rfl := Except.ok.inj h
        exact ⟨b, rfl⟩

theorem isSome_binding_dismiss (s : Scheduler α) : s.dismiss.binding.isSome = s.binding.isSome := by
  unfold dismiss
  split
  · next hb =>
    split
    · rw [hb]
      rfl
    · rfl
  · rfl

/-- Who may have the graph gets it. -/
theorem exists_unbind {b : Binding α} (hb : s.binding = some b) (hr : s.isReleased = true) :
    ∃ g' s', s.unbind = some (.ok (g', s')) := by
  unfold unbind
  rw [hb]
  exact ⟨_, _, if_pos hr⟩

/-- Schedulers with the same settings and threads of the same kind bind the same graphs, when
they have none, and refuse others for the same reason. -/
theorem bind_congr (hset : s'.settings = s.settings) (hshut : s'.isShutDown = s.isShutDown)
    (hk : s'.threads.strategy = s.threads.strategy) (hnone' : s'.binding = none)
    (hnone : s.binding = none) (g : Graph α) :
    (s'.bind g).map (fun _ => ()) = (s.bind g).map fun _ => () := by
  have hpanic : s'.nodePanic? g = s.nodePanic? g := by simp only [nodePanic?, hset]
  unfold bind
  rw [hset, hshut, hnone', hnone, hpanic]
  split
  · rfl
  · simp only [Option.isSome_none, Bool.false_eq_true, if_false]
    split
    · rfl
    · cases hth : s.threads <;> cases hth' : s'.threads <;> rw [hth, hth'] at hk
      · rfl
      · cases hk
      · cases hk
      · dsimp only
        split <;> rfl

/-- Whether a graph is bound depends on its nodes only. -/
theorem exists_bind_of_nodes {g g' : Graph α} (hg : g.Built) (hg' : g'.Built)
    (hn : g'.nodes = g.nodes) (hs : s.bind g = .ok s') : ∃ s₁, s.bind g' = .ok s₁ := by
  -- both are bound as the graph that was only built
  obtain ⟨g₀, h₀, hn₀, -⟩ := hg.exists_fresh
  rw [s.bind_of_fresh hg h₀ hn₀] at hs
  rw [s.bind_of_fresh hg' h₀ (hn₀.trans hn.symm)]
  cases hs₀ : s.bind g₀ with
  | error e =>
    rw [hs₀] at hs
    cases hs
  | ok s₀ => exact ⟨_, rfl⟩

theorem exists_bind_of_map {s₁ s₂ : Scheduler α} {g : Graph α}
    (h : (s₂.bind g).map (fun _ => ()) = (s₁.bind g).map fun _ => ()) (hs : s₁.bind g = .ok s) :
    ∃ s', s₂.bind g = .ok s' := by
  rw [hs] at h
  cases hs' : s₂.bind g with
  | error e =>
    rw [hs'] at h
    cases h
  | ok s' => exact ⟨s', rfl⟩

end Scheduler

namespace World

/-- The world when a graph has been bound. -/
def bound (w : World α) (s : Scheduler α) (b : Binding α) : World α :=
  { w with scheduler := s, tenures := { graph := b.graph } :: w.tenures }

/-- The owner dismisses the threads of nodes. -/
def dismissed (w : World α) : World α :=
  { w with scheduler := w.scheduler.dismiss }

variable [Payload α]

/-- **Binding the one graph comes to the same as binding the other.** They are accepted or
refused alike, and what can happen to the one from then on can happen to the other, down to
every answer and every outcome. All that tells them apart is the past of the first, which
nobody looks at. -/
structure BindsAlike (w : World α) (g g₀ : Graph α) : Prop where
  bind : w.scheduler.bind g = (w.scheduler.bind g₀).map (·.withPast g.past)
  future : ∀ {s b v}, w.scheduler.bind g₀ = .ok s → s.binding = some b →
    ((w.bound (s.withPast g.past) (b.withPast g.past)).Meanwhile v ↔
      ∃ v₀, (w.bound s b).Meanwhile v₀ ∧ v = v₀.withPast g.past)
  run : ∀ (v₀ : World α) (inputs : List (NodeId × α)),
    (v₀.withPast g.past).scheduler.run inputs = (v₀.scheduler.run inputs).withPast g.past
  yields : ∀ (v₀ : World α) {cell o}, (v₀.withPast g.past).Yields cell o ↔ v₀.Yields cell o
  unbind : ∀ v₀ : World α, (v₀.withPast g.past).scheduler.unbind =
    v₀.scheduler.unbind.map (·.map fun p => (p.1.withPast g.past, p.2))
  /-- Runs are numbered from zero on, and each is answered by its own evaluation. -/
  anew : ∀ {s b v₀}, w.scheduler.bind g₀ = .ok s → s.binding = some b →
    (w.bound s b).Meanwhile v₀ → b.table.nextId = 0 ∧ ∃ t ts, v₀.tenures = t :: ts ∧
      t.graph = b.graph ∧ t.tickets.map (·.run) = List.range t.tickets.length ∧
      ∀ a ∈ t.tickets, a.run ∉ t.cancelled → ∀ o, v₀.Yields a.cell o →
        b.graph.Prescribed a.staged a.run o

/-- **What is given back** when a graph is unbound that was bound in an earlier world: the
graph, and the scheduler without it. -/
structure Returned (w w₀ : World α) (g g' : Graph α) (s' : Scheduler α) : Prop where
  /-- Names, callbacks, and the lists of predecessors and successors are the same. -/
  nodes : g'.nodes = g.nodes
  names : g'.names = g.names
  unfrozen : g'.isFrozen = false
  order : g'.order = #[]
  level : ∀ v, g'.level v = 0
  slots : ∀ p ∈ g'.stations, p.sizes = (0, [])
  /-- Every run that was accepted has been counted once at every node, unless a shutdown has
  cancelled it. -/
  counted : ∃ t ts, w.tenures = t :: ts ∧ t.tickets.map (·.run) = List.range t.tickets.length ∧
    (w.scheduler.isShutDown = false → t.cancelled = []) ∧
    ∀ v < g.nodes.size, ∃ runs timed timed', g.tally v = some (runs, timed) ∧
      g'.tally v = some (runs + (t.tickets.filter (·.run ∉ t.cancelled)).length, timed')
  scheduler : s' = { w.scheduler with binding := none, threads := w.scheduler.threads.release }
  load : s'.threads.load = []
  /-- The scheduler binds the graphs that it has bound before, and refuses the others. -/
  usable : w.scheduler.isShutDown = false → ∀ g₁ : Graph α,
    (s'.bind g₁).map (fun _ => ()) = (w₀.scheduler.bind g₁).map fun _ => ()
  rebinds : w.scheduler.isShutDown = false → ∃ s₁, s'.bind g' = .ok s₁
  /-- Whatever becomes of the graph, it is bound as one that was only built. -/
  again : ∀ {g₁ : Graph α}, g'.Becomes g₁ →
    (∃ g₀ : Graph α, g₀.Fresh ∧ g₀.nodes = g₁.nodes ∧ g₀.names = g₁.names) ∧
    ∀ {g₀ : Graph α}, g₀.Fresh → g₀.nodes = g₁.nodes →
      ({ w with scheduler := s', owner := .free } : World α).BindsAlike g₁ g₀

variable {k : Strategy} {w w₁ : World α} {g g₀ g' : Graph α} {s s' : Scheduler α} {b : Binding α}

theorem Reachable.bound (h : w.Reachable k) (ho : w.owner = .free) (hg : g.Built)
    (hs : w.scheduler.bind g = .ok s) (hb : s.binding = some b) : (w.bound s b).Reachable k :=
  h.step (.bind ho hg hs hb)

theorem Reachable.bindsAlike (h : w.Reachable k) (ho : w.owner = .free) (hg : g.Built)
    (h₀ : g₀.Fresh) (hn : g₀.nodes = g.nodes) : w.BindsAlike g g₀ where
  bind := w.scheduler.bind_of_fresh hg h₀ hn
  future := fun {s b v} _ _ => meanwhile_withPast (w := w.bound s b) g.past
  run := fun v₀ => v₀.scheduler.run_withPast g.past
  yields := fun _ => Iff.rfl
  unbind := fun v₀ => v₀.scheduler.unbind_withPast g.past
  anew := fun {s b v₀} hs hb hv₀ => by
    obtain ⟨-, -, -, -, hnew, -⟩ := Scheduler.bind_eq_ok hs hb
    obtain ⟨-, -, inDegrees, sinkCount, htable⟩ := Binding.new_eq_ok hnew
    have hbound := h.bound ho h₀.built hs hb
    obtain ⟨t, ts, hts, hgraph⟩ := hv₀.tenures hbound rfl
    have hreach := hv₀.reachable hbound
    have ht : t ∈ v₀.tenures := hts ▸ List.mem_cons_self ..
    refine ⟨by rw [htable]; rfl, t, ts, hts, hgraph, (hreach.standing ht).numbers,
      fun a ha hc o ho' => ?_⟩
    have hprescribed := hreach.prescribed ht ha hc ho'
    rwa [hgraph] at hprescribed

/-- **How often the nodes were executed**, when no run is in flight. -/
theorem Reachable.counted (h : w.Reachable k) (hb : w.scheduler.binding = some b)
    (hidle : b.table.inFlight = 0) {t : Tenure α} {ts : List (Tenure α)}
    (hts : w.tenures = t :: ts) {v : NodeId} (hv : v < t.graph.nodes.size) :
    ∃ called, b.graph.tally v = (t.graph.tally v).map fun p =>
      (p.1 + (t.tickets.filter (·.run ∉ t.cancelled)).length, p.2 + called) := by
  obtain ⟨T, hT⟩ := h.recorded
  obtain ⟨hrun, hc, hr, hp⟩ := hT.precedence hb hts
  have hlength : (Deed.ended T).length = (t.tickets.filter (·.run ∉ t.cancelled)).length := by
    rw [(hT.ended_of_idle hb hts hidle).length_eq, List.filter_map, List.length_map]
    rfl
  refine ⟨occurrences v (Deed.calls T), ?_⟩
  rw [← hlength]
  exact hp.tally_of_idle hc hr (hrun.scene_sound T) hidle hv

theorem Reachable.returned (h : w.Reachable k) (ho : w.owner = .free) (hg : g.Built)
    (hs : w.scheduler.bind g = .ok s) (hb : s.binding = some b)
    (hw₁ : (w.bound s b).Meanwhile w₁) (ho₁ : w₁.owner = .leaving)
    (hu : w₁.scheduler.unbind = some (.ok (g', s'))) : w₁.Returned w g g' s' := by
  have h₁ := hw₁.reachable (h.bound ho hg hs hb)
  obtain ⟨hr, rfl, b₁, hb₁, rfl⟩ := Scheduler.unbind_eq_ok hu
  obtain ⟨t, ts, hts, hgraph⟩ := hw₁.tenures (h.bound ho hg hs hb) rfl
  replace hgraph : t.graph = b.graph := hgraph
  obtain ⟨hbuilt, hframe⟩ := h₁.framed hb₁ hts
  obtain ⟨hnone, hset, hf, hk, hnew, -⟩ := Scheduler.bind_eq_ok hs hb
  obtain ⟨⟨order, levels, hprepare⟩, -, -⟩ := Binding.new_eq_ok hnew
  have hframe' : (g.prepare w.scheduler.settings.pipelineDepth order levels).Frame b₁.graph := by
    rw [← hprepare, ← hgraph]
    exact hframe
  have hidle : b₁.table.inFlight = 0 := by
    simp only [Scheduler.isReleased, Scheduler.isIdle, hb₁, Bool.and_eq_true] at hr
    simpa [Table.isIdle] using hr.1
  have hafter := h₁.step (.unbind ho₁ hu)
  have hthaw : b₁.graph.thaw.Built := (hframe.built hbuilt).thaw
  have husable : w₁.scheduler.isShutDown = false → ∀ g₁ : Graph α,
      (Scheduler.bind { w₁.scheduler with
        binding := none, threads := w₁.scheduler.threads.release } g₁).map (fun _ => ()) =
        (w.scheduler.bind g₁).map fun _ => () := fun hno =>
    Scheduler.bind_congr ((hw₁.settings (h.bound ho hg hs hb)).trans hset)
      (hno.trans (Scheduler.isShutDown_bind hs).1.symm)
      (hafter.orderly.strategy.trans h.orderly.strategy.symm) rfl hnone
  exact {
    nodes := hframe'.nodes
    names := hframe'.names
    unfrozen := rfl
    order := rfl
    level := fun _ => rfl
    slots := b₁.graph.sizes_thaw
    counted := by
      have ht : t ∈ w₁.tenures := hts ▸ List.mem_cons_self ..
      refine ⟨t, ts, hts, (h₁.standing ht).numbers,
        fun hno => h₁.cancelled_eq_nil hno (by rw [ho₁]; decide) t ht, fun v hv => ?_⟩
      have hlt : v < t.graph.nodes.size := by
        rw [← hframe.nodes, hframe'.nodes]
        exact hv
      obtain ⟨called, hcalled⟩ := h₁.counted hb₁ hidle hts hlt
      obtain ⟨runs, timed, htally⟩ := hg.linked.exists_tally hv
      refine ⟨runs, timed, timed + called, htally, ?_⟩
      rw [Graph.tally_thaw, hcalled, hgraph, hprepare, Graph.tally_prepare, htally]
      rfl
    scheduler := rfl
    load := (hafter.orderly.unbound rfl).1
    usable := husable
    rebinds := fun hno => by
      obtain ⟨s₀, hs₀⟩ := Scheduler.exists_bind_of_nodes hg hthaw hframe'.nodes hs
      exact Scheduler.exists_bind_of_map (husable hno _) hs₀
    again := fun {g₁} hg₁ => by
      have hbuilt₁ := hg₁.built hthaw
      exact ⟨hbuilt₁.exists_fresh, fun h₀ hn => hafter.bindsAlike rfl hbuilt₁ h₀ hn⟩ }

/-- Whoever wants a graph back has bound one. -/
theorem Reachable.exists_binding (h : w.Reachable k) (ho : w.owner = .leaving) :
    ∃ b, w.scheduler.binding = some b := by
  suffices hall : w.owner = .leaving → w.scheduler.binding.isSome from
    Option.isSome_iff_exists.mp (hall ho)
  clear ho
  induction h with
  | start => nofun
  | @step w w' hw hs ih =>
    intro ho'
    cases hs with
    | @thread i choice s hs =>
      rcases Scheduler.step_eq_some hs with ⟨_, _, -, -, -, rfl⟩ | ⟨_, _, -, -, -, rfl⟩
      · exact ih ho'
      · rfl
    | notice hs =>
      obtain ⟨_, _, -, -, rfl⟩ := Scheduler.stepNotice_eq_some hs
      exact ih ho'
    | use hc => exact ih ho'
    | leave ho hb => exact hb
    | dismiss ho =>
      show w.scheduler.dismiss.binding.isSome
      rw [Scheduler.isSome_binding_dismiss]
      exact ih ho'
    | bind ho hg hs hb => cases ho.symm.trans ho'
    | accept ho hb hi hs => cases ho.symm.trans ho'
    | burst ho hs => cases ho.symm.trans ho'
    | unbind ho hs => cases ho'
    | beginShutDown ho hs => cases ho'
    | finishShutDown ho hs => cases ho'

/-- What follows a schedule is still the same tenure. -/
theorem Schedule.meanwhile {n : Nat} (h : w.Schedule n w₁) : w.Meanwhile w₁ := by
  induction h with
  | start => exact .start
  | thread _ hs ih => exact ih.step (.thread hs) (List.length_modifyHead ..)
  | notice _ hs ih => exact ih.step (.notice hs) rfl
  | use _ hc ih => exact ih.step (.use hc) rfl

/-- The owner does nothing in the course of a schedule. -/
theorem Schedule.owner {n : Nat} (h : w.Schedule n w₁) : w₁.owner = w.owner := by
  induction h with
  | start => rfl
  | thread _ _ ih => exact ih
  | notice _ _ ih => exact ih
  | use _ _ ih => exact ih

theorem Meanwhile.trans {w' w'' : World α} (h : w.Meanwhile w') (h' : w'.Meanwhile w'') :
    w.Meanwhile w'' := by
  induction h' with
  | start => exact h
  | step _ hs ht ih => exact ih.step hs ht

/-- The owner wants the graph back. -/
theorem Meanwhile.leave (h : w.Meanwhile w₁) (ho : w₁.owner = .free)
    (hb : w₁.scheduler.binding.isSome) : w.Meanwhile { w₁ with owner := .leaving } :=
  h.step (.leave ho hb) rfl

theorem Meanwhile.dismissed (h : w.Meanwhile w₁) (ho : w₁.owner ≠ .free) :
    w.Meanwhile w₁.dismissed :=
  h.step (.dismiss ho) rfl

/-- **The owner gets a graph back** that was bound in an earlier world. -/
structure GivesBack (w w₀ : World α) (g : Graph α) : Prop where
  /-- The first wait is over some day, -/
  idles : w.Settles fun v => v.scheduler.isIdle = true
  /-- and so is the second. -/
  returns : w.scheduler.isIdle = true → w.dismissed.Settles fun v =>
    ∃ g' s', v.scheduler.unbind = some (.ok (g', s')) ∧ v.Returned w₀ g g' s'
  /-- The graph may come free before everybody rests. It is the same at any time. -/
  returned : ∀ {g' s'}, w.scheduler.unbind = some (.ok (g', s')) → w.Returned w₀ g g' s'

theorem Reachable.givesBack (h : w.Reachable k) (ho : w.owner = .free) (hg : g.Built)
    (hs : w.scheduler.bind g = .ok s) (hb : s.binding = some b)
    (hw₁ : (w.bound s b).Meanwhile w₁) (ho₁ : w₁.owner = .leaving) : w₁.GivesBack w g := by
  have h₁ := hw₁.reachable (h.bound ho hg hs hb)
  obtain ⟨b₁, hb₁⟩ := h₁.exists_binding ho₁
  have hbusy : w₁.owner ≠ .free := by rw [ho₁]; decide
  refine ⟨h₁.settles hb₁, fun hidle => ?_, h.returned ho hg hs hb hw₁ ho₁⟩
  have hsettles := h₁.settles_dismissed hbusy hb₁ hidle
  refine { hsettles with atRest := fun {n v} hv hrest => ?_ }
  have hmeanwhile : (w.bound s b).Meanwhile v :=
    (hw₁.dismissed hbusy).trans hv.meanwhile
  have hov : v.owner = .leaving := hv.owner.trans ho₁
  obtain ⟨b₂, hb₂⟩ := (hmeanwhile.reachable (h.bound ho hg hs hb)).exists_binding hov
  obtain ⟨g', s', hu⟩ := Scheduler.exists_unbind hb₂ (hsettles.atRest hv hrest)
  exact ⟨g', s', hu, h.returned ho hg hs hb hmeanwhile hov hu⟩

/-- **Whoever binds a graph gets it back**, whatever happens until it is wanted. The call for
it comes back some day, with a graph that differs from the one that was bound in how often its
nodes were executed, and which is bound again as one that was only built.

A graph that is not bound leaves nothing behind. The answer is but an error, unless threads
have been started by then; these are dismissed, and then the scheduler is as it was. -/
theorem unbind_undoes_bind (h : w.Reachable k) (ho : w.owner = .free) (hg : g.Built) :
    (∀ {s}, w.scheduler.bind g = .ok s → ∃ b, s.binding = some b ∧
      ∀ {w₁}, (w.bound s b).Meanwhile w₁ → w₁.owner = .leaving → w₁.GivesBack w g) ∧
    (k = .dedicated → w.scheduler.binding = none → ∀ {b},
      Binding.new g w.scheduler.settings.pipelineDepth w.scheduler.settings.backlogCapacity =
        .ok b →
      (∀ {s}, w.scheduler.bind g = .ok s → s = w.scheduler.startUp b b.graph.size) ∧
      ∀ {n}, n ≤ b.graph.size → w.BreaksOff b n) := by
  constructor
  · intro s hs
    obtain ⟨b, hb⟩ := Scheduler.exists_binding hs
    exact ⟨b, hb, h.givesBack ho hg hs hb⟩
  · rintro rfl hnone b hb
    refine ⟨fun {s} hs => ?_, h.breaksOff hnone hg hb⟩
    obtain ⟨xs, hxs⟩ := Threads.exists_nodes h.orderly.strategy
    obtain ⟨b', hb', rfl⟩ := Scheduler.bind_eq_startUp hxs hs
    rw [Except.ok.inj (hb.symm.trans hb')]

theorem Meanwhile.submit (h : w.Meanwhile w₁) (ho : w₁.owner = .free)
    (inputs : List (NodeId × α)) : w.Meanwhile (w₁.submit inputs) := by
  unfold World.submit
  split
  · next hb hrun =>
    split
    · next hi => exact h.step (.accept ho hb hi hrun) (List.length_modifyHead ..)
    · exact h
  · exact h

theorem Meanwhile.settle (h : w.Meanwhile w₁) : w.Meanwhile w₁.settle := by
  obtain ⟨n, hn⟩ := w₁.exists_schedule_settle
  exact h.trans hn.meanwhile

end World

/-! ### The relay comes back -/

namespace Relay

open World

/-- All runs have ended, and the graph is wanted back. -/
def wanted : World Nat := { rested .dedicated with owner := .leaving }

/-- The threads have ended, too. -/
def ended : World Nat := wanted.dismissed.settle

theorem meanwhile_wanted : (world .dedicated).Meanwhile wanted := by
  have hrested : (world .dedicated).Meanwhile (rested .dedicated) :=
    (((Meanwhile.start.submit rfl _).submit rfl _).submit rfl _).settle
  exact hrested.leave (by decide +kernel) (by decide +kernel)

theorem meanwhile_ended : (world .dedicated).Meanwhile ended :=
  (meanwhile_wanted.dismissed (by decide)).settle

theorem idle_wanted : wanted.scheduler.isIdle = true := by
  decide +kernel

theorem atRest_ended : ended.AtRest := by
  decide +kernel

theorem isShutDown_ended : ended.scheduler.isShutDown = false := by
  decide +kernel

theorem tickets_ended : ∀ t ∈ ended.tenures, t.tickets.length = 3 := by
  decide +kernel

end Relay

/-- The relay comes back after three runs, of which one has failed, and can be bound again. If
it cannot be bound because the second of its threads is not started, nothing is left of the
first. -/
theorem World.unbind_undoes_bind_relay :
    (∃ g' s' s₁ timed, (Relay.world .dedicated).Meanwhile Relay.ended ∧
      Relay.ended.scheduler.unbind = some (.ok (g', s')) ∧ g'.nodes = Relay.graph.nodes ∧
      g'.tally 1 = some (3, timed) ∧ s'.bind g' = .ok s₁) ∧
    ∃ b, ({ scheduler := Relay.fresh .dedicated } : World Nat).BreaksOff b 1 := by
  have hnew : Scheduler.new .dedicated Relay.settings 1 = .ok (Relay.fresh .dedicated) := by cbv
  have hbind : (Relay.fresh .dedicated).bind Relay.graph =
      .ok (Relay.world .dedicated).scheduler := by cbv
  obtain ⟨hback, hbroken⟩ := unbind_undoes_bind (.start hnew) rfl Relay.built_graph
  constructor
  · obtain ⟨b, hb, hback⟩ := hback hbind
    obtain rfl : (⟨Relay.bound, .new 2 #[0, 1] 1 1024⟩ : Binding Nat) = b := Option.some.inj hb
    have hbound : bound { scheduler := Relay.fresh .dedicated } (Relay.world .dedicated).scheduler
        ⟨Relay.bound, .new 2 #[0, 1] 1 1024⟩ = Relay.world .dedicated := rfl
    rw [hbound] at hback
    obtain ⟨n, hn⟩ : ∃ n, Relay.wanted.dismissed.Schedule n Relay.ended :=
      exists_schedule_settle _
    obtain ⟨g', s', hu, hreturned⟩ :=
      ((hback Relay.meanwhile_wanted rfl).returns Relay.idle_wanted).atRest hn Relay.atRest_ended
    obtain ⟨s₁, hs₁⟩ := hreturned.rebinds Relay.isShutDown_ended
    obtain ⟨t, ts, hts, -, hnone, htally⟩ := hreturned.counted
    obtain ⟨runs, timed, timed', hbefore, hafter⟩ := htally 1 (by decide)
    obtain ⟨rfl, -⟩ : 0 = runs ∧ 0 = timed := Prod.mk.inj (Option.some.inj hbefore)
    have hthree : (t.tickets.filter (·.run ∉ t.cancelled)).length = 3 := by
      simp [hnone Relay.isShutDown_ended, Relay.tickets_ended t (hts ▸ List.mem_cons_self ..)]
    rw [hthree] at hafter
    exact ⟨g', s', s₁, timed', Relay.meanwhile_ended, hu, hreturned.nodes, hafter, hs₁⟩
  · have hb : Binding.new Relay.graph 2 1024 =
        .ok ⟨Relay.bound, .new 2 #[0, 1] 1 1024⟩ := by cbv
    exact ⟨_, (hbroken rfl rfl hb).2 (by decide)⟩

end Dataflow
