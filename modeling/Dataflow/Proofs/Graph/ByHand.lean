import Dataflow.Proofs.Graph.Stock

/-!
# Runs executed by hand

Without a scheduler, somebody stages the entries of several runs and executes the nodes one
at a time, in whatever order, as long as a node comes after its predecessors
(`Graph.Orderly`). The order does not show: each execution finds its inputs, finds room for
what it publishes and gives what the evaluation of its run says (`Graph.Executed`), and in
the end nothing is left in any pool.

What carries the induction is that after each step there lies in a pool what was put there
and not yet taken (`Present`), and that this is what is due (`Graph.Stocked`). Which entries
these are is read off the list of what was done, so no two orders have to be compared.
-/

namespace Dataflow

variable {α : Type}

/-- One step of whoever executes runs by hand. -/
inductive Handling where
  /-- The entry of a source is staged for a run. -/
  | stage (v : NodeId) (run : ObjectId)
  /-- A node is executed for a run. -/
  | fire (v : NodeId) (run : ObjectId)
deriving DecidableEq, Repr

/-- The step that puts the entry of a run into a channel. -/
def Channel.filler (run : ObjectId) : Channel → Handling
  | .staging v => .stage v run
  | .edge u _ => .fire u run

/-- The entry of a run was put into a channel and not taken from there yet. -/
def Present (acts : List Handling) (run : ObjectId) (c : Channel) : Prop :=
  c.filler run ∈ acts ∧ .fire c.reader run ∉ acts

namespace Graph

variable {g g' g₀ : Graph α} {v : NodeId} {run : ObjectId} {c : Channel}
  {runs : List ObjectId} {acts l r : List Handling} {a : Handling}

theorem stage_eq_filler {r : ObjectId} :
    Handling.stage v run = c.filler r ↔ r = run ∧ c = .staging v := by
  cases c with
  | staging w => simp [Channel.filler, and_comm, eq_comm]
  | edge u w => simp [Channel.filler]

theorem fire_eq_filler (hc : g.Carries c) {r : ObjectId} :
    Handling.fire v run = c.filler r ↔ r = run ∧ c ∈ g.outlets v := by
  constructor
  · intro he
    cases c with
    | staging w => cases he
    | edge u w =>
      cases he
      exact ⟨rfl, mem_outlets.mpr ⟨w, hc, rfl⟩⟩
  · rintro ⟨rfl, hout⟩
    obtain ⟨w, -, rfl⟩ := mem_outlets.mp hout
    rfl

/-! ### Orders of execution -/

/-- **An order in which some runs may be executed by hand**: everything is done once, and a
node is executed after its entry was staged or after its predecessors were executed. -/
structure Orderly (g : Graph α) (runs : List ObjectId) (acts : List Handling) : Prop where
  nodup : acts.Nodup
  mem_stage : ∀ {v run}, .stage v run ∈ acts ↔ v ∈ g.sources ∧ run ∈ runs
  mem_fire : ∀ {v run}, .fire v run ∈ acts ↔ v < g.nodes.size ∧ run ∈ runs
  staged : ∀ {v}, v ∈ g.sources → ∀ {run}, run ∈ runs →
    acts.idxOf (.stage v run) < acts.idxOf (.fire v run)
  fired : ∀ {u v}, u ∈ g.predecessors v → ∀ {run}, run ∈ runs →
    acts.idxOf (.fire u run) < acts.idxOf (.fire v run)

/-- What comes before a step has been done when it is its turn. -/
theorem mem_of_idxOf_lt {b : Handling} (hlt : acts.idxOf b < acts.idxOf a)
    (he : acts = l ++ a :: r) : b ∈ l := by
  by_contra hb
  rw [he, List.idxOf_append, if_neg hb, List.idxOf_append] at hlt
  split at hlt
  · next ha => exact absurd (List.idxOf_lt_length_of_mem ha) (by omega)
  · rw [List.idxOf_cons_self] at hlt
    omega

namespace Orderly

theorem run_of_filler (h : g.Orderly runs acts) (hc : c.filler run ∈ acts) : run ∈ runs := by
  cases c with
  | staging v => exact (h.mem_stage.mp hc).2
  | edge u v => exact (h.mem_fire.mp hc).2

theorem not_mem (h : g.Orderly runs acts) (he : acts = l ++ a :: r) : a ∉ l := by
  have hnd := h.nodup
  rw [he, List.nodup_append] at hnd
  exact fun ha => hnd.2.2 a ha a (List.mem_cons_self ..) rfl

/-- Nobody takes an entry before it is there. -/
theorem filler_mem (h : g.Orderly runs acts) (hg : g.Frozen) (hc : g.Carries c)
    (he : acts = l ++ .fire c.reader run :: r) : c.filler run ∈ l := by
  have hmem : .fire c.reader run ∈ acts := he ▸ List.mem_append_right _ (List.mem_cons_self ..)
  have hrun := (h.mem_fire.mp hmem).2
  cases c with
  | staging v => exact mem_of_idxOf_lt (h.staged hc hrun) he
  | edge u v => exact mem_of_idxOf_lt (h.fired (hg.linked.mem_predecessors.mpr hc) hrun) he

/-- Nobody has taken an entry when it is put there. -/
theorem not_taken (h : g.Orderly runs acts) (hg : g.Frozen) (hc : g.Carries c)
    (he : acts = l ++ c.filler run :: r) : .fire c.reader run ∉ l ++ [c.filler run] := by
  intro hmem
  have hnot := h.not_mem he
  rcases List.mem_append.mp hmem with hmem | hmem
  · obtain ⟨l₁, l₂, rfl⟩ := List.append_of_mem hmem
    have hfiller := h.filler_mem hg hc (he.trans (List.append_assoc ..))
    exact hnot (List.mem_append_left _ hfiller)
  · rw [← List.mem_singleton.mp hmem] at he
    exact hnot (h.filler_mem hg hc he)

/-- A step adds the entry that it puts into a channel, and takes away those that it takes. -/
theorem present_snoc (h : g.Orderly runs acts) (hg : g.Frozen) (hc : g.Carries c)
    (he : acts = l ++ a :: r) : Present (l ++ [a]) run c ↔
      (Present l run c ∧ a ≠ .fire c.reader run) ∨ a = c.filler run := by
  constructor
  · rintro ⟨hfiller, htaken⟩
    rw [List.mem_append, List.mem_singleton, not_or] at htaken
    rcases List.mem_append.mp hfiller with hfiller | hfiller
    · exact .inl ⟨⟨hfiller, htaken.1⟩, fun ha => htaken.2 ha.symm⟩
    · exact .inr (List.mem_singleton.mp hfiller).symm
  · rintro (⟨⟨hfiller, htaken⟩, ha⟩ | rfl)
    · refine ⟨List.mem_append_left _ hfiller, fun hmem => ?_⟩
      rcases List.mem_append.mp hmem with hmem | hmem
      · exact htaken hmem
      · exact ha (List.mem_singleton.mp hmem).symm
    · exact ⟨List.mem_append_right _ (List.mem_singleton_self _), h.not_taken hg hc he⟩

/-- In the end everything was taken. -/
theorem not_present (h : g.Orderly runs acts) (hg : g.Frozen) (hc : g.Carries c) :
    ¬ Present acts run c :=
  fun hp => hp.2 (h.mem_fire.mpr ⟨hg.reader_lt hc, h.run_of_filler hp.1⟩)

end Orderly

/-! ### What the steps do -/

variable [Payload α] {staged : Staged α} {given : ObjectId → Staged α}

/-- The graph after a step, if these are the entries of the runs. -/
def handle (g : Graph α) (given : ObjectId → Staged α) : Handling → Graph α
  | .stage v run => (g.deliver run [(.staging v, (Staged.entry? (given run) v).join)]).1
  | .fire v run => (g.fire v run).2

/-- The graph after some steps. -/
def handleAll (g : Graph α) (given : ObjectId → Staged α) (acts : List Handling) : Graph α :=
  acts.foldl (·.handle given ·) g

/-- What an execution cannot publish without waiting. -/
def withheld (g : Graph α) (v : NodeId) (run : ObjectId) : Deliveries α :=
  let (l, g) := g.launch v run
  (g.deliver run (l.deliveries (g.outlets v))).2

/-- A source without a callback has a payload to pass on. -/
def Fed (g : Graph α) (staged : Staged α) : Prop :=
  ∀ {v n}, g.nodes[v]? = some n → v ∈ g.sources → n.hasWork = false →
    (staged.entry? v).join.isSome = true

/-- No ancestor of the node fails. -/
def Spared (g : Graph α) (staged : Staged α) (v : NodeId) : Prop :=
  ∀ u, Relation.TransGen g.Edge u v → ∀ e, g.evaluate staged u ≠ some (.failed e)

/-- **The entry of a source is staged without waiting**, and that is what `Graph.pushInput`
does with a payload. -/
structure Supplied (staged : Staged α) (v : NodeId) (run : ObjectId) (g : Graph α) : Prop where
  ready : (g.deliver run [(.staging v, (staged.entry? v).join)]).2 = []
  pushInput : ∀ {x}, (staged.entry? v).join = some x →
    g.pushInput v ⟨run, x⟩ = some (.ok (g.deliver run [(.staging v, some x)]).1)

/-- **An execution by hand comes to what the evaluation says.** -/
structure Executed (g₀ : Graph α) (staged : Staged α) (v : NodeId) (run : ObjectId)
    (g : Graph α) : Prop where
  /-- It has taken all of its inputs, -/
  launched : ∃ x, (g.launch v run).1.outcome = .ok x
  /-- and has published without waiting. -/
  published : g.withheld v run = []
  /-- The callback was entered unless an ancestor has failed, -/
  entered : (g.launch v run).1.called.isSome = true ↔
    (∃ n, g₀.nodes[v]? = some n ∧ n.hasWork = true) ∧ g₀.Spared staged v
  /-- and with the inputs that it has in the evaluation. -/
  called : ∀ {xs}, (g.launch v run).1.called = some xs →
    g₀.received staged (g₀.evaluate staged) v = some xs
  error : ∀ {e}, (g.fire v run).1 = .error e ↔
    g₀.Spared staged v ∧ ∃ e', g₀.evaluate staged v = some (.failed e') ∧ e = .execution e'
  /-- No input was missing to the callback or to what stands in for it. -/
  provided : ∀ u, (g.fire v run).1 ≠ .error (.execution (.noInput u))
  output : ∀ {x}, (g.fire v run).1 = .ok (some x) ↔
    v ∈ g₀.sinks ∧ g₀.Spared staged v ∧ g₀.evaluate staged v = some (.output x)
  nothing : (g.fire v run).1 = .ok none ↔
    ¬ g₀.Spared staged v ∨ v ∉ g₀.sinks ∧ ∀ e, g₀.evaluate staged v ≠ some (.failed e)

/-- A step comes to what is expected of it. -/
def Fulfilled (g₀ : Graph α) (given : ObjectId → Staged α) (g : Graph α) : Handling → Prop
  | .stage v run => Supplied (given run) v run g
  | .fire v run => Executed g₀ (given run) v run g

/-! ### What the evaluation says -/

namespace Frozen

theorem spared_iff (h : g.Frozen) (hv : v < g.nodes.size) :
    g.Spared staged v ↔ g.evaluate staged v ≠ some .cutOff := by
  rw [Ne, h.cutOff_iff hv]
  constructor
  · rintro hs ⟨u, e, hu, he⟩
    exact hs u hu e he
  · exact fun hno u hu e he => hno ⟨u, e, hu, he⟩

omit [Payload α] in
/-- What passes on an input has one. -/
theorem received_ne_nil (h : g.Frozen) (hfed : g.Fed staged) {n : Node α}
    (hn : g.nodes[v]? = some n) (hw : n.hasWork = false) (w : Evaluation α) :
    g.received staged w v ≠ some [] := by
  intro hr
  have hlt := (Array.getElem?_eq_some_iff.mp hn).1
  rw [received] at hr
  split at hr
  · next hp =>
    obtain ⟨x, hx⟩ := Option.isSome_iff_exists.mp (hfed hn (h.mem_sources.mpr ⟨hlt, hp⟩) hw)
    rw [hx] at hr
    cases hr
  · next hp =>
    exact hp (List.map_eq_nil_iff.mp (mapM_eq_some.mp hr))

/-- A node fails by its callback or by a copy, and not for want of an input. -/
theorem failed_ne_noInput (h : g.Frozen) (hfed : g.Fed staged) (hv : v < g.nodes.size)
    (u : NodeId) : g.evaluate staged v ≠ some (.failed (.noInput u)) := by
  obtain ⟨n, hn⟩ := node_of_lt hv
  rw [h.evaluate_eq staged hn, Ne, Option.some.injEq]
  cases hr : g.received staged (g.evaluate staged) v with
  | none =>
    intro hcut
    cases hcut
  | some xs =>
    rw [Node.fate]
    cases hi : n.invoke v xs with
    | ok x =>
      simp only [Node.share]
      split
      · intro hout
        cases hout
      · split <;> intro hshared <;> cases hshared
    | error e =>
      rintro ⟨⟩
      cases hw : n.work with
      | none =>
        rw [Node.invoke, hw] at hi
        have hne := h.received_ne_nil hfed hn (by rw [Node.hasWork, hw]; rfl) (g.evaluate staged)
        cases xs with
        | nil => exact hne hr
        | cons x xs => cases hi
      | some work =>
        simp only [Node.invoke, hw] at hi
        cases hv : (work xs).verdict <;> rw [hv] at hi <;> cases hi

/-- What a caller gets, told by the fate of the node. -/
theorem nothing_iff (h : g.Frozen) (hv : v < g.nodes.size) {f : Fate α}
    (hf : g.evaluate staged v = some f) : f.answer = .ok none ↔
      g.evaluate staged v = some .cutOff ∨
        v ∉ g.sinks ∧ ∀ e, g.evaluate staged v ≠ some (.failed e) := by
  have hsink : v ∈ g.sinks ↔ g.successors v = [] := by
    rw [h.mem_sinks, and_iff_right hv]
  rw [hf, hsink]
  cases f with
  | output x =>
    refine iff_of_false nofun ?_
    rintro (hcut | ⟨hno, -⟩)
    · cases hcut
    · exact hno (h.successors_of_output hf hv)
  | shared xs =>
    refine iff_of_true rfl (.inr ⟨?_, nofun⟩)
    exact List.ne_nil_of_length_pos (h.well_of_shared hv hf).1
  | failed e =>
    refine iff_of_false nofun ?_
    rintro (hcut | ⟨-, hno⟩)
    · cases hcut
    · exact hno e rfl
  | cutOff => exact iff_of_true rfl (.inl rfl)

end Frozen

/-- An execution on what is due to the node, whose caller is told the fate of the node. -/
theorem Frozen.executed (h : g₀.Frozen) (hfed : g₀.Fed staged) {n : Node α} {f : Fate α}
    {x : Firing α} (hn : g₀.nodes[v]? = some n) (hf : g₀.evaluate staged v = some f)
    (hlaunch : (g.launch v run).1 = ⟨calledWith n (g₀.dues staged v) false, .ok x⟩)
    (hanswer : (g.fire v run).1 = f.answer) (hpublished : g.withheld v run = []) :
    Executed g₀ staged v run g := by
  have hv := (Array.getElem?_eq_some_iff.mp hn).1
  have hspared : g₀.Spared staged v ↔ g₀.evaluate staged v ≠ some .cutOff := h.spared_iff hv
  have hcalled : (g.launch v run).1.called =
      if n.hasWork then g₀.received staged (g₀.evaluate staged) v else none := by
    rw [hlaunch, calledWith, gather_dues]
  refine ⟨⟨x, congrArg (·.outcome) hlaunch⟩, hpublished, ?_, fun {xs} hxs => ?_, fun {e} => ?_,
    fun u he => ?_, fun {y} => ?_, ?_⟩
  · rw [hcalled, hspared, Ne, ← h.received_none hv, hn]
    simp only [Option.some.injEq, exists_eq_left']
    cases n.hasWork <;> simp [Option.isSome_iff_ne_none]
  · rw [hcalled] at hxs
    split at hxs
    · exact hxs
    · cases hxs
  · rw [hanswer, Fate.answer_eq_error, hspared, hf]
    constructor
    · rintro ⟨e', rfl, he⟩
      exact ⟨nofun, e', rfl, he⟩
    · rintro ⟨-, e', he', he⟩
      exact ⟨e', Option.some.inj he', he⟩
  · rw [hanswer, Fate.answer_eq_error] at he
    obtain ⟨e', rfl, he⟩ := he
    obtain rfl := Error.execution.inj he
    exact h.failed_ne_noInput hfed hv u hf
  · rw [hanswer, Fate.answer_eq_some, hspared, hf, Option.some.injEq]
    constructor
    · rintro rfl
      exact ⟨h.mem_sinks.mpr ⟨hv, h.successors_of_output hf hv⟩, nofun, rfl⟩
    · exact fun hy => hy.2.2
  · rw [hanswer, h.nothing_iff hv hf, hspared, not_not]

/-! ### One step -/

namespace Stocked

variable {depth : Nat} {present : ObjectId → Channel → Prop}

omit [Payload α] in
theorem isFrozen {due : ObjectId → Channel → Entry α} (h : g₀.Stocked depth due present g)
    (hg : g₀.Frozen) : g.isFrozen = true := by
  rw [Graph.isFrozen, h.alike.plan]
  exact hg.isFrozen

/-- The entry of a source finds room. -/
theorem stage (h : g₀.Stocked depth (fun r => g₀.due (given r)) present g) (hg : g₀.Frozen)
    (hruns : ∀ r c, present r c → r ∈ runs) (hle : runs.length ≤ depth) (hrun : run ∈ runs)
    (hv : v ∈ g₀.sources) (hp : ¬ present run (.staging v)) :
    Supplied (given run) v run g ∧
      g₀.Stocked depth (fun r => g₀.due (given r))
        (fun r c => present r c ∨ r = run ∧ c = .staging v) (g.handle given (.stage v run)) := by
  have hc : g₀.Carries (.staging v) := hv
  obtain ⟨p, p', hpool, hpush, hpushed⟩ := h.push hc (hruns · _) hle hrun hp
  replace hpush : p.push ⟨run, (Staged.entry? (given run) v).join⟩ = some (.ok p') := hpush
  have hdeliver : g.deliver run [(.staging v, (Staged.entry? (given run) v).join)] =
      (g.setPool (.staging v) p', []) := by
    simp only [Graph.deliver, hpool, hpush]
  refine ⟨⟨congrArg Prod.snd hdeliver, fun {x} hx => ?_⟩, ?_⟩
  · obtain ⟨n, hn, hsource⟩ := mem_collect.mp (hg.sources_eq ▸ hv)
    have hnode : g.nodes[v]? = some n := h.alike.nodes ▸ hn
    rw [hx] at hpush hdeliver
    have hpush' : p.push ((Tagged.mk run x).map some) = some (.ok p') := hpush
    rw [hdeliver]
    simp [pushInput, Graph.stage, h.isFrozen hg, hnode, hsource, hpool, hpush']
  · rw [handle, hdeliver]
    exact hpushed

/-- **An execution finds its inputs** and takes them. -/
theorem launch (h : g₀.Stocked depth (fun r => g₀.due (given r)) present g) (hg : g₀.Frozen)
    {n : Node α} (hn : g₀.nodes[v]? = some n) {f : Fate α}
    (hf : g₀.evaluate (given run) v = some f) (hin : ∀ c ∈ g₀.inlets v, present run c) :
    ∃ g', g.launch v run = (⟨calledWith n (g₀.dues (given run) v) false, .ok ⟨f.output?, f.error?,
        (List.range (g₀.successors v).length).map f.branch?⟩⟩, g') ∧
      g₀.Stocked depth (fun r => g₀.due (given r))
        (fun r c => present r c ∧ ¬ (r = run ∧ c ∈ g₀.inlets v)) g' := by
  have hlt := (Array.getElem?_eq_some_iff.mp hn).1
  obtain ⟨g', htake, hg'⟩ := h.takeInputs (hg.nodup_inlets v)
    (fun c hc => ⟨((hg.mem_inlets hlt).mp hc).1, hin c hc⟩) []
  replace htake : g.takeInputs run [] (g₀.inlets v) = (.ok (g₀.dues (given run) v), g') := htake
  have hnode : g.nodes[v]? = some n := h.alike.nodes ▸ hn
  refine ⟨_, ?_, hg'.of_pools (alike_count (calledWith n (g₀.dues (given run) v) false).isSome v)
    (pool?_count _ v)⟩
  simp only [Graph.launch, h.isFrozen hg, Bool.not_true, Bool.false_eq_true, if_false, hnode,
    h.alike.inlets, htake, hg.fire_dues hn hf]

/-- **An execution whose inputs are there, and whose outputs are not yet**, comes to what the
evaluation says. -/
theorem fire (h : g₀.Stocked depth (fun r => g₀.due (given r)) present g) (hg : g₀.Frozen)
    (hruns : ∀ r c, present r c → r ∈ runs) (hle : runs.length ≤ depth) (hrun : run ∈ runs)
    (hfed : g₀.Fed (given run)) (hv : v < g₀.nodes.size) (hin : ∀ c ∈ g₀.inlets v, present run c)
    (hout : ∀ c ∈ g₀.outlets v, ¬ present run c) :
    Executed g₀ (given run) v run g ∧
      g₀.Stocked depth (fun r => g₀.due (given r))
        (fun r c => (present r c ∧ ¬ (r = run ∧ c ∈ g₀.inlets v)) ∨ r = run ∧ c ∈ g₀.outlets v)
        (g.handle given (.fire v run)) := by
  obtain ⟨n, hn⟩ := node_of_lt hv
  obtain ⟨f, hf⟩ := hg.exists_fate (given run) hv
  obtain ⟨g₁, hlaunch, hg₁⟩ := h.launch hg hn hf hin
  obtain ⟨g₂, hdeliver, hg₂⟩ := hg₁.deliver (hg.nodup_outlets v) (fun r c hp => hruns r c hp.1) hle
    hrun fun c hc => ⟨carries_of_mem_outlets hc, fun hp => hout c hc hp.1⟩
  rw [← hg.zip_outlets hf] at hdeliver
  have hfire : g.fire v run = (f.answer, g₂) := by
    simp only [Graph.fire, hlaunch, Launch.deliveries, hg₁.alike.outlets, hdeliver]
    cases f <;> rfl
  refine ⟨hg.executed hfed hn hf (congrArg Prod.fst hlaunch) (congrArg Prod.fst hfire) ?_, ?_⟩
  · simp only [withheld, hlaunch, Launch.deliveries, hg₁.alike.outlets, hdeliver]
  · rw [handle, hfire]
    exact hg₂

/-- There is nothing in the pools of a graph that nobody has used. -/
theorem of_ready (h : g₀.WellFormed) (hready : g₀.Ready depth) :
    g₀.Stocked depth (fun r => g₀.due (given r)) (Present []) g₀ := by
  obtain ⟨plan, hplan, rfl⟩ := Option.map_eq_some_iff.mp hready.depth
  have hpool : ∀ {c p}, g₀.pool? c = some p → p.isClosed = false ∧ p.entries = [] := by
    intro c p hp
    obtain ⟨s, hs, hmem⟩ := mem_pools_of_pool hp
    exact hready.pools s hs p hmem
  have hnone : ∀ c, g₀.entriesAt c = [] := by
    intro c
    cases hp : g₀.pool? c with
    | none => rw [entriesAt, hp]; rfl
    | some p => exact (entriesAt_of_pool hp).trans (hpool hp).2
  refine ⟨.refl g₀, fun hc => ?_, fun c => ?_, fun {c x} => ?_⟩
  · obtain ⟨p, hp, hcap⟩ := h.pool_of_carries hplan hc
    exact ⟨p, hp, hcap, (hpool hp).1⟩
  · rw [tagsAt, hnone]
    exact List.nodup_nil
  · rw [hnone]
    exact iff_of_false List.not_mem_nil fun hx => List.not_mem_nil hx.2.1.1

end Stocked

/-! ### All steps -/

namespace Orderly

variable {depth : Nat}

/-- **One step of an order comes to what is expected of it**, and leaves in the pools what is
present then. -/
theorem step (ho : g₀.Orderly runs acts) (hg : g₀.Frozen) (hle : runs.length ≤ depth)
    (hfed : ∀ run ∈ runs, g₀.Fed (given run)) (he : acts = l ++ a :: r)
    (h : g₀.Stocked depth (fun r => g₀.due (given r)) (Present l) g) :
    Fulfilled g₀ given g a ∧
      g₀.Stocked depth (fun r => g₀.due (given r)) (Present (l ++ [a])) (g.handle given a) := by
  have hmem : a ∈ acts := he ▸ List.mem_append_right _ (List.mem_cons_self ..)
  have hnot := ho.not_mem he
  have hruns : ∀ r c, Present l r c → r ∈ runs := by
    intro r c hp
    exact ho.run_of_filler (he ▸ List.mem_append_left _ hp.1)
  cases a with
  | stage v run =>
    obtain ⟨hv, hrun⟩ := ho.mem_stage.mp hmem
    obtain ⟨hsupplied, hs⟩ := h.stage hg hruns hle hrun hv fun hp => hnot hp.1
    refine ⟨hsupplied, hs.of_iff fun r c hc => ?_⟩
    rw [ho.present_snoc hg hc he, and_iff_left nofun, stage_eq_filler]
  | fire v run =>
    obtain ⟨hv, hrun⟩ := ho.mem_fire.mp hmem
    have hin : ∀ c ∈ g₀.inlets v, Present l run c := by
      intro c hc
      obtain ⟨hcarries, rfl⟩ := (hg.mem_inlets hv).mp hc
      exact ⟨ho.filler_mem hg hcarries he, hnot⟩
    have hout : ∀ c ∈ g₀.outlets v, ¬ Present l run c := by
      rintro c hc ⟨hp, -⟩
      obtain ⟨w, -, rfl⟩ := mem_outlets.mp hc
      exact hnot hp
    obtain ⟨hexecuted, hs⟩ := h.fire hg hruns hle hrun (hfed run hrun) hv hin hout
    refine ⟨hexecuted, hs.of_iff fun r c hc => ?_⟩
    rw [ho.present_snoc hg hc he]
    refine or_congr (and_congr_right fun _ => not_congr ?_) ?_
    · rw [hg.mem_inlets hv]
      constructor
      · rintro ⟨⟩
        exact ⟨rfl, hc, rfl⟩
      · rintro ⟨rfl, -, rfl⟩
        rfl
    · rw [fire_eq_filler hc]

/-- **What is present lies in the pools** after each step. -/
theorem stocked (ho : g₀.Orderly runs acts) (h : g₀.WellFormed) (hg : g₀.Frozen)
    (hready : g₀.Ready depth) (hle : runs.length ≤ depth)
    (hfed : ∀ run ∈ runs, g₀.Fed (given run)) (he : acts = l ++ r) :
    g₀.Stocked depth (fun r => g₀.due (given r)) (Present l) (g₀.handleAll given l) := by
  induction l using List.reverseRecOn generalizing r with
  | nil => exact .of_ready h hready
  | append_singleton l a ih =>
    rw [List.append_assoc] at he
    rw [handleAll, List.foldl_append]
    exact (ho.step hg hle hfed he (ih he)).2

end Orderly

theorem Raised.handleAll (h : g.Raised) (given : ObjectId → Staged α)
    (acts : List Handling) : (g.handleAll given acts).Raised := by
  induction acts generalizing g with
  | nil => exact h
  | cons a acts ih =>
    cases a with
    | stage v run => exact ih (h.deliver run _)
    | fire v run => exact ih (h.fire v run)

/-- **Runs that are executed by hand, in whatever order**, come to what the evaluation says.
Each entry is staged and each node executed without waiting, and executions take what is due
to them, so that they answer what the evaluation has them answer; in the end all pools are
empty. -/
theorem Raised.by_hand {depth : Nat} (h : g.Raised) (hready : g.Ready depth)
    (hle : runs.length ≤ depth) (hfed : ∀ run ∈ runs, g.Fed (given run))
    (ho : g.Orderly runs acts) :
    (∀ l v run r, acts = l ++ .stage v run :: r →
      Supplied (given run) v run (g.handleAll given l)) ∧
    (∀ l v run r, acts = l ++ .fire v run :: r →
      Executed g (given run) v run (g.handleAll given l)) ∧
    ∀ s ∈ (g.handleAll given acts).stations, ∀ p ∈ s.pools, p.entries = [] := by
  have hw := h.wellFormed
  obtain ⟨plan, hplan, -⟩ := Option.map_eq_some_iff.mp hready.depth
  have hg : g.Frozen := hw.frozen (by rw [isFrozen, hplan]; rfl)
  have hstocked : ∀ {l r}, acts = l ++ r → _ := ho.stocked hw hg hready hle hfed
  refine ⟨fun l v run r he => ?_, fun l v run r he => ?_, fun s hs p hp => ?_⟩
  · exact (ho.step hg hle hfed he (hstocked he)).1
  · exact (ho.step hg hle hfed he (hstocked he)).1
  · have hlast := hstocked (List.append_nil acts).symm
    refine (h.handleAll given acts).wellFormed.entries_of_pools (hlast.alike.plan.trans hplan)
      (fun c => List.eq_nil_iff_forall_not_mem.mpr fun x hx => ?_) hs hp
    obtain ⟨hc, hpresent, -⟩ := hlast.mem_iff.mp hx
    exact ho.not_present hg hc hpresent

/-! ### Two runs through two nodes -/

/-- What the first of the nodes does: it adds one to its input and refuses a zero. -/
def pairWork : Work Nat := fun xs =>
  .done (if xs = [0] then .failure "zero" else .value (xs.sum + 1))

/-- Two nodes in a row, of which the second passes on what it gets. -/
def pair : Graph Nat :=
  ((((Graph.empty.add "a" (some pairWork)).2.add "b" none).2.precede 0 1).2.freeze 2).2

/-- The run 9 is given a zero, and so it fails. -/
def pairInputs (run : ObjectId) : Staged Nat :=
  [(0, some (if run = 9 then 0 else 4))]

/-- At the first node the run 9 comes first, and at the second node the run 7. -/
def pairActs : List Handling :=
  [.stage 0 7, .stage 0 9, .fire 0 9, .fire 0 7, .fire 1 7, .fire 1 9]

theorem orderly_pair : pair.Orderly [7, 9] pairActs where
  nodup := by decide
  mem_stage := by
    intro v run
    rw [show pair.sources = [0] by cbv]
    simp [pairActs, ← and_or_left]
  mem_fire := by
    intro v run
    rw [show pair.nodes.size = 2 by cbv]
    constructor
    · intro hmem
      simp only [pairActs, List.mem_cons, reduceCtorEq, Handling.fire.injEq, List.not_mem_nil,
        or_false, false_or] at hmem
      rcases hmem with ⟨rfl, rfl⟩ | ⟨rfl, rfl⟩ | ⟨rfl, rfl⟩ | ⟨rfl, rfl⟩ <;> decide
    · rintro ⟨hv, hrun⟩
      rcases Nat.le_one_iff_eq_zero_or_eq_one.mp (Nat.le_of_lt_succ hv) with rfl | rfl
      · exact (show ∀ r ∈ [7, 9], .fire 0 r ∈ pairActs by decide) run hrun
      · exact (show ∀ r ∈ [7, 9], .fire 1 r ∈ pairActs by decide) run hrun
  staged := by
    rw [show pair.sources = [0] by cbv]
    decide
  fired := by
    intro u v hu
    have hlt := lt_of_mem_predecessors hu
    rw [show pair.nodes.size = 2 by cbv] at hlt
    rcases Nat.le_one_iff_eq_zero_or_eq_one.mp (Nat.le_of_lt_succ hlt) with rfl | rfl
    · rw [show pair.predecessors 0 = [] by cbv] at hu
      cases hu
    · rw [show pair.predecessors 1 = [0] by cbv] at hu
      obtain rfl := List.mem_singleton.mp hu
      decide

/-- The two runs go through the pair at the same time and in different orders. -/
theorem by_hand_pair :
    pair.Raised ∧ pair.Ready 2 ∧ (∀ run ∈ [7, 9], pair.Fed (pairInputs run)) ∧
    pair.Orderly [7, 9] pairActs ∧
    (∀ l v run r, pairActs = l ++ .stage v run :: r →
      Supplied (pairInputs run) v run (pair.handleAll pairInputs l)) ∧
    (∀ l v run r, pairActs = l ++ .fire v run :: r →
      Executed pair (pairInputs run) v run (pair.handleAll pairInputs l)) ∧
    ∀ s ∈ (pair.handleAll pairInputs pairActs).stations, ∀ p ∈ s.pools, p.entries = [] := by
  have hbuilt := ((Raised.empty.add "a" (some pairWork)).add "b" none).precede 0 1
  have hready : pair.Ready 2 := hbuilt.built.linked.ready (Prod.ext (by cbv) rfl)
  have hfed : ∀ run ∈ [7, 9], pair.Fed (pairInputs run) := by
    intro run _ v n hn hv _
    rw [show pair.sources = [0] by cbv] at hv
    obtain rfl := List.mem_singleton.mp hv
    rfl
  have hle : ([7, 9] : List ObjectId).length ≤ 2 := Nat.le_refl 2
  exact ⟨hbuilt.freeze 2, hready, hfed, orderly_pair,
    Raised.by_hand (hbuilt.freeze 2) hready hle hfed orderly_pair⟩

/-- The second node passes on what the first has computed, unless that has failed. -/
example :
    ((pair.handleAll pairInputs (pairActs.take 2)).fire 0 9).1 =
      .error (.execution (.workFailed 0 "zero")) ∧
    ((pair.handleAll pairInputs (pairActs.take 4)).fire 1 7).1 = .ok (some 5) ∧
    ((pair.handleAll pairInputs (pairActs.take 5)).fire 1 9).1 = .ok none := by
  cbv

end Graph

end Dataflow
