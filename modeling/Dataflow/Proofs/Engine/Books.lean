import Dataflow.Proofs.Engine.Flow
import Dataflow.Run.Table

/-!
# The books of a run

For every run in flight there are four things to keep in order while its nodes are
executed, each by any thread and at any time. Beside the `Flow` of its entries these
are:

* `Counts`: the slot counts for each node the predecessors that have not released it,
  and the sinks that have not finished; a node is handed to a worker when nothing is
  left to count, and the run is ended by one sink alone.
* `Results`: what was recorded so far is what the evaluation of the run says. When all
  nodes have recorded, the outcome is the prescribed one, `Results.prescribed`.
* `Posts`: the executions that are under way hold what the evaluation lets them have.

All but the last depend on the posts of the nodes through their progress only. The
lemmas below follow the operations of an execution: each changes the progress of one
node at one point and touches one of the books, or two.
-/

namespace Dataflow

/-- A node that satisfies a test no longer is counted once less. -/
theorem countP_update {β : Type} {l : List β} {a b : β → Bool} {x : β} (hn : l.Nodup) (hx : x ∈ l)
    (ha : a x = true) (hb : b x = false) (hab : ∀ y ∈ l, y ≠ x → b y = a y) :
    l.countP a = l.countP b + 1 := by
  obtain ⟨l₁, l₂, rfl⟩ := List.append_of_mem hx
  have hx₁ : x ∉ l₁ := fun h => (List.nodup_append.mp hn).2.2 x h x (by simp) rfl
  have hx₂ : x ∉ l₂ := (List.nodup_cons.mp (List.nodup_append.mp hn).2.1).1
  have h₁ : l₁.countP b = l₁.countP a := by
    refine List.countP_congr fun y hy => ?_
    rw [hab y (by simp [hy]) fun h => hx₁ (h ▸ hy)]
  have h₂ : l₂.countP b = l₂.countP a := by
    refine List.countP_congr fun y hy => ?_
    rw [hab y (by simp [hy]) fun h => hx₂ (h ▸ hy)]
  simp only [List.countP_append, List.countP_cons, ha, hb, if_true, Bool.false_eq_true, if_false,
    h₁, h₂]
  omega

variable {α : Type} {k : Strategy} {g : Graph α} {q : NodeId → Progress} {v : NodeId}
  {P : Progress}

/-! ### Counts -/

/-- **What the slot of a run counts.** -/
structure Counts (k : Strategy) (g : Graph α) (deps : Array Nat) (sinks : Nat)
    (q : NodeId → Progress) : Prop where
  deps_eq : k = .stealing → ∀ {v}, v < g.nodes.size →
    deps[v]? = some ((g.predecessors v).countP fun u => !(q u).released v)
  begun_iff : k = .stealing → ∀ {v}, v < g.nodes.size →
    ((q v).begun = true ↔ ∀ u ∈ g.predecessors v, (q u).released v = true)
  sinks_eq : sinks = g.sinks.countP fun v => !(q v).finished
  completing_iff : (∃ v, (q v).completing = true) ↔ sinks = 0
  lone : ∀ {u v}, (q u).completing = true → (q v).completing = true → u = v

namespace Counts

variable {deps : Array Nat} {sinks : Nat}

/-- What is not counted may change. -/
theorem congr (h : Counts k g deps sinks q) {q' : NodeId → Progress}
    (hb : k = .stealing → ∀ v, v < g.nodes.size → (q' v).begun = (q v).begun)
    (hr : k = .stealing → ∀ v, ∀ w ∈ g.successors v, (q' v).released w = (q v).released w)
    (hf : ∀ v ∈ g.sinks, (q' v).finished = (q v).finished)
    (hc : ∀ v, (q' v).completing = (q v).completing) (hg : g.Linked) :
    Counts k g deps sinks q' := by
  have hr' : k = .stealing → ∀ w, ∀ u ∈ g.predecessors w, (q' u).released w = (q u).released w :=
    fun hk w u hu => hr hk u w (hg.mem_predecessors.mp hu)
  constructor
  · intro hk v hv
    rw [h.deps_eq hk hv]
    congr 1
    exact List.countP_congr fun u hu => by rw [hr' hk v u hu]
  · intro hk v hv
    rw [hb hk v hv, h.begun_iff hk hv]
    exact forall₂_congr fun u hu => by rw [hr' hk v u hu]
  · rw [h.sinks_eq]
    exact List.countP_congr fun v hv => by rw [hf v hv]
  · simpa only [hc] using h.completing_iff
  · intro u v
    rw [hc, hc]
    exact h.lone

/-- An operation that is not counted. -/
theorem update (h : Counts k g deps sinks q) (hg : g.Linked)
    (hb : k = .stealing → P.begun = (q v).begun)
    (hr : k = .stealing → ∀ w ∈ g.successors v, P.released w = (q v).released w)
    (hf : v ∈ g.sinks → P.finished = (q v).finished) (hc : P.completing = (q v).completing) :
    Counts k g deps sinks (Function.update q v P) := by
  refine h.congr (fun hk w _ => update_same (·.begun) (hb hk) w) ?_ ?_
    (update_same (·.completing) hc) hg
  · intro hk u w hw
    by_cases hu : u = v
    · subst hu
      rw [Function.update_self]
      exact hr hk w hw
    · rw [Function.update_of_ne hu]
  · intro u hu
    by_cases huv : u = v
    · subst huv
      rw [Function.update_self]
      exact hf hu
    · rw [Function.update_of_ne huv]

/-- A node that was not released is counted, and was not handed to anybody. -/
theorem owed (h : Counts k g deps sinks q) (hg : g.Linked) (hk : k = .stealing) {w : NodeId}
    (hw : w ∈ g.successors v) (hnew : (q v).released w = false) :
    (q w).begun = false ∧ ∃ n, deps[w]? = some (n + 1) := by
  have hvw := hg.mem_predecessors.mpr hw
  have hlt := hg.target_lt hw
  constructor
  · rw [← Bool.not_eq_true, h.begun_iff hk hlt]
    intro hall
    have := hall v hvw
    simp [hnew] at this
  · have hpos : 0 < (g.predecessors w).countP fun u => !(q u).released w :=
      List.countP_pos_iff.mpr ⟨v, hvw, by simp [hnew]⟩
    exact ⟨_, by rw [h.deps_eq hk hlt, Nat.sub_add_cancel hpos]⟩

/-- **A node releases a successor**, which is handed to a worker if it was the last one
to be waited for. -/
theorem release (h : Counts k g deps sinks q) (hg : g.Linked) (hk : k = .stealing) {w : NodeId}
    (hw : w ∈ g.successors v) (hnew : (q v).released w = false) {n : Nat}
    (hn : deps[w]? = some (n + 1)) (limit : Nat) {q' : NodeId → Progress}
    (hr : ∀ u, ∀ w' ∈ g.successors u,
      (q' u).released w' = (decide (u = v ∧ w' = w) || (q u).released w'))
    (hb : ∀ w', (q' w').begun = if w' = w then n == 0 else (q w').begun)
    (hf : ∀ u ∈ g.sinks, (q' u).finished = (q u).finished)
    (hc : ∀ u, (q' u).completing = (q u).completing) :
    Counts k g (deps.modify w (countDown limit)) sinks q' := by
  have hvw := hg.mem_predecessors.mpr hw
  have hlt := hg.target_lt hw
  have hother : ∀ {w'}, w' ≠ w → ∀ u ∈ g.predecessors w',
      (q' u).released w' = (q u).released w' := by
    intro w' hne u hu
    rw [hr u w' (hg.mem_predecessors.mp hu)]
    simp [hne]
  -- the count of `w` goes down by one, and all other counts stay
  have hcount : n = (g.predecessors w).countP fun u => !(q' u).released w := by
    have hdown : (g.predecessors w).countP (fun u => !(q u).released w) =
        (g.predecessors w).countP (fun u => !(q' u).released w) + 1 := by
      refine countP_update (hg.nodup_predecessors w) hvw (by simp [hnew]) ?_ ?_
      · simp [hr v w hw]
      · intro u hu huv
        rw [hr u w (hg.mem_predecessors.mp hu)]
        simp [huv]
    have := h.deps_eq hk hlt
    rw [hn, hdown, Option.some.injEq] at this
    omega
  constructor
  · intro _ w' hw'
    rw [Array.getElem?_modify]
    by_cases hww : w = w'
    · subst hww
      rw [if_pos rfl, hn, ← hcount]
      rfl
    · rw [if_neg hww, h.deps_eq hk hw']
      congr 1
      exact List.countP_congr fun u hu => by rw [hother (Ne.symm hww) u hu]
  · intro _ w' hw'
    rw [hb]
    by_cases hww : w' = w
    · subst hww
      rw [if_pos rfl, hcount]
      simp only [beq_iff_eq, List.countP_eq_zero, Bool.not_eq_true', Bool.not_eq_false]
    · rw [if_neg hww, h.begun_iff hk hw']
      exact forall₂_congr fun u hu => by rw [hother hww u hu]
  · rw [h.sinks_eq]
    exact List.countP_congr fun u hu => by rw [hf u hu]
  · simpa only [hc] using h.completing_iff
  · intro u u'
    rw [hc, hc]
    exact h.lone

/-- A sink that has not finished is counted. -/
theorem unfinished (h : Counts k g deps sinks q) (hv : v ∈ g.sinks)
    (hnew : (q v).finished = false) : ∃ n, sinks = n + 1 := by
  have hpos : 0 < g.sinks.countP fun u => !(q u).finished :=
    List.countP_pos_iff.mpr ⟨v, hv, by simp [hnew]⟩
  exact ⟨_, by rw [h.sinks_eq, Nat.sub_add_cancel hpos]⟩

/-- **A sink is counted as finished**, and ends the run if it was the last one. -/
theorem finish (h : Counts k g deps sinks q) (hg : g.Frozen) (hv : v ∈ g.sinks)
    (hnew : (q v).finished = false) {n : Nat} (hn : sinks = n + 1)
    (hb : k = .stealing → P.begun = (q v).begun) (hf : P.finished = true)
    (hc : P.completing = (n == 0)) :
    Counts k g deps n (Function.update q v P) := by
  -- no node waits for a sink
  have hs : ∀ u, g.successors u ≠ [] → Function.update q v P u = q u := by
    intro u hu
    refine Function.update_of_ne (fun huv => hu ?_) ..
    rw [huv]
    exact (hg.mem_sinks.mp hv).2
  have hr : ∀ w, ∀ u ∈ g.predecessors w, Function.update q v P u = q u := by
    intro w u hu
    exact hs u (List.ne_nil_of_mem (hg.linked.mem_predecessors.mp hu))
  have hcount : n = g.sinks.countP fun u => !(Function.update q v P u).finished := by
    have hdown : g.sinks.countP (fun u => !(q u).finished) =
        g.sinks.countP (fun u => !(Function.update q v P u).finished) + 1 := by
      refine countP_update hg.nodup_sinks hv (by simp [hnew]) (by simp [hf]) ?_
      intro u _ huv
      rw [Function.update_of_ne huv]
    rw [← h.sinks_eq, hn] at hdown
    omega
  -- nobody has ended the run, since the sink was left
  have hnone : ∀ u, (q u).completing ≠ true := by
    intro u hu
    have := h.completing_iff.mp ⟨u, hu⟩
    omega
  have hat : ∀ u, (Function.update q v P u).completing = true ↔ u = v ∧ n = 0 := by
    intro u
    by_cases huv : u = v
    · subst huv
      simp [hc]
    · rw [Function.update_of_ne huv]
      simp [hnone u, huv]
  constructor
  · intro hk w hw
    rw [h.deps_eq hk hw]
    congr 1
    exact List.countP_congr fun u hu => by rw [hr w u hu]
  · intro hk w hw
    rw [update_same (·.begun) (hb hk) w, h.begun_iff hk hw]
    exact forall₂_congr fun u hu => by rw [hr w u hu]
  · exact hcount
  · simp [hat]
  · intro u u' hu hu'
    rw [((hat u).mp hu).1, ((hat u').mp hu').1]

end Counts

/-! ### Results -/

namespace RunStatus

variable (s : RunStatus α) (id : NodeId) (output : Option α) (error : Option ExecutionError)

/-- Recording touches nothing but the results. -/
theorem record_eq : s.record id output error = { s with
    failed := s.failed || error.isSome
    error := s.error.or error
    outputs := (output.map fun x => (id, x)).toList ++ s.outputs } := by
  unfold record
  cases output <;> cases error <;> simp

end RunStatus

variable [Payload α] {staged : Staged α}

/-- **What was recorded of a run.** -/
structure Results (g : Graph α) (staged : Staged α) (failed : Bool)
    (error : Option ExecutionError) (outputs : List (NodeId × α)) (q : NodeId → Progress) :
    Prop where
  failed_eq : failed = error.isSome
  error_mem : ∀ {e}, error = some e → e ∈ g.failures (g.evaluate staged)
  nodup : (outputs.map (·.1)).Nodup
  output : ∀ {v x}, (v, x) ∈ outputs →
    v < g.nodes.size ∧ g.evaluate staged v = some (.output x) ∧ (q v).recorded = true
  /-- As long as no error is recorded, all nodes that have recorded do well. -/
  well : failed = false → ∀ {v}, v < g.nodes.size → (q v).recorded = true →
    ∃ fate, g.evaluate staged v = some fate ∧ fate.Well (g.successors v).length ∧
      ∀ x, fate.output? = some x → (v, x) ∈ outputs

namespace Results

variable {failed : Bool} {error : Option ExecutionError} {outputs : List (NodeId × α)}

theorem congr (h : Results g staged failed error outputs q) {q' : NodeId → Progress}
    (hr : ∀ v, (q' v).recorded = (q v).recorded) :
    Results g staged failed error outputs q' where
  failed_eq := h.failed_eq
  error_mem := h.error_mem
  nodup := h.nodup
  output := by
    intro v x hx
    rw [hr]
    exact h.output hx
  well := by
    intro hf v hv hrec
    exact h.well hf hv (hr v ▸ hrec)

theorem update (h : Results g staged failed error outputs q)
    (hr : P.recorded = (q v).recorded) :
    Results g staged failed error outputs (Function.update q v P) :=
  h.congr (update_same (·.recorded) hr)

/-- **A node records** what its execution has left behind. -/
theorem record (h : Results g staged failed error outputs q) (hg : g.Frozen)
    (hv : v < g.nodes.size) {f : Firing α} (hfit : f.Fits g staged failed v)
    (hnew : (q v).recorded = false) (hP : P.recorded = true) :
    Results g staged (failed || f.error.isSome) (error.or f.error)
      ((f.output.map fun x => (v, x)).toList ++ outputs) (Function.update q v P) := by
  have hmono : ∀ u, (q u).recorded = true → (Function.update q v P u).recorded = true := by
    intro u hu
    by_cases huv : u = v
    · subst huv
      rwa [Function.update_self]
    · rwa [Function.update_of_ne huv]
  constructor
  · rw [h.failed_eq]
    cases error <;> cases f.error <;> rfl
  · intro e he
    rcases Option.or_eq_some_iff.mp he with he | ⟨-, he⟩
    · exact h.error_mem he
    · exact hg.mem_failures.mpr ⟨v, hv, hfit.error he⟩
  -- the node has recorded nothing before
  · cases hx : f.output with
    | none => exact h.nodup
    | some x =>
      simp only [Option.map_some, Option.toList_some, List.singleton_append, List.map_cons,
        List.nodup_cons]
      refine ⟨fun hmem => ?_, h.nodup⟩
      obtain ⟨⟨u, y⟩, hy, rfl⟩ := List.mem_map.mp hmem
      have := (h.output hy).2.2
      simp [hnew] at this
  · intro u x hx
    rcases List.mem_append.mp hx with hx | hx
    · obtain ⟨y, hy, he⟩ := Option.map_eq_some_iff.mp (Option.mem_toList.mp hx)
      obtain ⟨rfl, rfl⟩ : v = u ∧ y = x := by simpa using he
      exact ⟨hv, hfit.output hy, by rw [Function.update_self, hP]⟩
    · obtain ⟨hu, hev, hrec⟩ := h.output hx
      exact ⟨hu, hev, hmono u hrec⟩
  · intro hf u hu hrec
    obtain ⟨hf₁, hf₂⟩ : failed = false ∧ f.error.isSome = false := by simpa using hf
    by_cases huv : u = v
    · subst huv
      obtain ⟨fate, hev, hw, ho⟩ := hfit.well hf₁ (by simpa using hf₂)
      refine ⟨fate, hev, hw, fun x hx => List.mem_append_left _ ?_⟩
      rw [ho, hx]
      simp
    · rw [Function.update_of_ne huv] at hrec
      obtain ⟨fate, hev, hw, ho⟩ := h.well hf₁ hu hrec
      exact ⟨fate, hev, hw, fun x hx => List.mem_append_right _ (ho x hx)⟩

/-- **When all nodes have recorded, the outcome is the prescribed one.** -/
theorem prescribed (h : Results g staged failed error outputs q) (hg : g.Frozen)
    (hall : ∀ v, v < g.nodes.size → (q v).recorded = true) (run : ObjectId) :
    g.Prescribed staged run (error.elim (.ok (.ofOutputs run outputs.reverse))
      fun e => .error (.execution e)) := by
  cases he : error with
  | some e => exact Or.inr ⟨e, h.error_mem he, rfl⟩
  | none =>
    have hf : failed = false := by simp [h.failed_eq, he]
    refine Or.inl ⟨?_, ?_⟩
    -- every node does well, so none fails
    · refine List.eq_nil_iff_forall_not_mem.mpr fun e hmem => ?_
      obtain ⟨v, hv, hev⟩ := hg.mem_failures.mp hmem
      obtain ⟨fate, hev', hw, -⟩ := h.well hf hv (hall v hv)
      obtain rfl : Fate.failed e = fate := by simpa [hev] using hev'
      exact hw
    · have hn : (outputs.reverse.map (·.1)).Nodup := by
        rw [List.map_reverse, List.nodup_reverse]
        exact h.nodup
      refine congrArg Except.ok (hg.ofOutputs_eq hn fun id x => ?_)
      rw [List.mem_reverse, Graph.Frozen.mem_outputs]
      constructor
      · intro hx
        obtain ⟨hid, hev, -⟩ := h.output hx
        exact ⟨hg.mem_sinks.mpr ⟨hid, hg.successors_of_output hev hid⟩, hev⟩
      · rintro ⟨hid, hev⟩
        obtain ⟨hlt, -⟩ := hg.mem_sinks.mp hid
        obtain ⟨fate, hev', -, ho⟩ := h.well hf hlt (hall id hlt)
        obtain rfl : Fate.output x = fate := by simpa [hev] using hev'
        exact ho x rfl

end Results

/-! ### Posts -/

/-- **What an execution holds** at a stage is what the evaluation lets it have. -/
def StageFits (k : Strategy) (g : Graph α) (staged : Staged α) (failed : Bool) (v : NodeId) :
    Stage α → Prop
  | .opening _ => k = .stealing
  | .claiming _ taken rest => k = .stealing ∧ ∃ cs, g.inlets v = cs ++ rest ∧
    Claimed (g.Fits staged failed) cs taken
  | .awaiting _ taken rest => k = .dedicated ∧ ∃ cs, g.inlets v = cs ++ rest ∧
    Claimed (g.Fits staged failed) cs taken
  | .locating _ taken => k = .dedicated ∧ Claimed (g.Fits staged failed) (g.inlets v) taken
  | .entering _ inputs => Claimed (g.Fits staged failed) (g.inlets v) inputs
  | .working _ xs rest => g.received staged (g.evaluate staged) v = some xs ∧
    ∃ n, g.nodes[v]? = some n ∧ n.invoke v xs = rest.verdict.judge v
  | .recording _ firing => firing.Fits g staged failed v
  | .publishing _ rest waiting => waiting = false ∧ rest.map (·.1) <:+ g.outlets v ∧
    ∀ d ∈ rest, g.Fits staged failed d.1 d.2
  | .releasing _ rest => k = .stealing ∧ rest <:+ g.successors v
  | .finishing _ => g.successors v = []
  | .completing _ => g.successors v = []
  | _ => False

theorem Firing.Fits.mono {failed failed' : Bool} (hf : failed = true → failed' = true)
    {f : Firing α} (h : f.Fits g staged failed v) : f.Fits g staged failed' v where
  output := h.output
  error := h.error
  length := h.length
  delivery := fun hw he => (h.delivery hw he).mono (by
    cases failed <;> cases failed' <;> simp at hf ⊢)
  well := fun hf' he => h.well (by
    cases failed
    · rfl
    · simp [hf rfl] at hf') he

theorem StageFits.mono {failed failed' : Bool} (hf : failed = true → failed' = true)
    {st : Stage α} (h : StageFits k g staged failed v st) : StageFits k g staged failed' v st := by
  have hfit : ∀ c e, g.Fits staged failed c e → g.Fits staged failed' c e :=
    fun _ _ => Graph.Fits.mono hf
  cases st with
  | claiming seat taken rest =>
    obtain ⟨hk, cs, hcs, hcl⟩ := h
    exact ⟨hk, cs, hcs, hcl.mono hfit⟩
  | awaiting run taken rest =>
    obtain ⟨hk, cs, hcs, hcl⟩ := h
    exact ⟨hk, cs, hcs, hcl.mono hfit⟩
  | locating run taken => exact ⟨h.1, h.2.mono hfit⟩
  | entering seat inputs => exact Claimed.mono hfit h
  | recording seat firing => exact Firing.Fits.mono hf h
  | publishing seat rest waiting => exact ⟨h.1, h.2.1, fun d hd => (h.2.2 d hd).mono hf⟩
  | _ => exact h

/-- **The executions of a run** that are under way. -/
structure Posts (k : Strategy) (g : Graph α) (staged : Staged α) (failed : Bool) (slot : SlotId)
    (run : ObjectId) (p : NodeId → Post α) : Prop where
  lt_size : ∀ {v st}, p v = .busy st → v < g.nodes.size
  serves : ∀ {v st}, p v = .busy st → st.Serves slot run
  engaged : ∀ {v st}, p v = .busy st → (⟨v, st⟩ : Execution α).isEngaged k g = true
  fits : ∀ {v st}, p v = .busy st → StageFits k g staged failed v st

namespace Posts

variable {failed failed' : Bool} {slot : SlotId} {run : ObjectId} {p : NodeId → Post α}

theorem mono (h : Posts k g staged failed slot run p) (hf : failed = true → failed' = true) :
    Posts k g staged failed' slot run p where
  lt_size := h.lt_size
  serves := h.serves
  engaged := h.engaged
  fits := fun hst => (h.fits hst).mono hf

/-- A node goes on to a stage that fits. -/
theorem busy (h : Posts k g staged failed slot run p) (hv : v < g.nodes.size) {st : Stage α}
    (hs : st.Serves slot run) (he : (⟨v, st⟩ : Execution α).isEngaged k g = true)
    (hfit : StageFits k g staged failed v st) :
    Posts k g staged failed slot run (Function.update p v (.busy st)) := by
  -- whoever is busy now is at the new stage, or was busy before
  have key : ∀ {w st'}, Function.update p v (.busy st) w = .busy st' →
      (w = v ∧ st' = st) ∨ p w = .busy st' := by
    intro w st' hw
    by_cases hwv : w = v
    · subst hwv
      rw [Function.update_self] at hw
      exact Or.inl ⟨rfl, (Post.busy.inj hw).symm⟩
    · rw [Function.update_of_ne hwv] at hw
      exact Or.inr hw
  constructor
  · intro w st' hw
    rcases key hw with ⟨rfl, rfl⟩ | hw
    · exact hv
    · exact h.lt_size hw
  · intro w st' hw
    rcases key hw with ⟨rfl, rfl⟩ | hw
    · exact hs
    · exact h.serves hw
  · intro w st' hw
    rcases key hw with ⟨rfl, rfl⟩ | hw
    · exact he
    · exact h.engaged hw
  · intro w st' hw
    rcases key hw with ⟨rfl, rfl⟩ | hw
    · exact hfit
    · exact h.fits hw

/-- A node that does not execute the run. -/
theorem idle (h : Posts k g staged failed slot run p) {P : Post α} (hP : ∀ st, P ≠ .busy st) :
    Posts k g staged failed slot run (Function.update p v P) := by
  have key : ∀ {w st'}, Function.update p v P w = .busy st' → p w = .busy st' := by
    intro w st' hw
    by_cases hwv : w = v
    · subst hwv
      rw [Function.update_self] at hw
      exact absurd hw (hP st')
    · rwa [Function.update_of_ne hwv] at hw
  exact ⟨fun hw => h.lt_size (key hw), fun hw => h.serves (key hw), fun hw => h.engaged (key hw),
    fun hw => h.fits (key hw)⟩

theorem ofStage (h : Posts k g staged failed slot run p) (hv : v < g.nodes.size) {st : Stage α}
    (hs : st.Serves slot run) (hfit : StageFits k g staged failed v st) :
    Posts k g staged failed slot run (Function.update p v (.ofStage k g v st)) := by
  unfold Post.ofStage
  split
  · next he => exact h.busy hv hs he hfit
  · exact h.idle (by simp)

end Posts

/-! ### All of them -/

/-- **The books of a run in flight.** -/
structure Books (k : Strategy) (g : Graph α) (staged : Staged α) (slot : SlotId) (run : ObjectId)
    (s : RunStatus α) (has : Channel → Entry α → Prop) (p : NodeId → Post α) : Prop where
  flow : Flow g staged s.failed has fun v => (p v).progress
  counts : Counts k g s.remainingDeps s.remainingSinks fun v => (p v).progress
  results : Results g staged s.failed s.error s.outputs fun v => (p v).progress
  posts : Posts k g staged s.failed slot run p

/-- The books of a run depend on its own entries only. -/
theorem Books.congr {slot : SlotId} {run : ObjectId} {s : RunStatus α}
    {has has' : Channel → Entry α → Prop} {p : NodeId → Post α}
    (h : Books k g staged slot run s has p) (hsame : ∀ c e, has' c e ↔ has c e) :
    Books k g staged slot run s has' p := by
  obtain rfl : has' = has := by
    funext c e
    exact propext (hsame c e)
  exact h

end Dataflow
