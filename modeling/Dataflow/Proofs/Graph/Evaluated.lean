import Mathlib.Data.List.Nodup
import Mathlib.Data.List.Sort
import Mathlib.Logic.Relation
import Dataflow.Graph.Evaluation
import Dataflow.Proofs.Graph.Sorted
import Dataflow.Run.Cell

/-!
# What the evaluation of a run comes to

The evaluation goes through the order of a frozen graph and looks at each node once. As
the order has every node after its predecessors, what comes out is the one assignment
of fates in which every node fares as its predecessors let it, `Graph.Frozen.evaluate_eq`;
the order itself is gone from that equation. A node is cut off exactly if some node above
it has failed, so the ancestors of a node that fails by itself have all shared their
outputs, `Graph.Frozen.shared_of_ancestor`, and where nobody fails every sink has an
output, `Graph.Frozen.map_outputs`.

`Graph.Prescribed` is the outcome that the evaluation of a run leaves open to its
future.
-/

namespace Dataflow

/-- A list is mapped as a whole if each of its elements is. -/
theorem mapM_eq_some {β γ : Type} {f : β → Option γ} {l : List β} {ys : List γ} :
    l.mapM f = some ys ↔ l.map f = ys.map some := by
  induction l generalizing ys with
  | nil =>
    rw [List.mapM_nil]
    cases ys <;> simp
  | cons x l ih =>
    rw [List.mapM_cons]
    cases hx : f x with
    | none => cases ys <;> simp [hx]
    | some y =>
      cases ys with
      | nil => cases l.mapM f <;> simp [hx]
      | cons z ys =>
        simp only [Option.bind_eq_bind, Option.bind_some, List.map_cons, hx, List.cons.injEq,
          Option.some.injEq, ← ih]
        cases l.mapM f <;> simp

theorem exists_map_some {β γ : Type} {f : β → Option γ} {l : List β}
    (h : ∀ x ∈ l, ∃ y, f x = some y) : ∃ ys : List γ, l.map f = ys.map some := by
  induction l with
  | nil => exact ⟨[], rfl⟩
  | cons x l ih =>
    obtain ⟨y, hy⟩ := h x (List.mem_cons_self ..)
    obtain ⟨ys, hys⟩ := ih fun z hz => h z (List.mem_cons_of_mem _ hz)
    exact ⟨y :: ys, by rw [List.map_cons, hy, hys, List.map_cons]⟩

theorem mapM_agree {β γ : Type} {f f' : β → Option γ} {l : List β} (h : ∀ x ∈ l, f x = f' x) :
    l.mapM f = l.mapM f' := by
  refine Option.ext fun ys => ?_
  rw [mapM_eq_some, mapM_eq_some, List.map_congr_left h]

/-! ### Nodes that do well -/

/-- The node has an output, and something for each of its successors. -/
def Fate.Well {α : Type} (arity : Nat) : Fate α → Prop
  | .output _ => arity = 0
  | .shared xs => 0 < arity ∧ xs.length = arity
  | .failed _ => False
  | .cutOff => False

namespace Fate.Well

variable {α : Type} {arity : Nat} {f : Fate α}

theorem branch (h : f.Well arity) {k : Nat} (hk : k < arity) : ∃ x, f.branch? k = some x := by
  cases f with
  | output x => simp only [Fate.Well] at h; omega
  | shared xs => exact ⟨_, List.getElem?_eq_getElem (h.2 ▸ hk)⟩
  | failed e => exact False.elim h
  | cutOff => exact False.elim h

theorem output (h : f.Well 0) : ∃ x, f = .output x := by
  cases f with
  | output x => exact ⟨x, rfl⟩
  | shared xs => exact absurd h.1 (Nat.lt_irrefl 0)
  | failed e => exact False.elim h
  | cutOff => exact False.elim h

end Fate.Well

/-- A node that has its inputs does well or fails by itself. -/
theorem Node.well_fate {α : Type} [Payload α] (n : Node α) (id : NodeId) (xs : List α) :
    (n.fate id (some xs)).Well n.successors.length ∨ ∃ e, n.fate id (some xs) = .failed e := by
  cases hi : n.invoke id xs with
  | error e => exact Or.inr ⟨e, by simp [Node.fate, hi]⟩
  | ok x =>
    simp only [Node.fate, hi, Node.share]
    by_cases hs : n.isSink = true
    · rw [if_pos hs]
      exact Or.inl (List.length_eq_zero_iff.mpr (List.isEmpty_iff.mp hs))
    · rw [if_neg hs]
      have hpos : 0 < n.successors.length :=
        List.length_pos_iff.mpr fun hnil => hs (List.isEmpty_iff.mpr hnil)
      rcases hc : Payload.copies (n.successors.length - 1) x with ⟨e | ys, x'⟩
      · exact Or.inr ⟨_, rfl⟩
      · have := Payload.length_of_copies hc
        exact Or.inl ⟨hpos, by simp only [List.length_cons]; omega⟩

namespace Graph

variable {α : Type} {g : Graph α} {staged : Staged α}

/-! ### The evaluation as a fixed point -/

/-- If a node has not received all of its inputs, some predecessor hands it nothing. -/
theorem received_eq_none {v : Evaluation α} {id : NodeId} (h : g.received staged v id = none) :
    ∃ u ∈ g.predecessors id, (v u).bind (·.branch? ((g.successors u).idxOf id)) = none := by
  by_contra hno
  have hall : ∀ u ∈ g.predecessors id,
      ∃ x, (v u).bind (·.branch? ((g.successors u).idxOf id)) = some x := fun u hu =>
    Option.ne_none_iff_exists'.mp fun hu' => hno ⟨u, hu, hu'⟩
  unfold received at h
  split at h
  · simp at h
  · obtain ⟨ys, hys⟩ := exists_map_some hall
    rw [mapM_eq_some.mpr hys] at h
    simp at h

/-- What a node receives depends on its predecessors only. -/
theorem received_congr {v v' : Evaluation α} {id : NodeId}
    (h : ∀ u ∈ g.predecessors id, v u = v' u) :
    g.received staged v id = g.received staged v' id := by
  unfold received
  split
  · rfl
  · refine mapM_agree fun u hu => ?_
    rw [h u hu]

variable [Payload α]

theorem evaluateNode_self {v : Evaluation α} {id : NodeId} {n : Node α}
    (h : g.nodes[id]? = some n) :
    g.evaluateNode staged v id id = some (n.fate id (g.received staged v id)) := by
  simp [evaluateNode, h]

theorem evaluateNode_ne {v : Evaluation α} {id i : NodeId} (h : i ≠ id) :
    g.evaluateNode staged v id i = v i := by
  unfold evaluateNode
  cases g.nodes[id]? with
  | none => rfl
  | some n => exact if_neg h

namespace Frozen

/-- **Every node fares as its predecessors let it.** -/
theorem evaluate_eq (h : g.Frozen) (staged : Staged α) {id : NodeId} {n : Node α}
    (hn : g.nodes[id]? = some n) :
    g.evaluate staged id = some (n.fate id (g.received staged (g.evaluate staged) id)) := by
  -- induction on the part of the order that is evaluated: later nodes do not change it
  have key : ∀ l r, g.order.toList = l ++ r → ∀ u ∈ l, ∀ n, g.nodes[u]? = some n →
      l.foldl (g.evaluateNode staged) (fun _ => none) u =
        some (n.fate u (g.received staged (l.foldl (g.evaluateNode staged) fun _ => none) u)) := by
    intro l
    induction l using List.reverseRecOn with
    | nil => simp
    | append_singleton l w ih =>
      intro r he u hu n hn
      have he' : g.order.toList = l ++ w :: r := by simpa using he
      have hw : w ∉ l := by
        have hnd : (l ++ w :: r).Nodup := he' ▸ h.nodup_order
        exact fun hwl => (List.nodup_append.mp hnd).2.2 w hwl w (by simp) rfl
      simp only [List.foldl_append, List.foldl_cons, List.foldl_nil]
      -- the predecessors of a listed node are not the one that is evaluated now
      have hold : ∀ p ∈ l, g.evaluateNode staged
          (l.foldl (g.evaluateNode staged) fun _ => none) w p =
          l.foldl (g.evaluateNode staged) (fun _ => none) p :=
        fun p hp => evaluateNode_ne fun hpw => hw (hpw ▸ hp)
      rcases List.mem_append.mp hu with hu | hu
      · rw [hold u hu, ih _ he' u hu n hn]
        congr 2
        refine received_congr fun p hp => (hold p ?_).symm
        obtain ⟨l₁, l₂, rfl⟩ := List.append_of_mem hu
        have := h.before (l := l₁) (r := l₂ ++ w :: r) (by simpa using he') p hp
        exact List.mem_append_left _ this
      · obtain rfl := List.mem_singleton.mp hu
        rw [evaluateNode_self hn]
        congr 2
        exact received_congr fun p hp => (hold p (h.before he' p hp)).symm
  have hid := h.mem_order.mpr (Array.getElem?_eq_some_iff.mp hn).1
  have := key g.order.toList [] (by simp) id hid n hn
  rwa [Array.foldl_toList] at this

theorem exists_fate (h : g.Frozen) (staged : Staged α) {v : NodeId} (hv : v < g.nodes.size) :
    ∃ f, g.evaluate staged v = some f := by
  obtain ⟨n, hn⟩ := node_of_lt hv
  exact ⟨_, h.evaluate_eq staged hn⟩

/-- A node is cut off exactly if it has not received all of its inputs. -/
theorem fate_eq_cutOff {n : Node α} {v : NodeId} {xs : Option (List α)} :
    n.fate v xs = .cutOff ↔ xs = none := by
  cases xs with
  | none => simp [Node.fate]
  | some xs =>
    simp only [Node.fate, reduceCtorEq, iff_false]
    split
    · unfold Node.share
      split
      · simp
      · split <;> simp
    · simp

theorem received_none (h : g.Frozen) {v : NodeId} (hv : v < g.nodes.size) :
    g.received staged (g.evaluate staged) v = none ↔ g.evaluate staged v = some .cutOff := by
  obtain ⟨n, hn⟩ := node_of_lt hv
  rw [h.evaluate_eq staged hn, Option.some.injEq, fate_eq_cutOff]

/-! ### Ancestors -/

/-- A node that is not cut off has something from each of its predecessors. -/
theorem shared_of_predecessor (h : g.Frozen) {u v : NodeId} (hu : u ∈ g.predecessors v)
    (hv : g.evaluate staged v ≠ some .cutOff) :
    ∃ xs, g.evaluate staged u = some (.shared xs) := by
  have hr : g.received staged (g.evaluate staged) v ≠ none :=
    fun hr => hv ((h.received_none (lt_of_mem_predecessors hu)).mp hr)
  obtain ⟨ys, hys⟩ := Option.ne_none_iff_exists'.mp hr
  unfold received at hys
  split at hys
  · next hp => simp [hp] at hu
  · have hmem := List.mem_map_of_mem
      (f := fun p => (g.evaluate staged p).bind (·.branch? ((g.successors p).idxOf v))) hu
    rw [mapM_eq_some.mp hys] at hmem
    obtain ⟨y, -, hy⟩ := List.mem_map.mp hmem
    obtain ⟨f, hf, hb⟩ := Option.bind_eq_some_iff.mp hy.symm
    cases f with
    | shared xs => exact ⟨xs, hf⟩
    | output x => simp [Fate.branch?] at hb
    | failed e => simp [Fate.branch?] at hb
    | cutOff => simp [Fate.branch?] at hb

/-- **The ancestors of a node that is not cut off have shared their outputs.** -/
theorem shared_of_ancestor (h : g.Frozen) {u v : NodeId}
    (ha : Relation.TransGen (fun a b => b ∈ g.successors a) u v)
    (hv : g.evaluate staged v ≠ some .cutOff) :
    ∃ xs, g.evaluate staged u = some (.shared xs) := by
  induction ha using Relation.TransGen.head_induction_on with
  | single hs => exact h.shared_of_predecessor (h.linked.mem_predecessors.mpr hs) hv
  | head hs _ ih =>
    obtain ⟨xs, hxs⟩ := ih
    exact h.shared_of_predecessor (h.linked.mem_predecessors.mpr hs) (by simp [hxs])

/-! ### Failures and outputs -/

omit [Payload α] in
theorem mem_failures (h : g.Frozen) {v : Evaluation α} {e : ExecutionError} :
    e ∈ g.failures v ↔ ∃ id, id < g.nodes.size ∧ v id = some (.failed e) := by
  unfold failures
  rw [List.mem_filterMap]
  constructor
  · rintro ⟨id, hid, he⟩
    obtain ⟨f, hf, hfe⟩ := Option.bind_eq_some_iff.mp he
    refine ⟨id, h.mem_order.mp hid, ?_⟩
    cases f <;> simp_all [Fate.error?]
  · rintro ⟨id, hid, he⟩
    exact ⟨id, h.mem_order.mpr hid, by simp [he, Fate.error?]⟩

/-- Only a sink has an output. -/
theorem successors_of_output (h : g.Frozen) {v : NodeId} {x : α}
    (hx : g.evaluate staged v = some (.output x)) (hv : v < g.nodes.size) :
    g.successors v = [] := by
  obtain ⟨n, hn⟩ := node_of_lt hv
  have he := h.evaluate_eq staged hn
  rw [hx, Option.some.injEq] at he
  cases hr : g.received staged (g.evaluate staged) v with
  | none => simp [hr, Node.fate] at he
  | some xs =>
    rw [hr] at he
    rcases n.well_fate v xs with hw | ⟨e, hfail⟩
    · rw [← he] at hw
      rw [successors_of_node hn]
      exact List.length_eq_zero_iff.mp hw
    · simp [hfail] at he

/-- Where nobody fails, every node does well. -/
theorem fares_well (h : g.Frozen) (hf : g.failures (g.evaluate staged) = []) {v : NodeId}
    (hv : v < g.nodes.size) :
    ∃ f, g.evaluate staged v = some f ∧ f.Well (g.successors v).length := by
  refine h.forward_induction (P := fun v => ∃ f, g.evaluate staged v = some f ∧
    f.Well (g.successors v).length) (fun v hv ih => ?_) hv
  obtain ⟨n, hn⟩ := node_of_lt hv
  have he := h.evaluate_eq staged hn
  cases hr : g.received staged (g.evaluate staged) v with
  | none =>
    -- a predecessor that does well has something for each of its successors
    exfalso
    obtain ⟨u, hu, hb⟩ := received_eq_none hr
    obtain ⟨f, hfu, hw⟩ := ih u hu
    rw [hfu, Option.bind_some] at hb
    obtain ⟨x, hx⟩ := hw.branch (List.idxOf_lt_length_of_mem (h.linked.mem_predecessors.mp hu))
    simp [hx] at hb
  | some xs =>
    rw [hr] at he
    refine ⟨_, he, ?_⟩
    rw [successors_of_node hn]
    rcases n.well_fate v xs with hw | ⟨e, hfail⟩
    · exact hw
    · have : e ∈ g.failures (g.evaluate staged) := h.mem_failures.mpr ⟨v, hv, by rw [he, hfail]⟩
      simp [hf] at this

/-- Where nobody fails, the outputs are those of all sinks. -/
theorem map_outputs (h : g.Frozen) (hf : g.failures (g.evaluate staged) = []) :
    (g.outputs (g.evaluate staged)).map (·.1) = g.sinks := by
  unfold outputs
  rw [List.map_filterMap]
  have hall : ∀ v ∈ g.sinks, (Option.map (·.1) (((g.evaluate staged v).bind (·.output?)).map
      fun x => (v, x))) = some v := by
    intro v hv
    obtain ⟨hlt, hs⟩ := h.mem_sinks.mp hv
    obtain ⟨f, hfv, hw⟩ := h.fares_well hf hlt
    rw [hs] at hw
    obtain ⟨x, rfl⟩ := hw.output
    simp [hfv, Fate.output?]
  rw [List.filterMap_congr hall]
  exact List.filterMap_some

omit [Payload α] in
theorem mem_outputs {v : Evaluation α} {id : NodeId} {x : α} :
    (id, x) ∈ g.outputs v ↔ id ∈ g.sinks ∧ v id = some (.output x) := by
  unfold outputs
  rw [List.mem_filterMap]
  constructor
  · rintro ⟨i, hi, hx⟩
    obtain ⟨y, hy, hyx⟩ := Option.map_eq_some_iff.mp hx
    obtain ⟨rfl, rfl⟩ : i = id ∧ y = x := by simpa using hyx
    obtain ⟨f, hf, hfo⟩ := Option.bind_eq_some_iff.mp hy
    refine ⟨hi, ?_⟩
    cases f <;> simp_all [Fate.output?]
  · rintro ⟨hi, hx⟩
    exact ⟨id, hi, by simp [hx, Fate.output?]⟩

omit [Payload α] in
/-- The outputs are in ascending order of the sinks. -/
theorem pairwise_outputs (h : g.Frozen) (v : Evaluation α) :
    (g.outputs v).Pairwise fun a b => a.1 < b.1 := by
  have hs : g.sinks.Pairwise (· < ·) := by
    rw [h.sinks_eq]
    exact List.pairwise_lt_range.filter _
  refine hs.filterMap _ ?_
  intro a b hab x hx y hy
  obtain ⟨_, -, rfl⟩ := Option.map_eq_some_iff.mp hx
  obtain ⟨_, -, rfl⟩ := Option.map_eq_some_iff.mp hy
  exact hab

/-! ### Outcomes -/

omit [Payload α] in
/-- Outputs that were collected in any order come out as the evaluation lists them. -/
theorem ofOutputs_eq (h : g.Frozen) {v : Evaluation α} {run : ObjectId}
    {collected : List (NodeId × α)} (hn : (collected.map (·.1)).Nodup)
    (hm : ∀ id x, (id, x) ∈ collected ↔ (id, x) ∈ g.outputs v) :
    RunResult.ofOutputs run collected = ⟨run, g.outputs v⟩ := by
  have hp := h.pairwise_outputs v
  have hnd : (g.outputs v).Nodup := hp.imp fun hab he => by simp [he] at hab
  have hperm : (Sorting.sortOn (·.1) collected).Perm (g.outputs v) :=
    (Sorting.sortOn_perm _ collected).trans
      ((List.perm_ext_iff_of_nodup (List.Nodup.of_map _ hn) hnd).mpr fun ⟨id, x⟩ => hm id x)
  unfold RunResult.ofOutputs
  congr 1
  have hsorted := Sorting.pairwise_sortOn (fun y : NodeId × α => y.1) collected
  refine List.Perm.eq_of_pairwise ?_ hsorted (hp.imp Nat.le_of_lt) hperm
  intro a b ha hb hab hba
  -- no sink is listed twice, so the one key belongs to one pair
  have hkey : a.1 = b.1 := Nat.le_antisymm hab hba
  exact List.inj_on_of_nodup_map ((hperm.map _).nodup_iff.mpr (hp.map _ fun _ _ hlt =>
    Nat.ne_of_lt hlt) : ((Sorting.sortOn (·.1) collected).map (·.1)).Nodup) ha
    (hperm.mem_iff.mpr hb) hkey

end Frozen

/-- **What the evaluation of a run says of its outcome**: the outputs of all sinks if no
node fails, and otherwise the error of one of the nodes that fail. -/
def Prescribed (g : Graph α) (staged : Staged α) (run : ObjectId) (outcome : RunOutcome α) :
    Prop :=
  (g.failures (g.evaluate staged) = [] ∧
      outcome = .ok ⟨run, g.outputs (g.evaluate staged)⟩) ∨
    ∃ e ∈ g.failures (g.evaluate staged), outcome = .error (.execution e)

end Graph

/-- **The result that the evaluation of a run leads to**: it carries the number of the run,
and lists every sink once, in ascending order, with its output. -/
structure RunResult.Matches [Payload α] (result : RunResult α) (g : Graph α)
    (staged : Staged α) (run : ObjectId) : Prop where
  objectId_eq : result.objectId = run
  ascending : (result.outputs.map (·.1)).Pairwise (· < ·)
  mem_iff : ∀ {v}, v ∈ result.outputs.map (·.1) ↔ v < g.nodes.size ∧ g.successors v = []
  value : ∀ {v x}, (v, x) ∈ result.outputs → g.evaluate staged v = some (.output x)

namespace Graph

variable [Payload α] {g : Graph α} {staged : Staged α}

/-- **The outcome answers a run**: it is its result if no node fails, and otherwise the
error of a node that fails while all of its ancestors succeed. -/
structure Answers (g : Graph α) (staged : Staged α) (run : ObjectId) (outcome : RunOutcome α) :
    Prop where
  success : g.failures (g.evaluate staged) = [] →
    ∃ result, outcome = .ok result ∧ result.Matches g staged run
  failure : g.failures (g.evaluate staged) ≠ [] → ∃ v e, outcome = .error (.execution e) ∧
    v < g.nodes.size ∧ g.evaluate staged v = some (.failed e) ∧
    ∀ u, Relation.TransGen (fun a b => b ∈ g.successors a) u v →
      ∃ xs, g.evaluate staged u = some (.shared xs)
  /-- If one node fails, it is its error. -/
  lone : ∀ {v e}, v < g.nodes.size → g.evaluate staged v = some (.failed e) →
    (∀ u, u < g.nodes.size → u ≠ v → ∀ e', g.evaluate staged u ≠ some (.failed e')) →
    outcome = .error (.execution e)

namespace Frozen

theorem matches_outputs (h : g.Frozen) (hf : g.failures (g.evaluate staged) = [])
    (run : ObjectId) :
    (⟨run, g.outputs (g.evaluate staged)⟩ : RunResult α).Matches g staged run where
  objectId_eq := rfl
  ascending := List.pairwise_map.mpr (h.pairwise_outputs _)
  mem_iff := by
    intro v
    show v ∈ (g.outputs (g.evaluate staged)).map (·.1) ↔ _
    rw [h.map_outputs hf]
    exact h.mem_sinks
  value := fun hx => (mem_outputs.mp hx).2

/-- **What the evaluation prescribes answers the run.** -/
theorem answers (h : g.Frozen) {run : ObjectId} {outcome : RunOutcome α}
    (hp : g.Prescribed staged run outcome) : g.Answers staged run outcome where
  success := by
    intro hf
    rcases hp with ⟨-, rfl⟩ | ⟨e, he, -⟩
    · exact ⟨_, rfl, h.matches_outputs hf run⟩
    · simp [hf] at he
  failure := by
    intro hf
    rcases hp with ⟨hf', -⟩ | ⟨e, he, rfl⟩
    · exact absurd hf' hf
    · obtain ⟨v, hv, hev⟩ := h.mem_failures.mp he
      exact ⟨v, e, rfl, hv, hev, fun u hu => h.shared_of_ancestor hu (by simp [hev])⟩
  lone := by
    intro v e hv hev hlone
    rcases hp with ⟨hf, -⟩ | ⟨e', he', rfl⟩
    · have := h.mem_failures.mpr ⟨v, hv, hev⟩
      simp [hf] at this
    · obtain ⟨u, hu, heu⟩ := h.mem_failures.mp he'
      obtain rfl : u = v := by
        by_contra huv
        exact hlone u hu huv e' heu
      obtain rfl : e' = e := by simpa [heu] using hev
      rfl

end Frozen

end Graph

end Dataflow
