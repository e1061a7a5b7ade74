import Mathlib
import Dataflow.Proofs.Engine.Flow

/-!
# What is due to a channel

The evaluation of a run says what has to lie in each channel once it is filled, `Graph.due`:
what was staged for a source, and on an edge what the source of the edge hands to its target,
or a mark if that is nothing. A node that takes the entries that are due computes what the
evaluation has it compute, and leaves behind exactly what is due to its outlets,
`Graph.Frozen.fire_dues`. So a mark spreads from a node that fails to all that depend on it,
and to no other: a node gets a mark exactly if some ancestor has failed,
`Graph.Frozen.cutOff_iff`.
-/

namespace Dataflow

variable {α : Type} [Payload α]

namespace Fate

variable {f : Fate α}

/-- What a caller gets who executes a node that fares like this. -/
def answer : Fate α → Except Error (Option α)
  | output x => .ok (some x)
  | failed e => .error (.execution e)
  | shared _ | cutOff => .ok none

omit [Payload α] in
theorem answer_eq_error {e : Error} :
    f.answer = .error e ↔ ∃ e', f = .failed e' ∧ e = .execution e' := by
  constructor
  · intro h
    cases f with
    | failed e' => exact ⟨e', rfl, (Except.error.inj h).symm⟩
    | _ => cases h
  · rintro ⟨e', rfl, rfl⟩
    rfl

omit [Payload α] in
theorem answer_eq_some {x : α} : f.answer = .ok (some x) ↔ f = .output x := by
  constructor
  · intro h
    cases f with
    | output y => exact congrArg output (Option.some.inj (Except.ok.inj h))
    | _ => cases h
  · rintro rfl
    rfl

omit [Payload α] in
/-- Nothing but the output of a sink and an error is handed to a caller. -/
theorem branches_of_short {arity : Nat} (h : ∀ k, f.branch? k = none) :
    List.replicate arity none = (List.range arity).map f.branch? := by
  refine (List.eq_replicate_iff.mpr ⟨by rw [List.length_map, List.length_range], ?_⟩).symm
  intro e he
  obtain ⟨k, -, rfl⟩ := List.mem_map.mp he
  exact h k

end Fate

/-! ### One node -/

namespace Node

variable (n : Node α) (v : NodeId)

/-- A node leaves behind what its fate says: its output or its error, and one entry for each
successor. -/
theorem conclude_eq (xs : Option (List α)) :
    n.conclude v (xs.map (n.invoke v)) = ⟨(n.fate v xs).output?, (n.fate v xs).error?,
      (List.range n.successors.length).map (n.fate v xs).branch?⟩ := by
  have hmarks : ∀ f : Fate α, (∀ k, f.branch? k = none) →
      n.marks = (List.range n.successors.length).map f.branch? :=
    fun f hf => Fate.branches_of_short hf
  cases xs with
  | none =>
    rw [Option.map_none, conclude_none, hmarks .cutOff fun _ => rfl]
    rfl
  | some xs =>
    rw [Option.map_some, fate]
    cases n.invoke v xs with
    | error e =>
      rw [conclude_error, hmarks (.failed e) fun _ => rfl]
      rfl
    | ok x =>
      simp only [share, conclude, fanOut]
      by_cases hs : n.isSink = true
      · rw [if_pos hs, if_pos hs, n.isSink_iff.mp hs]
        rfl
      · rw [if_neg hs, if_neg hs]
        have hpos : 0 < n.successors.length :=
          List.length_pos_iff.mpr fun hnil => hs (List.isEmpty_iff.mpr hnil)
        rcases hc : Payload.copies (n.successors.length - 1) x with ⟨e | ys, x'⟩
        · rw [hmarks (.failed (.copyFailed v e.report)) fun _ => rfl]
          rfl
        · have hlen : (x' :: ys).length = n.successors.length := by
            have := Payload.length_of_copies hc
            rw [List.length_cons]
            omega
          have houtgoing : (x' :: ys).map some =
              (List.range n.successors.length).map (Fate.shared (x' :: ys)).branch? := by
            refine List.ext_getElem (by simpa using hlen) fun k hk _ => ?_
            rw [List.length_map] at hk
            simp only [List.getElem_map, List.getElem_range, Fate.branch?,
              List.getElem?_eq_getElem hk]
          show _ = Firing.mk none none _
          rw [← houtgoing]
          rfl

end Node

/-! ### All nodes -/

namespace Graph

variable {g : Graph α} {staged : Staged α} {v : NodeId} {n : Node α} {f : Fate α}

/-- **What has to lie in a channel** once it is filled. -/
def due (g : Graph α) (staged : Staged α) : Channel → Entry α
  | .staging v => (staged.entry? v).join
  | .edge u v => (g.evaluate staged u).bind (·.branch? ((g.successors u).idxOf v))

/-- The inputs that are due to a node. -/
def dues (g : Graph α) (staged : Staged α) (v : NodeId) : List (Entry α) :=
  (g.inlets v).flatMap fun c => c.inputs (g.due staged c)

/-- A node that takes what is due to it receives what the evaluation says. -/
theorem gather_dues (g : Graph α) (staged : Staged α) (v : NodeId) :
    gather (g.dues staged v) false = g.received staged (g.evaluate staged) v := by
  rw [dues, received, gather, if_neg Bool.false_ne_true]
  cases hp : g.predecessors v with
  | nil =>
    rw [inlets_of_nil hp, List.flatMap_singleton]
    show List.mapM id (Channel.inputs _ (staged.entry? v).join) = _
    cases (staged.entry? v).join <;> rfl
  | cons u us =>
    rw [inlets_of_ne_nil (hp ▸ List.cons_ne_nil u us), hp, List.flatMap_map]
    refine Option.ext fun xs => ?_
    rw [mapM_eq_some, mapM_eq_some, List.map_id]
    exact iff_of_eq (congrArg (· = xs.map some) List.map_eq_flatMap.symm)

namespace Frozen

/-- What a node shares is what is due to its outlets. -/
theorem zip_outlets (h : g.Frozen) (hf : g.evaluate staged v = some f) :
    (g.outlets v).zip ((List.range (g.successors v).length).map f.branch?) =
      (g.outlets v).map fun c => (c, g.due staged c) := by
  refine List.ext_getElem (by simp [outlets]) fun k hk hk' => ?_
  have hk : k < (g.successors v).length := by simpa [outlets] using hk
  have hidx := (h.linked.nodup_successors v).idxOf_getElem k hk
  simp [outlets, due, hf, hidx]

/-- **Executing a node on what is due to it** comes to its fate. -/
theorem fire_dues (h : g.Frozen) (hn : g.nodes[v]? = some n) (hf : g.evaluate staged v = some f) :
    n.fire v (g.dues staged v) false =
      ⟨f.output?, f.error?, (List.range (g.successors v).length).map f.branch?⟩ := by
  have hfate := h.evaluate_eq staged hn
  rw [hf, Option.some.injEq] at hfate
  rw [Node.fire, gather_dues, n.conclude_eq, ← hfate, successors_of_node hn]

/-- A node that shares has successors, and something for each of them. -/
theorem well_of_shared (h : g.Frozen) (hv : v < g.nodes.size) {xs : List α}
    (hf : g.evaluate staged v = some (.shared xs)) :
    (Fate.shared xs).Well (g.successors v).length := by
  obtain ⟨n, hn⟩ := node_of_lt hv
  have hfate := h.evaluate_eq staged hn
  rw [hf, Option.some.injEq] at hfate
  rw [successors_of_node hn]
  cases hr : g.received staged (g.evaluate staged) v with
  | none => rw [hr] at hfate; cases hfate
  | some ys =>
    rw [hr] at hfate
    rcases n.well_fate v ys with hw | ⟨e, he⟩
    · exact hfate ▸ hw
    · cases hfate.trans he

/-- A node is cut off exactly if some ancestor has failed. -/
theorem cutOff_iff (h : g.Frozen) (hv : v < g.nodes.size) :
    g.evaluate staged v = some .cutOff ↔ ∃ u e,
      Relation.TransGen (fun a b => b ∈ g.successors a) u v ∧
        g.evaluate staged u = some (.failed e) := by
  constructor
  · refine h.forward_induction (P := fun v => g.evaluate staged v = some .cutOff → ∃ u e,
      Relation.TransGen (fun a b => b ∈ g.successors a) u v ∧
        g.evaluate staged u = some (.failed e)) (fun v hv ih hcut => ?_) hv
    obtain ⟨u, hu, hnone⟩ := received_eq_none ((h.received_none hv).mpr hcut)
    have hedge := h.linked.mem_predecessors.mp hu
    have hlt := lt_of_mem_successors hedge
    obtain ⟨f, hf⟩ := h.exists_fate staged hlt
    rw [hf, Option.bind_some] at hnone
    cases f with
    | failed e => exact ⟨u, e, .single hedge, hf⟩
    | cutOff =>
      obtain ⟨w, e, hw, he⟩ := ih u hu hf
      exact ⟨w, e, hw.tail hedge, he⟩
    | output x =>
      rw [h.successors_of_output hf hlt] at hedge
      cases hedge
    | shared xs =>
      have hlt' := List.idxOf_lt_length_of_mem hedge
      rw [← (h.well_of_shared hlt hf).2] at hlt'
      rw [Fate.branch?, List.getElem?_eq_getElem hlt'] at hnone
      cases hnone
  · rintro ⟨u, e, hu, he⟩
    by_contra hcut
    obtain ⟨xs, hxs⟩ := h.shared_of_ancestor hu hcut
    cases he.symm.trans hxs

end Frozen

end Graph

end Dataflow
