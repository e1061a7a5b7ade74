import Dataflow.Engine.Execution
import Dataflow.Proofs.Graph.Channels
import Dataflow.Proofs.Graph.Evaluated

/-!
# What executions take and leave

An execution knows nothing of the evaluation of its run. What it takes out of its inlets
nevertheless is what the evaluation has the node receive, as long as every entry fits,
`Graph.Fits`: data is what the predecessor shares, and a mark lies only where the run is
known to have failed. What the execution leaves behind fits again, `Firing.Fits`,
whether the callback was called or skipped. So the agreement passes from node to node.
-/

namespace Dataflow

variable {α : Type}

/-- What is claimed from the channels in turn, if each gives an entry that fits. -/
inductive Claimed (fits : Channel → Entry α → Prop) : List Channel → List (Entry α) → Prop
  | nil : Claimed fits [] []
  | snoc {cs : List Channel} {taken : List (Entry α)} {c : Channel} {e : Entry α}
      (h : Claimed fits cs taken) (he : fits c e) :
      Claimed fits (cs ++ [c]) (taken ++ c.inputs e)

namespace Claimed

variable {fits fits' : Channel → Entry α → Prop} {cs : List Channel} {taken : List (Entry α)}

theorem mono (hf : ∀ c e, fits c e → fits' c e) (h : Claimed fits cs taken) :
    Claimed fits' cs taken := by
  induction h with
  | nil => exact .nil
  | snoc _ he ih => exact ih.snoc (hf _ _ he)

/-- A mark among the inputs comes from an edge. -/
theorem exists_mark (h : Claimed fits cs taken) (hm : none ∈ taken) :
    ∃ u v, fits (.edge u v) none := by
  induction h with
  | nil => simp at hm
  | @snoc cs taken c e _ he ih =>
    rcases List.mem_append.mp hm with hm | hm
    · exact ih hm
    · cases c with
      | staging v => cases e <;> simp [Channel.inputs] at hm
      | edge u v =>
        obtain rfl : none = e := by simpa [Channel.inputs] using hm
        exact ⟨u, v, he⟩

theorem of_snoc {c : Channel} (h : Claimed fits (cs ++ [c]) taken) :
    ∃ t e, Claimed fits cs t ∧ fits c e ∧ taken = t ++ c.inputs e := by
  generalize hcs : cs ++ [c] = cs' at h
  cases h with
  | nil => simp at hcs
  | snoc h he =>
    obtain ⟨rfl, hc⟩ := List.append_inj' hcs rfl
    obtain rfl : c = _ := by simpa using hc
    exact ⟨_, _, h, he, rfl⟩

/-- From no channel, nothing is claimed. -/
theorem eq_nil (h : Claimed fits [] taken) : taken = [] := by
  generalize hcs : ([] : List Channel) = cs at h
  cases h with
  | nil => rfl
  | snoc _ _ => simp at hcs

/-- A source claims what is staged for it. -/
theorem of_staging {v : NodeId} (h : Claimed fits [.staging v] taken) :
    ∃ e, fits (.staging v) e ∧ taken = e.toList.map some := by
  obtain ⟨t, e, ht, he, rfl⟩ := of_snoc (show Claimed fits ([] ++ [.staging v]) taken from h)
  refine ⟨e, he, ?_⟩
  rw [ht.eq_nil]
  cases e <;> rfl

/-- If only data is claimed from the edges, it is what they carry. -/
theorem of_edges {f : NodeId → Option α} {v : NodeId} {us : List NodeId} {xs : List α}
    (hf : ∀ u x, fits (.edge u v) (some x) → f u = some x)
    (h : Claimed fits (us.map (.edge · v)) (xs.map some)) : us.map f = xs.map some := by
  -- inputs are claimed one after the other, so the induction takes off the last one
  induction us using List.reverseRecOn generalizing xs with
  | nil =>
    rw [h.eq_nil]
    rfl
  | append_singleton us u ih =>
    rw [List.map_append, List.map_singleton] at h
    obtain ⟨t, e, ht, he, hxs⟩ := h.of_snoc
    obtain ⟨ys, zs, rfl, rfl, hz⟩ := List.map_eq_append_iff.mp hxs
    -- an edge gives one entry, data or mark, and never none
    cases zs with
    | nil => simp [Channel.inputs] at hz
    | cons z zs =>
      obtain ⟨rfl, rfl⟩ : some z = e ∧ zs = [] := by simpa [Channel.inputs] using hz
      rw [List.map_append, List.map_append, ih ht, List.map_singleton, hf u z he]
      rfl

end Claimed

theorem gather_eq_some {inputs : List (Entry α)} {poisoned : Bool} {xs : List α} :
    gather inputs poisoned = some xs ↔ poisoned = false ∧ inputs = xs.map some := by
  unfold gather
  split
  · next h => simp [h]
  · next h =>
    rw [mapM_eq_some, List.map_id]
    simp [h]

theorem gather_eq_none {inputs : List (Entry α)} {poisoned : Bool}
    (h : gather inputs poisoned = none) : poisoned = true ∨ none ∈ inputs := by
  by_contra hno
  obtain ⟨hp, hm⟩ := not_or.mp hno
  obtain ⟨xs, hxs⟩ := exists_map_some (f := id) (l := inputs) fun x hx =>
    Option.ne_none_iff_exists'.mp fun hn => hm (hn ▸ hx)
  rw [List.map_id] at hxs
  rw [gather_eq_some.mpr ⟨by simpa using hp, hxs⟩] at h
  simp at h

namespace Graph

variable [Payload α] {g : Graph α} {staged : Staged α} {failed : Bool}

/-- **An entry of a run fits** if it is what the evaluation of the run puts there, or a
mark in a run that is known to have failed. -/
def Fits (g : Graph α) (staged : Staged α) (failed : Bool) : Channel → Entry α → Prop
  | .staging v, e => e = (staged.entry? v).join
  | .edge u v, some x =>
    (g.evaluate staged u).bind (·.branch? ((g.successors u).idxOf v)) = some x
  | .edge _ _, none => failed = true

theorem Fits.mono {failed' : Bool} (hf : failed = true → failed' = true) {c : Channel}
    {e : Entry α} (h : g.Fits staged failed c e) : g.Fits staged failed' c e := by
  cases c with
  | staging v => exact h
  | edge u v =>
    cases e with
    | none => exact hf h
    | some x => exact h

/-- **The inputs with which a callback is called are those of the evaluation.** -/
theorem received_of_gather {v : NodeId} {taken : List (Entry α)} {poisoned : Bool} {xs : List α}
    (h : Claimed (g.Fits staged failed) (g.inlets v) taken)
    (hx : gather taken poisoned = some xs) :
    g.received staged (g.evaluate staged) v = some xs := by
  obtain ⟨-, rfl⟩ := gather_eq_some.mp hx
  unfold inlets at h
  unfold received
  cases hp : g.predecessors v with
  | nil =>
    simp only [hp] at h ⊢
    obtain ⟨e, he, ht⟩ := h.of_staging
    have : xs = e.toList := List.map_injective_iff.mpr (Option.some_injective α) ht
    rw [this, show e = (staged.entry? v).join from he]
  | cons u us =>
    simp only [hp] at h ⊢
    exact mapM_eq_some.mpr (h.of_edges fun p x hpx => hpx)

/-- An execution is skipped only if its run is known to have failed. -/
theorem failed_of_gather {v : NodeId} {taken : List (Entry α)}
    (h : Claimed (g.Fits staged failed) (g.inlets v) taken)
    (hx : gather taken failed = none) : failed = true := by
  rcases gather_eq_none hx with hf | hm
  · exact hf
  · obtain ⟨u, w, hfit⟩ := h.exists_mark hm
    exact hfit

end Graph

/-! ### What is left behind -/

variable [Payload α]

namespace Node

omit [Payload α] in
theorem isSink_iff (n : Node α) : n.isSink = true ↔ n.successors = [] :=
  List.isEmpty_iff

/-- A skipped execution leaves marks behind. -/
theorem conclude_none (n : Node α) (id : NodeId) : n.conclude id none = ⟨none, none, n.marks⟩ := by
  by_cases hs : n.isSink = true
  · simp [conclude, hs, marks, n.isSink_iff.mp hs]
  · simp [conclude, hs, fanOut]

/-- So does one that fails, beside its error. -/
theorem conclude_error (n : Node α) (id : NodeId) (e : ExecutionError) :
    n.conclude id (some (.error e)) = ⟨none, some e, n.marks⟩ := by
  by_cases hs : n.isSink = true
  · simp [conclude, hs, marks, n.isSink_iff.mp hs]
  · simp [conclude, hs, fanOut]

end Node

/-- **What an execution leaves behind fits** if its output and its error are those of the
evaluation, and so are the entries for the successors. -/
structure Firing.Fits (g : Graph α) (staged : Staged α) (failed : Bool) (v : NodeId)
    (f : Firing α) : Prop where
  output : ∀ {x}, f.output = some x → g.evaluate staged v = some (.output x)
  error : ∀ {e}, f.error = some e → g.evaluate staged v = some (.failed e)
  length : f.outgoing.length = (g.successors v).length
  delivery : ∀ {i : Nat} {w : NodeId} {e : Entry α}, (g.successors v)[i]? = some w →
    f.outgoing[i]? = some e → g.Fits staged (failed || f.error.isSome) (.edge v w) e
  well : failed = false → f.error = none → ∃ fate, g.evaluate staged v = some fate ∧
    fate.Well (g.successors v).length ∧ f.output = fate.output?

namespace Firing.Fits

variable {g : Graph α} {staged : Staged α} {failed : Bool} {v : NodeId} {n : Node α}

/-- Nothing but marks may be left behind by a run that has failed, or by a node that
fails. -/
theorem of_marks (hn : g.nodes[v]? = some n) {error : Option ExecutionError}
    (he : ∀ {e}, error = some e → g.evaluate staged v = some (.failed e))
    (hf : failed = true ∨ error.isSome = true) :
    Firing.Fits g staged failed v ⟨none, error, n.marks⟩ := by
  have hb : (failed || error.isSome) = true := by simpa using hf
  constructor
  · simp
  · exact he
  · rw [Graph.successors_of_node hn]
    exact List.length_replicate
  · intro i w e hw hi
    obtain ⟨-, rfl⟩ : i < n.successors.length ∧ none = e := by
      simpa [Node.marks, List.getElem?_replicate] using hi
    exact hb
  · intro h1 h2
    obtain rfl : error = none := h2
    simp [h1] at hf

theorem of_skipped (hn : g.nodes[v]? = some n) (hf : failed = true) :
    Firing.Fits g staged failed v (n.conclude v none) := by
  rw [n.conclude_none]
  exact of_marks hn (by simp) (Or.inl hf)

/-- A sink leaves its output behind. -/
theorem of_output (hn : g.nodes[v]? = some n) (hnil : n.successors = []) {x : α}
    (he : g.evaluate staged v = some (.output x)) :
    Firing.Fits g staged failed v ⟨some x, none, []⟩ := by
  have hsucc := Graph.successors_of_node hn
  rw [hnil] at hsucc
  constructor
  · rintro _ ⟨⟩
    exact he
  · simp
  · simp [hsucc]
  · intro i w e hw
    simp [hsucc] at hw
  · intro _ _
    exact ⟨_, he, by simp [Fate.Well, hsucc], rfl⟩

/-- A node that has shared its output leaves a part of it for each successor. -/
theorem of_shared (hg : g.Frozen) (hn : g.nodes[v]? = some n) (hpos : 0 < n.successors.length)
    {xs : List α} (hlen : xs.length = n.successors.length)
    (he : g.evaluate staged v = some (.shared xs)) :
    Firing.Fits g staged failed v ⟨none, none, xs.map some⟩ := by
  have hsucc := Graph.successors_of_node hn
  constructor
  · simp
  · simp
  · rw [List.length_map, hlen, hsucc]
  · intro i w e hw hi
    -- the part of a successor is found at its position among the successors
    have hlt := (List.getElem?_eq_some_iff.mp hw).1
    have hidx : (g.successors v).idxOf w = i := by
      rw [← (List.getElem?_eq_some_iff.mp hw).2]
      exact (hg.linked.nodup_successors v).idxOf_getElem i hlt
    rw [List.getElem?_map] at hi
    obtain ⟨y, hy, rfl⟩ := Option.map_eq_some_iff.mp hi
    simp [Graph.Fits, he, Fate.branch?, hidx, hy]
  · intro _ _
    exact ⟨_, he, ⟨by rw [hsucc]; exact hpos, by rw [hsucc]; exact hlen⟩, rfl⟩

/-- The fate of a node is what its execution leaves behind. -/
theorem of_fate (hg : g.Frozen) (hn : g.nodes[v]? = some n) {xs : List α}
    (hx : g.received staged (g.evaluate staged) v = some xs) :
    Firing.Fits g staged failed v (n.conclude v (some (n.invoke v xs))) := by
  have he := hg.evaluate_eq staged hn
  rw [hx] at he
  unfold Node.fate at he
  cases hi : n.invoke v xs with
  | error e =>
    simp only [hi] at he
    rw [n.conclude_error]
    exact of_marks hn (by rintro _ ⟨⟩; exact he) (Or.inr rfl)
  | ok x =>
    simp only [hi, Node.share] at he
    unfold Node.conclude
    by_cases hs : n.isSink = true
    · simp only [hs, if_true] at he ⊢
      exact of_output hn (List.isEmpty_iff.mp hs) he
    · simp only [hs, Bool.false_eq_true, if_false, Node.fanOut] at he ⊢
      have hpos : 0 < n.successors.length :=
        List.length_pos_iff.mpr fun hnil => hs (List.isEmpty_iff.mpr hnil)
      rcases hc : Payload.copies (n.successors.length - 1) x with ⟨e | ys, x'⟩
      · simp only [hc] at he ⊢
        exact of_marks hn (by rintro _ ⟨⟩; exact he) (Or.inr rfl)
      · simp only [hc] at he ⊢
        have hlen : (x' :: ys).length = n.successors.length := by
          have := Payload.length_of_copies hc
          rw [List.length_cons]
          omega
        exact of_shared hg hn hpos hlen he

end Firing.Fits

end Dataflow
