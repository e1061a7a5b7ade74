import Mathlib
import Dataflow.Proofs.Graph.Acyclic

/-!
# Which edges are accepted

An edge is accepted exactly if the graph remains a simple one without cycles,
`Graph.precede_keeps_simple`. There are five objections to an edge, and the first one that
applies is the answer, `Graph.edgeErrors`.

One of them takes a search. A node is put on the stack once for every edge that leads to it
from a node that is searched, and the successors of a node are put there only once, when the
node is marked. Hence the search looks at the stack at most once for each edge, and once for
the node it starts from, `Graph.exists_searched`. The order in which the successors of a node
are put on the stack does not matter.
-/

namespace Dataflow

/-- **The first objection counts**: a call against which there may be objections, each with
the error that it causes, answers with the error of the first one that applies, and with `x`
if there is none. -/
inductive FirstError {ε β : Type} (x : β) : List (Prop × ε) → Except ε β → Prop where
  | accepted : FirstError x [] (.ok x)
  | rejected {p : Prop} {e : ε} {rest : List (Prop × ε)} (h : p) :
      FirstError x ((p, e) :: rest) (.error e)
  | next {p : Prop} {e : ε} {rest : List (Prop × ε)} {answer : Except ε β} (h : ¬ p)
      (hrest : FirstError x rest answer) : FirstError x ((p, e) :: rest) answer

/-- A call is successful if there is no objection at all. -/
theorem FirstError.ok_iff {ε β : Type} {x : β} {objections : List (Prop × ε)}
    {answer : Except ε β} (h : FirstError x objections answer) :
    answer = .ok x ↔ ∀ o ∈ objections, ¬ o.1 := by
  induction h with
  | accepted => simp
  | rejected h => exact iff_of_false (by simp) fun hno => hno _ (List.mem_cons_self ..) h
  | next h _ ih => rw [ih, List.forall_mem_cons, and_iff_right h]

namespace Graph

variable {α : Type} {g : Graph α}

/-- Every graph that calls can lead to is acyclic. -/
theorem Built.acyclic (h : g.Built) : g.Acyclic := by
  induction h with
  | empty => exact acyclic_empty
  | @add g _ name work ih =>
    refine ih.of_successors fun u => ?_
    unfold Graph.add
    split
    · rfl
    split
    · rfl
    split
    · rfl
    exact successorsAt_push g.nodes name work u
  | @precede g _ source target ih =>
    rcases g.precede_cases source target with ⟨e, he⟩ | ⟨-, hs, -, hno, -, he⟩
    · rwa [he]
    · rw [he]
      exact ih.link hs hno
  | freeze _ depth ih =>
    exact ih.of_successors fun u => by rw [successors, successors, nodes_freeze]
  | thaw _ ih => exact ih.of_successors fun _ => rfl
  | use _ _ ih => exact ih.of_successors fun _ => rfl

/-! ### How long the search takes -/

/-- **A search**, with the number of nodes that are taken off the stack and what comes of it.
`push` says in which order the successors of a node are put on the stack. A node that does not
exist cannot be looked at. -/
inductive Searched (push : NodeId → List NodeId) (target : NodeId) :
    Array Bool → List NodeId → Nat → Bool → Prop where
  | exhausted {marked : Array Bool} : Searched push target marked [] 0 false
  | found {marked : Array Bool} {stack : List NodeId} :
      Searched push target marked (target :: stack) 1 true
  | again {marked : Array Bool} {id : NodeId} {stack : List NodeId} {n : Nat} {answer : Bool}
      (hne : id ≠ target) (hm : marked[id]? = some true)
      (h : Searched push target marked stack n answer) :
      Searched push target marked (id :: stack) (n + 1) answer
  | fresh {marked : Array Bool} {id : NodeId} {stack : List NodeId} {n : Nat} {answer : Bool}
      (hne : id ≠ target) (hm : marked[id]? = some false)
      (h : Searched push target (marked.setIfInBounds id true) (push id ++ stack) n answer) :
      Searched push target marked (id :: stack) (n + 1) answer

/-- The number of edges. -/
def edgeCount (g : Graph α) : Nat :=
  ∑ u ∈ Finset.range g.nodes.size, (g.successors u).length

/-- The number of edges that leave nodes without a mark. -/
def unsearched (g : Graph α) (marked : Array Bool) : Nat :=
  ∑ u ∈ (Finset.range g.nodes.size).filter fun u => marked[u]? = some false,
    (g.successors u).length

theorem unsearched_le (g : Graph α) (marked : Array Bool) : g.unsearched marked ≤ g.edgeCount :=
  Finset.sum_le_sum_of_subset (Finset.filter_subset ..)

/-- A mark takes the edges that leave the node. -/
theorem unsearched_mark {marked : Array Bool} {id : NodeId} (hlt : id < g.nodes.size)
    (hm : marked[id]? = some false) :
    (g.successors id).length + g.unsearched (marked.setIfInBounds id true) =
      g.unsearched marked := by
  unfold unsearched
  have herase : ((Finset.range g.nodes.size).filter fun u =>
      (marked.setIfInBounds id true)[u]? = some false) =
        ((Finset.range g.nodes.size).filter fun u => marked[u]? = some false).erase id := by
    ext u
    simp only [Finset.mem_erase, Finset.mem_filter, Array.getElem?_setIfInBounds]
    by_cases hu : id = u
    · subst hu
      have hsize : id < marked.size := (Array.getElem?_eq_some_iff.mp hm).1
      simp [hsize]
    · simp [hu, Ne.symm hu]
  rw [herase]
  exact Finset.add_sum_erase _ (fun u => (g.successors u).length)
    (Finset.mem_filter.mpr ⟨Finset.mem_range.mpr hlt, hm⟩)

/-- **The search ends**, and finds the target if there is a way to it through nodes without a
mark. -/
theorem Linked.exists_searched (hg : g.Linked) {push : NodeId → List NodeId}
    (hpush : ∀ u, (push u).Perm (g.successors u)) (target : NodeId) (marked : Array Bool)
    (stack : List NodeId) (hsize : marked.size = g.nodes.size)
    (hstack : ∀ s ∈ stack, s < g.nodes.size) :
    ∃ n ≤ g.unsearched marked + stack.length, ∃ answer,
      Searched push target marked stack n answer ∧
        (answer = true ↔ ∃ s ∈ stack, g.Open target marked s) := by
  induction hw : g.unsearched marked + stack.length using Nat.strong_induction_on
    generalizing marked stack with
  | _ w ih =>
  subst hw
  cases stack with
  | nil => exact ⟨0, Nat.zero_le _, false, .exhausted, by simp⟩
  | cons id stack =>
    by_cases hne : id = target
    · subst hne
      refine ⟨1, ?_, true, .found, iff_of_true rfl ⟨id, List.mem_cons_self .., .here⟩⟩
      exact Nat.le_add_left_of_le (Nat.succ_pos _)
    have hlt : id < g.nodes.size := hstack id (List.mem_cons_self ..)
    have hstack' : ∀ s ∈ stack, s < g.nodes.size := fun s hs => hstack s (List.mem_cons_of_mem _ hs)
    cases hm : marked[id]? with
    | none => exact absurd (hsize ▸ hlt) (Nat.not_lt.mpr (Array.getElem?_eq_none_iff.mp hm))
    | some mark =>
      cases mark with
      | true =>
        obtain ⟨n, hn, answer, hsearched, hiff⟩ := ih _ (by simp) _ _ hsize hstack' rfl
        refine ⟨n + 1, Nat.succ_le_succ hn, answer, .again hne hm hsearched, ?_⟩
        have hno : ¬ g.Open target marked id := not_open hne (by simp [hm])
        simp [hiff, hno]
      | false =>
        have hmark := unsearched_mark (g := g) hlt hm
        have hlength : (push id ++ stack).length = (g.successors id).length + stack.length := by
          rw [List.length_append, (hpush id).length_eq]
        obtain ⟨n, hn, answer, hsearched, hiff⟩ := ih
          (g.unsearched (marked.setIfInBounds id true) + (push id ++ stack).length)
          (by rw [hlength, List.length_cons]; omega) _ _
          (by rw [Array.size_setIfInBounds, hsize])
          (fun s hs => by
            rcases List.mem_append.mp hs with hs | hs
            · exact hg.target_lt ((hpush id).mem_iff.mp hs)
            · exact hstack' s hs) rfl
        refine ⟨n + 1, ?_, answer, .fresh hne hm hsearched, ?_⟩
        · rw [hlength] at hn
          rw [List.length_cons]
          omega
        · exact hiff.trans (exists_open_cons hne hm fun v => (hpush id).mem_iff)

/-- The search for a way between two nodes takes no more looks than there are edges, and
one. -/
theorem Linked.reaches_searched (hg : g.Linked) {push : NodeId → List NodeId}
    (hpush : ∀ u, (push u).Perm (g.successors u)) {start : NodeId}
    (hstart : start < g.nodes.size) (target : NodeId) :
    ∃ n ≤ g.edgeCount + 1,
      Searched push target (Array.replicate g.nodes.size false) [start] n
        (g.reaches start target) := by
  obtain ⟨n, hn, answer, hsearched, hiff⟩ := hg.exists_searched hpush target
    (Array.replicate g.nodes.size false) [start] Array.size_replicate
    fun s hs => List.mem_singleton.mp hs ▸ hstart
  have hanswer : answer = g.reaches start target := by
    rw [Bool.eq_iff_iff, hiff, reaches_eq_search, search_iff]
  exact ⟨n, hn.trans (Nat.add_le_add_right (unsearched_le ..) 1), hanswer ▸ hsearched⟩

/-! ### What is accepted -/

/-- **The objections to an edge**, in the order in which they are looked into. -/
def edgeErrors (g : Graph α) (source target : NodeId) : List (Prop × GraphError) :=
  [(g.isFrozen = true, .frozen),
    (g.nodes.size ≤ source, .unknownNode source),
    (g.nodes.size ≤ target, .unknownNode target),
    (source = target ∨ g.Leads target source, .cycleDetected),
    (g.Edge source target, .duplicateEdge source target)]

/-- A graph in which no node leads back to itself and no edge is listed twice. -/
structure Simple (g : Graph α) : Prop where
  acyclic : g.Acyclic
  nodup : ∀ u, (g.successors u).Nodup

theorem precede_firstError (g : Graph α) (source target : NodeId) :
    FirstError () (g.edgeErrors source target) (g.precede source target).1 := by
  unfold precede edgeErrors
  split
  · next h => exact .rejected h
  next hfrozen =>
  refine .next hfrozen ?_
  split
  · next h => exact .rejected h
  next hsource =>
  refine .next hsource ?_
  split
  · next h => exact .rejected h
  next htarget =>
  refine .next htarget ?_
  have hcycle : (source = target || g.reaches target source) = true ↔
      source = target ∨ g.Leads target source := by
    rw [Bool.or_eq_true, decide_eq_true_eq, reaches_iff]
  split
  · next h => exact .rejected (hcycle.mp h)
  next h =>
  refine .next (fun hno => h (hcycle.mpr hno)) ?_
  split
  · next h => exact .rejected (List.contains_iff_mem.mp h)
  next h => exact .next (fun hno => h (List.contains_iff_mem.mpr hno)) .accepted

/-- An edge between known nodes leaves a simple graph simple if and only if its target does
not lead to its source, and the edge is new. -/
theorem Simple.link_iff (h : g.Simple) {source target : NodeId} (hs : source < g.nodes.size) :
    (g.link source target).Simple ↔ ¬ g.Leads target source ∧ ¬ g.Edge source target := by
  have hsuccessors := successors_link g source target
  have hnew : (g.link source target).Edge source target := by
    rw [Edge, hsuccessors source hs, if_pos rfl]
    exact List.mem_append_right _ (List.mem_singleton_self _)
  constructor
  · refine fun hlink => ⟨fun hleads => ?_, fun hedge => ?_⟩
    · -- the new edge closes the way back
      have hold : ∀ u v, g.Edge u v → (g.link source target).Edge u v := by
        intro u v huv
        rw [Edge, hsuccessors u hs]
        split
        · exact List.mem_append_left _ huv
        · exact huv
      exact hlink.acyclic source (.head' hnew (Relation.ReflTransGen.mono hold _ _ hleads))
    · have hnodup := hlink.nodup source
      rw [hsuccessors source hs, if_pos rfl, List.nodup_append] at hnodup
      exact hnodup.2.2 target hedge target (List.mem_singleton_self _) rfl
  · rintro ⟨hleads, hedge⟩
    refine ⟨h.acyclic.link hs hleads, fun u => ?_⟩
    rw [hsuccessors u hs]
    split
    · next hu =>
      refine List.nodup_append.mpr ⟨h.nodup u, List.nodup_singleton _, fun v hv w hw hvw => ?_⟩
      rw [hvw, List.mem_singleton.mp hw, hu] at hv
      exact hedge hv
    · exact h.nodup u

/-- **`precede` accepts exactly the edges that keep a graph a simple one without cycles**:
those of an unfrozen graph between known nodes whose target does not lead to their source, and
that are new. Otherwise the first objection is the answer. The search for a way back ends, in
whatever order it goes on to the successors of a node, and it finds a way exactly if there is
one. -/
theorem precede_keeps_simple (h : g.Built) (source target : NodeId) :
    ((g.precede source target).1 = .ok () ↔
      g.isFrozen = false ∧ source < g.nodes.size ∧ target < g.nodes.size ∧ source ≠ target ∧
        ¬ g.Leads target source ∧ ¬ g.Edge source target) ∧
    FirstError () (g.edgeErrors source target) (g.precede source target).1 ∧
    ((g.precede source target).1 = .ok () ↔
      g.isFrozen = false ∧ source < g.nodes.size ∧ target < g.nodes.size ∧
        (g.link source target).Simple) ∧
    ∀ u < g.nodes.size, ∀ v, (g.reaches u v = true ↔ g.Leads u v) ∧
      ∀ push : NodeId → List NodeId, (∀ w, (push w).Perm (g.successors w)) →
        ∃ n ≤ g.edgeCount + 1,
          Searched push v (Array.replicate g.nodes.size false) [u] n (g.reaches u v) := by
  have hfirst := g.precede_firstError source target
  have hsimple : g.Simple := ⟨h.acyclic, h.linked.nodup_successors⟩
  have hok : (g.precede source target).1 = .ok () ↔
      g.isFrozen = false ∧ source < g.nodes.size ∧ target < g.nodes.size ∧ source ≠ target ∧
        ¬ g.Leads target source ∧ ¬ g.Edge source target := by
    rw [hfirst.ok_iff]
    simp [edgeErrors, not_or, and_assoc]
  refine ⟨hok, hfirst, hok.trans ?_, fun u hu v => ⟨g.reaches_iff u v, fun push hpush =>
    h.linked.reaches_searched hpush hu v⟩⟩
  refine and_congr_right fun _ => and_congr_right fun hs => and_congr_right fun _ => ?_
  rw [hsimple.link_iff hs, and_iff_right_of_imp]
  rintro ⟨hno, -⟩ rfl
  exact hno .refl

/-- A path over two edges. -/
def path : Graph Unit :=
  let nodes := (((empty.add "first" none).2.add "second" none).2.add "third" none).2
  ((nodes.precede 0 1).2.precede 1 2).2

theorem built_path : path.Built :=
  ((((Built.empty.add "first" none).add "second" none).add "third" none).precede 0 1).precede 1 2

/-- The edge that cuts a path short is accepted, and the one that closes it is not. -/
theorem precede_keeps_simple_path : path.Built ∧ (path.precede 0 2).1 = .ok () ∧
    (path.precede 2 0).1 ≠ .ok () := by
  obtain ⟨hshort, -, -, hsearch⟩ := precede_keeps_simple built_path 0 2
  obtain ⟨hlong, -⟩ := precede_keeps_simple built_path 2 0
  have hsize : path.nodes.size = 3 := by cbv
  rw [hsize] at hshort hlong hsearch
  have hforth : path.Leads 0 2 := (hsearch 0 (by decide) 2).1.mp (by cbv)
  have hback : ¬ path.Leads 2 0 := by
    rw [← (hsearch 2 (by decide) 0).1, show path.reaches 2 0 = false by cbv]
    decide
  have hnew : ¬ path.Edge 0 2 := by
    rw [Edge, show path.successors 0 = [1] by cbv]
    decide
  exact ⟨built_path, hshort.mpr ⟨by cbv, by decide, by decide, by decide, hback, hnew⟩,
    fun h => (hlong.mp h).2.2.2.2.1 hforth⟩

end Graph

end Dataflow
