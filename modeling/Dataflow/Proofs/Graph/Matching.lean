import Dataflow.Proofs.Graph.ByHand
import Dataflow.Proofs.Graph.Freezing

/-!
# Matching inputs to sources

The inputs of a run are checked one after another, and after that the sources. What there may
be to object to is listed in the order in which it is noticed, `Graph.stagingErrors`: an input
may name no node, or a node that is no source, or a source that an earlier input has named,
and a source that cannot do without a payload may have none. The first objection that applies
is the answer, and if none applies every source has its payload or none
(`Graph.Frozen.stageInputs_spec`).

What carries the induction over the inputs is that those already looked at have been matched
to the sources, `Graph.matched`.
-/

namespace Dataflow

/-- Objections raised before others are considered first. -/
theorem FirstError.append {ε β γ : Type} {x : β} {y : γ} {before rest : List (Prop × ε)}
    {first : Except ε β} {answer : Except ε γ} (h : FirstError x before first)
    (herror : ∀ e, first = .error e → answer = .error e)
    (hok : first = .ok x → FirstError y rest answer) :
    FirstError y (before ++ rest) answer := by
  induction h with
  | accepted => exact hok rfl
  | @rejected p e _ hp =>
    rw [herror e rfl]
    exact .rejected hp
  | next hp _ ih => exact .next hp (ih herror hok)

/-- A call that is successful gives what it is to give. -/
theorem FirstError.eq_of_ok {ε β : Type} {x y : β} {objections : List (Prop × ε)}
    {answer : Except ε β} (h : FirstError x objections answer) (hok : answer = .ok y) : y = x := by
  induction h with
  | accepted => exact (Except.ok.inj hok).symm
  | rejected => cases hok
  | next _ _ ih => exact ih hok

/-- The same objection to each of several things comes down to a search. -/
theorem FirstError.find? {ε β ι : Type} {x : β} {P : ι → Prop} {p : ι → Bool} {e : ι → ε}
    {answer : Except ε β} {l : List ι} (hp : ∀ v ∈ l, P v ↔ p v = true)
    (hsome : ∀ v, l.find? p = some v → answer = .error (e v))
    (hnone : l.find? p = none → answer = .ok x) :
    FirstError x (l.map fun v => (P v, e v)) answer := by
  induction l with
  | nil =>
    rw [hnone rfl]
    exact .accepted
  | cons v l ih =>
    obtain ⟨hv, hp⟩ := List.forall_mem_cons.mp hp
    rw [List.find?_cons] at hsome hnone
    cases hpv : p v with
    | true =>
      rw [hpv] at hsome
      rw [hsome v rfl]
      exact .rejected (hv.mpr hpv)
    | false =>
      rw [hpv] at hsome hnone
      refine .next (fun hP => ?_) (ih hp hsome hnone)
      rw [hv.mp hP] at hpv
      cases hpv

namespace Graph

variable {α : Type} {g g' : Graph α} {v : NodeId} {earlier inputs : List (NodeId × α)}

/-! ### What there may be to object to -/

/-- What may be wrong with an input, if the given nodes were named before. -/
def inputErrors (g : Graph α) (named : List NodeId) (id : NodeId) : List (Prop × Error) :=
  [(g.nodes.size ≤ id, .graph (.unknownNode id)),
    (id ∉ g.sources, .scheduling (.unexpectedInput id)),
    (id ∈ named, .scheduling (.duplicateInput id))]

/-- What may be wrong with the inputs, each of them by itself or beside the earlier ones. -/
def listErrors (g : Graph α) (named : List NodeId) : List (NodeId × α) → List (Prop × Error)
  | [] => []
  | (id, _) :: inputs => g.inputErrors named id ++ g.listErrors (named ++ [id]) inputs

/-- The node has no callback to do without an input. -/
def NeedsInput (g : Graph α) (v : NodeId) : Prop :=
  ∃ n, g.nodes[v]? = some n ∧ n.hasWork = false

/-- What may be wrong with the inputs of a run: at first with the elements of the list, in
order, and then with what it lacks, in the order of the sources. -/
def stagingErrors (g : Graph α) (inputs : List (NodeId × α)) : List (Prop × Error) :=
  g.listErrors [] inputs ++
    g.sources.map fun v =>
      (g.NeedsInput v ∧ v ∉ inputs.map (·.1), .scheduling (.missingInput v))

/-- Each source with the payload that is given for it, if there is one. -/
def matched (g : Graph α) (inputs : List (NodeId × α)) : Staged α :=
  g.sources.map fun v => (v, inputs.lookup v)

/-! ### One input after another -/

/-- What is given for a source that was named is a payload. -/
theorem lookup_isSome_iff : (inputs.lookup v).isSome = true ↔ v ∈ inputs.map (·.1) := by
  rw [← Option.ne_none_iff_isSome, Ne, List.lookup_eq_none_iff]
  simp

theorem entry?_matched (hv : v ∈ g.sources) :
    Staged.entry? (g.matched inputs) v = some (inputs.lookup v) := by
  have key : ∀ l : List NodeId, v ∈ l →
      (l.map fun w => (w, inputs.lookup w)).lookup v = some (inputs.lookup v) := by
    intro l
    induction l with
    | nil => exact nofun
    | cons w l ih =>
      intro hmem
      rw [List.map_cons, List.lookup_cons]
      by_cases hw : v = w
      · simp [hw]
      · rw [beq_eq_false_iff_ne.mpr hw]
        exact ih ((List.mem_cons.mp hmem).resolve_left hw)
  exact key g.sources hv

/-- A payload for a source that had none goes behind the others. -/
theorem put_matched {id : NodeId} (hid : id ∉ inputs.map (·.1)) (x : α) :
    (g.matched inputs).put id x = g.matched (inputs ++ [(id, x)]) := by
  simp only [matched, Staged.put, List.map_map]
  refine List.map_congr_left fun v _ => ?_
  simp only [Function.comp, List.lookup_append]
  by_cases hv : v = id
  · subst hv
    have hnone : inputs.lookup v = none := by
      rw [← Option.not_isSome_iff_eq_none, lookup_isSome_iff]
      exact hid
    simp [hnone]
  · simp [hv, List.lookup_cons, beq_eq_false_iff_ne.mpr hv]

namespace Frozen

/-- One input is matched, unless there is an objection. -/
theorem stageOne_spec (h : g.Frozen) (earlier : List (NodeId × α)) (id : NodeId) (x : α) :
    FirstError (g.matched (earlier ++ [(id, x)])) (g.inputErrors (earlier.map (·.1)) id)
      (g.stageOne (g.matched earlier) id x) := by
  unfold stageOne inputErrors
  cases hn : g.nodes[id]? with
  | none => exact .rejected (Array.getElem?_eq_none_iff.mp hn)
  | some n =>
    have hlt := (Array.getElem?_eq_some_iff.mp hn).1
    have hsource : id ∈ g.sources ↔ n.isSource = true := by
      rw [h.mem_sources, and_iff_right hlt, predecessors_of_node hn]
      simp [Node.isSource]
    refine .next (Nat.not_le.mpr hlt) ?_
    dsimp only
    by_cases hs : n.isSource = true
    · refine .next (not_not.mpr (hsource.mpr hs)) ?_
      simp only [hs, Bool.not_true, Bool.false_eq_true, if_false,
        entry?_matched (hsource.mpr hs), Option.join_some, lookup_isSome_iff]
      split
      · next hmem => exact .rejected hmem
      · next hmem =>
        rw [put_matched hmem]
        exact .next hmem .accepted
    · simp only [hs, Bool.not_false, if_true]
      exact .rejected fun hid => hs (hsource.mp hid)

/-- **The inputs are matched one after another**, up to the first to which there is an
objection. -/
theorem stageAll_spec (h : g.Frozen) (earlier inputs : List (NodeId × α)) :
    FirstError (g.matched (earlier ++ inputs)) (g.listErrors (earlier.map (·.1)) inputs)
      (g.stageAll (g.matched earlier) inputs) := by
  induction inputs generalizing earlier with
  | nil =>
    rw [List.append_nil]
    exact .accepted
  | cons input inputs ih =>
    obtain ⟨id, x⟩ := input
    rw [listErrors, stageAll]
    refine (h.stageOne_spec earlier id x).append (fun e he => by rw [he]) fun hok => ?_
    rw [hok]
    have hrest := ih (earlier ++ [(id, x)])
    rwa [List.append_assoc, List.singleton_append, List.map_append] at hrest

/-- The sources are looked at in order for one that lacks its input. -/
theorem starving?_spec (h : g.Frozen) (inputs : List (NodeId × α)) :
    FirstError (g.matched inputs) (g.sources.map fun v =>
        (g.NeedsInput v ∧ v ∉ inputs.map (·.1), Error.scheduling (.missingInput v)))
      (match g.starving? (g.matched inputs) with
        | some id => .error (.scheduling (.missingInput id))
        | none => .ok (g.matched inputs)) := by
  have hlacks : ∀ v ∈ g.sources, (g.NeedsInput v ∧ v ∉ inputs.map (·.1)) ↔
      ((inputs.lookup v).isNone && !(g.nodes[v]?.any (·.hasWork))) = true := by
    intro v hv
    obtain ⟨n, hn⟩ := node_of_lt (h.mem_sources.mp hv).1
    rw [← lookup_isSome_iff, NeedsInput, hn, Bool.and_eq_true, Option.isNone_iff_eq_none,
      Option.not_isSome_iff_eq_none, and_comm]
    simp
  have hfind : g.starving? (g.matched inputs) = g.sources.find? fun v =>
      (inputs.lookup v).isNone && !(g.nodes[v]?.any (·.hasWork)) := by
    rw [starving?, matched, List.find?_map, Option.map_map]
    exact Option.map_id'
  refine .find? hlacks (fun v hv => ?_) fun hnone => ?_
  · rw [hfind, hv]
  · rw [hfind, hnone]

/-- **The answer to a list of inputs** is the first objection to it, or else its payloads
matched to the sources. -/
theorem stageInputs_spec (h : g.Frozen) (inputs : List (NodeId × α)) :
    FirstError (g.matched inputs) (g.stagingErrors inputs) (g.stageInputs inputs) := by
  have hnone : (g.sources.map fun v => (v, (none : Entry α))) = g.matched [] := rfl
  have hall := h.stageAll_spec [] inputs
  rw [List.nil_append, List.map_nil] at hall
  rw [stageInputs, hnone]
  refine hall.append (fun e he => by rw [he]) fun hok => ?_
  rw [hok]
  exact h.starving?_spec inputs

/-! ### What is accepted -/

/-- There is nothing to object to inputs that name sources, each at most once. -/
theorem listErrors_iff (h : g.Frozen) (named : List NodeId) (inputs : List (NodeId × α)) :
    (∀ o ∈ g.listErrors named inputs, ¬ o.1) ↔ (∀ v ∈ inputs.map (·.1), v ∈ g.sources) ∧
      (inputs.map (·.1)).Nodup ∧ ∀ v ∈ inputs.map (·.1), v ∉ named := by
  induction inputs generalizing named with
  | nil => simp [listErrors]
  | cons input inputs ih =>
    obtain ⟨id, x⟩ := input
    have hlt : id ∈ g.sources → ¬ g.nodes.size ≤ id := fun hid =>
      Nat.not_le.mpr (h.mem_sources.mp hid).1
    rw [listErrors, List.forall_mem_append, ih]
    simp only [inputErrors, List.forall_mem_cons, not_not, List.map_cons, List.nodup_cons,
      List.mem_append, List.mem_singleton, forall_eq, not_or]
    constructor
    · rintro ⟨⟨-, hid, hnew⟩, hsources, hnd, hnot⟩
      exact ⟨⟨hid, hsources⟩, ⟨fun hmem => (hnot id hmem).2 rfl, hnd⟩, hnew,
        fun v hv => (hnot v hv).1⟩
    · rintro ⟨⟨hid, hsources⟩, ⟨hnot, hnd⟩, hnew, hnamed⟩
      exact ⟨⟨hlt hid, hid, hnew⟩, hsources, hnd, fun v hv =>
        ⟨hnamed v hv, fun he => hnot (he ▸ hv)⟩⟩

/-- **Inputs are accepted** if they name sources, each at most once, and leave out none that
cannot do without. -/
theorem stageInputs_ok_iff (h : g.Frozen) (inputs : List (NodeId × α)) :
    (∃ staged, g.stageInputs inputs = .ok staged) ↔
      (∀ v ∈ inputs.map (·.1), v ∈ g.sources) ∧ (inputs.map (·.1)).Nodup ∧
        ∀ v ∈ g.sources, g.NeedsInput v → v ∈ inputs.map (·.1) := by
  have hspec := h.stageInputs_spec inputs
  have hok : (∃ staged, g.stageInputs inputs = .ok staged) ↔
      g.stageInputs inputs = .ok (g.matched inputs) :=
    ⟨fun ⟨_, hs⟩ => hspec.eq_of_ok hs ▸ hs, fun hs => ⟨_, hs⟩⟩
  have hneeds : (∀ o ∈ g.sources.map fun v => (g.NeedsInput v ∧ v ∉ inputs.map (·.1),
      Error.scheduling (.missingInput v)), ¬ o.1) ↔
      ∀ v ∈ g.sources, g.NeedsInput v → v ∈ inputs.map (·.1) := by
    simp only [List.forall_mem_map, not_and, not_not]
  rw [hok, hspec.ok_iff, stagingErrors, List.forall_mem_append, h.listErrors_iff, hneeds]
  simp only [List.not_mem_nil, not_false_eq_true, implies_true, and_true, and_assoc]

/-- The sources are listed in ascending order. -/
theorem pairwise_sources (h : g.Frozen) : g.sources.Pairwise (· < ·) := by
  rw [h.sources_eq]
  exact List.pairwise_lt_range.filter _

end Frozen

/-- Of inputs that name each source once, a source gets the payload that stands beside it. -/
theorem lookup_eq_some_of_nodup (h : (inputs.map (·.1)).Nodup) {x : α} :
    inputs.lookup v = some x ↔ (v, x) ∈ inputs := by
  rw [List.lookup_eq_some_iff]
  constructor
  · rintro ⟨before, after, rfl, -⟩
    exact List.mem_append_right _ (List.mem_cons_self ..)
  · intro hmem
    obtain ⟨before, after, rfl⟩ := List.append_of_mem hmem
    rw [List.map_append, List.nodup_append] at h
    refine ⟨before, after, rfl, fun p hp => ?_⟩
    have hne := h.2.2 p.1 (List.mem_map_of_mem hp) v (List.mem_cons_self ..)
    exact bne_iff_ne.mpr hne.symm

/-- **What comes of the inputs of a run**, matched against the sources. -/
structure Matches (g : Graph α) (inputs : List (NodeId × α)) : Prop where
  /-- The answer is the first objection, or there is none. -/
  answer : FirstError (g.matched inputs) (g.stagingErrors inputs) (g.stageInputs inputs)
  accepted : (∃ staged, g.stageInputs inputs = .ok staged) ↔
    (∀ v ∈ inputs.map (·.1), v ∈ g.sources) ∧ (inputs.map (·.1)).Nodup ∧
      ∀ v ∈ g.sources, g.NeedsInput v → v ∈ inputs.map (·.1)
  /-- The sources are the nodes that nobody precedes, in ascending order. -/
  mem_sources : ∀ v, v ∈ g.sources ↔ v < g.nodes.size ∧ g.predecessors v = []
  ascending : g.sources.Pairwise (· < ·)
  /-- There is one entry for each of them, in the same order, -/
  sources : ∀ {staged}, g.stageInputs inputs = .ok staged → staged.map (·.1) = g.sources
  /-- with what is given for it. -/
  entry : ∀ {staged}, g.stageInputs inputs = .ok staged → ∀ {v e}, (v, e) ∈ staged →
    (∀ x, e = some x ↔ (v, x) ∈ inputs) ∧ (e = none ↔ v ∉ inputs.map (·.1))

theorem Frozen.matches (h : g.Frozen) (inputs : List (NodeId × α)) : g.Matches inputs := by
  have hspec := h.stageInputs_spec inputs
  refine ⟨hspec, h.stageInputs_ok_iff inputs, fun _ => h.mem_sources, h.pairwise_sources,
    fun {staged} hs => ?_, fun {staged} hs v e hmem => ?_⟩
  · rw [hspec.eq_of_ok hs, matched, List.map_map]
    exact List.map_id' _
  · obtain ⟨-, hnd, -⟩ := (h.stageInputs_ok_iff inputs).mp ⟨staged, hs⟩
    rw [hspec.eq_of_ok hs] at hmem
    obtain ⟨w, -, he⟩ := List.mem_map.mp hmem
    obtain ⟨rfl, rfl⟩ := Prod.mk.inj he
    refine ⟨fun x => lookup_eq_some_of_nodup hnd, ?_⟩
    rw [← lookup_isSome_iff, Option.not_isSome_iff_eq_none]

/-- A graph that is read like a frozen one is frozen as well. -/
theorem Frozen.of_alike (h : g.Frozen) (ha : g.Alike g') (hl : g'.Linked) : g'.Frozen where
  linked := hl
  isFrozen := (congrArg Option.isSome ha.plan).trans h.isFrozen
  sources_eq := by
    rw [ha.sources, h.sources_eq]
    simp only [collect, ha.nodes]
  sinks_eq := by
    rw [ha.sinks, h.sinks_eq]
    simp only [collect, ha.nodes]
  order_perm := by
    rw [ha.order, ha.nodes]
    exact h.order_perm
  before := by
    intro l r v he u hu
    exact h.before (ha.order ▸ he) u (ha.predecessors v ▸ hu)

/-- Graphs that are read alike accept the same inputs. -/
theorem Alike.stageInputs (h : g.Alike g') (inputs : List (NodeId × α)) :
    g'.stageInputs inputs = g.stageInputs inputs := by
  have hall : ∀ staged, g'.stageAll staged inputs = g.stageAll staged inputs := by
    induction inputs with
    | nil => exact fun _ => rfl
    | cons input inputs ih =>
      intro staged
      have hone : g'.stageOne staged input.1 input.2 = g.stageOne staged input.1 input.2 := by
        simp only [stageOne, h.nodes]
      simp only [stageAll, hone, ih]
  simp only [Graph.stageInputs, hall, h.sources, starving?, h.nodes]

/-- **What was accepted feeds every source** that has nothing but its payload to pass on. -/
theorem Frozen.fed (h : g.Frozen) {inputs : List (NodeId × α)} {staged : Staged α}
    (hs : g.stageInputs inputs = .ok staged) : g.Fed staged := by
  obtain ⟨-, -, hneeds⟩ := (h.stageInputs_ok_iff inputs).mp ⟨staged, hs⟩
  intro v n hn hv hw
  rw [(h.stageInputs_spec inputs).eq_of_ok hs, entry?_matched hv, Option.join_some,
    lookup_isSome_iff]
  exact hneeds v hv ⟨n, hn, hw⟩

end Graph

end Dataflow
