import Dataflow.Proofs.Engine.Register
import Dataflow.Proofs.Graph.Stock
import Dataflow.Proofs.Pool.Fifo

/-!
# Executions without all of their inputs

A node may be executed by hand too early, when some inlet has no entry of the run yet. The
inlets are emptied one after another, so what such an attempt does depends on where the
first of the inlets without an entry stands (`Graph.Misses`): the entries of the run in the
inlets before it are taken and lost, and nothing else happens (`Graph.Premature`). An
attempt leaves the graph alone exactly if the very first inlet is the one without an entry,
and so it does at every node with at most one predecessor. At a join it may not: if the
second of two predecessors is late, what the first has published is gone, and the execution
fails again when the second has caught up.
-/

namespace Dataflow

variable {α : Type}

namespace Graph

variable {g g' : Graph α} {v : NodeId} {run : ObjectId} {c : Channel} {before after : List Channel}

/-! ### One inlet -/

/-- An entry of the run is given away, and the others stay in order. -/
theorem entryOf?_of_mem (h : run ∈ g.tagsAt c) : ∃ e p p', g.pool? c = some p ∧
    g.entryOf? c run = some (e, p') ∧ p'.entries = p.entries.eraseP (·.objectId == run) := by
  cases hp : g.pool? c with
  | none => simp [tagsAt, entriesAt, hp] at h
  | some p =>
    rw [tagsAt_of_pool hp] at h
    rcases p.takeTagged_cases run with ⟨hnone, -⟩ | ⟨x, p', -, htake, hview⟩
    · obtain ⟨e, he⟩ := Pool.mem_tags.mp h
      have hno := List.find?_eq_none.mp hnone _ he
      simp at hno
    · exact ⟨x.payload, p, p', rfl, by rw [entryOf?, hp, Option.bind_some, htake],
        congrArg (·.values) hview⟩

theorem entryOf?_of_not_mem (h : run ∉ g.tagsAt c) : g.entryOf? c run = none := by
  cases hp : g.pool? c with
  | none => simp [entryOf?, hp]
  | some p =>
    rw [tagsAt_of_pool hp] at h
    rcases p.takeTagged_cases run with ⟨-, htake⟩ | ⟨x, p', hx, -, -⟩
    · rw [entryOf?, hp, Option.bind_some, htake]
    · have htag : x.objectId = run := by simpa using List.find?_some hx
      exact absurd (Pool.mem_tags.mpr ⟨x.payload, htag ▸ List.mem_of_find?_eq_some hx⟩) h

/-- Of a run with one entry nothing is left when that is taken. -/
theorem not_mem_map_eraseP {l : List (Tagged (Entry α))}
    (h : (l.map (·.objectId)).count run = 1) :
    run ∉ (l.eraseP (·.objectId == run)).map (·.objectId) := by
  induction l with
  | nil => simp
  | cons x l ih =>
    rw [List.map_cons, List.count_cons] at h
    rw [List.eraseP_cons]
    by_cases hx : x.objectId = run
    · simp only [hx, beq_self_eq_true, if_true, Nat.add_eq_right] at h ⊢
      exact List.count_eq_zero.mp h
    · simp only [beq_eq_false_iff_ne.mpr hx, Bool.false_eq_true, if_false, Nat.add_zero] at h
      simp only [beq_eq_false_iff_ne.mpr hx, cond_false, List.map_cons, List.mem_cons, not_or]
      exact ⟨fun he => hx he.symm, ih h⟩

theorem length_eraseP_lt (h : run ∈ g.tagsAt c) :
    ((g.entriesAt c).eraseP (·.objectId == run)).length < (g.entriesAt c).length := by
  obtain ⟨e, he⟩ := mem_tagsAt.mp h
  rw [List.length_eraseP_of_mem he (by simp)]
  exact Nat.sub_lt (List.length_pos_of_mem he) Nat.zero_lt_one

/-! ### The first inlet without an entry -/

/-- **The first inlet of a node that has no entry of a run**, and the inlets before it. -/
structure Misses (g : Graph α) (v : NodeId) (run : ObjectId) (before : List Channel)
    (c : Channel) : Prop where
  inlets : ∃ after, g.inlets v = before ++ c :: after
  present : ∀ c' ∈ before, run ∈ g.tagsAt c'
  absent : run ∉ g.tagsAt c

/-- Some list of channels has an entry of the run in each, or there is a first without. -/
theorem exists_first_absent (g : Graph α) (run : ObjectId) (cs : List Channel)
    (h : ∃ c ∈ cs, run ∉ g.tagsAt c) : ∃ before c after, cs = before ++ c :: after ∧
      (∀ c' ∈ before, run ∈ g.tagsAt c') ∧ run ∉ g.tagsAt c := by
  induction cs with
  | nil =>
    obtain ⟨c, hc, -⟩ := h
    cases hc
  | cons c₀ cs ih =>
    by_cases h₀ : run ∈ g.tagsAt c₀
    · obtain ⟨c, hc, habs⟩ := h
      have hne : c ≠ c₀ := fun he => habs (he ▸ h₀)
      obtain ⟨before, c, after, rfl, hpre, habs⟩ :=
        ih ⟨c, (List.mem_cons.mp hc).resolve_left hne, habs⟩
      exact ⟨c₀ :: before, c, after, rfl, List.forall_mem_cons.mpr ⟨h₀, hpre⟩, habs⟩
    · exact ⟨[], c₀, cs, rfl, nofun, h₀⟩

theorem exists_misses (h : ∃ c ∈ g.inlets v, run ∉ g.tagsAt c) :
    ∃ before c, g.Misses v run before c := by
  obtain ⟨before, c, after, hcs, hpre, habs⟩ := g.exists_first_absent run (g.inlets v) h
  exact ⟨before, c, ⟨after, hcs⟩, hpre, habs⟩

/-- **Taking inputs up to one that is missing** takes an entry of the run from each inlet
before it. -/
theorem takeInputs_of_absent (hnd : before.Nodup) (hc : c ∉ before)
    (hcs : ∀ c' ∈ before, g.Carries c' ∧ run ∈ g.tagsAt c') (habs : run ∉ g.tagsAt c)
    (taken : List (Entry α)) (after : List Channel) :
    ∃ g', g.takeInputs run taken (before ++ c :: after) = (.error c.producer, g') ∧
      g.Alike g' ∧ (∀ u, g'.tally u = g.tally u) ∧
      ∀ c', g'.entriesAt c' = if c' ∈ before then (g.entriesAt c').eraseP (·.objectId == run)
        else g.entriesAt c' := by
  induction before generalizing g taken with
  | nil =>
    refine ⟨g, ?_, .refl g, fun _ => rfl, fun _ => rfl⟩
    simp only [List.nil_append, takeInputs, entryOf?_of_not_mem habs]
  | cons c₀ before ih =>
    obtain ⟨hnot, hnd⟩ := List.nodup_cons.mp hnd
    obtain ⟨hne, hc⟩ := not_or.mp (List.mem_cons.not.mp hc)
    obtain ⟨⟨hcarries, hmem⟩, hcs⟩ := List.forall_mem_cons.mp hcs
    obtain ⟨e, p, p', hpool, hentry, herase⟩ := entryOf?_of_mem hmem
    have hset := entriesAt_setPool p' hcarries (by rw [hpool]; rfl)
    -- the other channels are as they were, so the rest of the inlets is found unchanged
    have htags : ∀ c', c' ≠ c₀ → (g.setPool c₀ p').tagsAt c' = g.tagsAt c' := fun c' hne' => by
      rw [tagsAt, hset, if_neg hne', tagsAt]
    obtain ⟨g', htake, halike, htally, hentries⟩ := ih hnd hc
      (fun c' hc' => by
        rw [(Alike.setPool g c₀ p').carries, htags c' fun he => hnot (he ▸ hc')]
        exact hcs c' hc')
      (by rwa [htags c hne]) (taken ++ c₀.inputs e)
    refine ⟨g', ?_, (Alike.setPool g c₀ p').trans halike, fun u => ?_, fun c' => ?_⟩
    · simp only [List.cons_append, takeInputs, hentry]
      exact htake
    · rw [htally, tally_setPool]
    · rw [hentries, hset]
      by_cases he : c' = c₀
      · subst he
        simp [hnot, herase, entriesAt_of_pool hpool]
      · simp [he]

/-! ### Premature executions -/

section Fire

variable [Payload α]

/-- An execution that lacks an input ends with what it has taken up to there. -/
theorem launch_of_takeInputs_error {n : Node α} {u : NodeId} (hf : g.isFrozen = true)
    (hn : g.nodes[v]? = some n) (h : g.takeInputs run [] (g.inlets v) = (.error u, g')) :
    g.launch v run = (.refused (.execution (.noInput u)), g') := by
  rw [launch, hf]
  simp only [Bool.not_true, Bool.false_eq_true, if_false, hn, h]

theorem fire_of_launch_refused {e : Error} (h : g.launch v run = (.refused e, g')) :
    g.fire v run = (.error e, g') := by
  simp only [fire, h, Launch.refused, Launch.answer, Launch.deliveries, deliver]

/-- If the first inlet has no entry of the run, nothing is taken. -/
theorem fire_of_first_absent {n : Node α} (hf : g.isFrozen = true) (hn : g.nodes[v]? = some n)
    (hin : g.inlets v = c :: after) (habs : run ∉ g.tagsAt c) :
    g.fire v run = (.error (.execution (.noInput c.producer)), g) := by
  refine fire_of_launch_refused (launch_of_takeInputs_error hf hn ?_)
  rw [hin, takeInputs, entryOf?_of_not_mem habs]

/-- **What an execution does that lacks an input**: it destroys what it has taken before it
noticed, and nothing else. -/
structure Premature (g : Graph α) (v : NodeId) (run : ObjectId) (before : List Channel)
    (c : Channel) : Prop where
  answer : (g.fire v run).1 = .error (.execution (.noInput c.producer))
  /-- No callback is entered, and none is counted. -/
  called : (g.launch v run).1.called = none
  tally : ∀ u, (g.fire v run).2.tally u = g.tally u
  alike : g.Alike (g.fire v run).2
  entries : ∀ c', (g.fire v run).2.entriesAt c' =
    if c' ∈ before then (g.entriesAt c').eraseP (·.objectId == run) else g.entriesAt c'
  /-- Nothing is destroyed exactly if the first inlet is the one without an entry. -/
  harmless : (∀ c', (g.fire v run).2.entriesAt c' = g.entriesAt c') ↔ before = []
  unchanged : before = [] → (g.fire v run).2 = g
  /-- Whatever happens later at other channels, the run lacks its first input from then on. -/
  again : ∀ {c₀ rest}, before = c₀ :: rest → (g.tagsAt c₀).count run = 1 →
    ∀ g', (g.fire v run).2.Alike g' → g'.entriesAt c₀ = (g.fire v run).2.entriesAt c₀ →
      g'.fire v run = (.error (.execution (.noInput c₀.producer)), g')

theorem Misses.premature (hg : g.Frozen) (hv : v < g.nodes.size)
    (h : g.Misses v run before c) : g.Premature v run before c := by
  obtain ⟨n, hn⟩ := node_of_lt hv
  obtain ⟨after, hin⟩ := h.inlets
  have hnd : (before ++ c :: after).Nodup := hin ▸ hg.nodup_inlets v
  obtain ⟨hndb, -, hdis⟩ := List.nodup_append.mp hnd
  have hc : c ∉ before := fun hc => hdis c hc c (List.mem_cons_self ..) rfl
  have hcs : ∀ c' ∈ before, g.Carries c' ∧ run ∈ g.tagsAt c' := fun c' hc' =>
    ⟨((hg.mem_inlets hv).mp (hin ▸ List.mem_append_left _ hc')).1, h.present c' hc'⟩
  obtain ⟨g', htake, halike, htally, hentries⟩ :=
    takeInputs_of_absent hndb hc hcs h.absent [] after
  rw [← hin] at htake
  have hlaunch := launch_of_takeInputs_error hg.isFrozen hn htake
  have hfire := fire_of_launch_refused hlaunch
  refine ⟨by rw [hfire], by rw [hlaunch]; rfl, by rwa [hfire], by rwa [hfire], by rwa [hfire],
    ?_, ?_, ?_⟩
  · rw [hfire]
    constructor
    · intro hsame
      refine List.eq_nil_iff_forall_not_mem.mpr fun c' hc' => ?_
      have hlt := length_eraseP_lt (h.present c' hc')
      have he := (hentries c').symm.trans (hsame c')
      rw [if_pos hc'] at he
      rw [he] at hlt
      exact Nat.lt_irrefl _ hlt
    · rintro rfl c'
      exact hentries c'
  · rintro rfl
    rw [fire_of_first_absent hg.isFrozen hn hin h.absent]
  · rintro c₀ rest rfl hcount g'' ha he
    rw [hfire] at ha he
    have ha := halike.trans ha
    refine fire_of_first_absent ((congrArg Option.isSome ha.plan).trans hg.isFrozen)
      (ha.nodes ▸ hn) ((ha.inlets v).trans hin) ?_
    rw [tagsAt, he, hentries, if_pos (List.mem_cons_self ..)]
    exact not_mem_map_eraseP hcount

/-- **An execution that lacks an input destroys the inputs before the first that is missing**
and leaves everything else as it was. So it leaves the whole graph as it was if the node has
at most one predecessor. -/
theorem Raised.fire_of_absent (h : g.Raised) (hf : g.isFrozen = true) (hv : v < g.nodes.size)
    (hm : ∃ c ∈ g.inlets v, run ∉ g.tagsAt c) :
    (∃ before c, g.Misses v run before c ∧ g.Premature v run before c) ∧
      ((g.predecessors v).length ≤ 1 → (g.fire v run).2 = g) := by
  have hg := h.wellFormed.frozen hf
  obtain ⟨before, c, hmiss⟩ := exists_misses hm
  have hp := hmiss.premature hg hv
  refine ⟨⟨before, c, hmiss, hp⟩, fun hle => hp.unchanged ?_⟩
  obtain ⟨after, hin⟩ := hmiss.inlets
  have hlen : (g.inlets v).length ≤ 1 := by
    by_cases hnil : g.predecessors v = []
    · simp [inlets_of_nil hnil]
    · simpa [inlets_of_ne_nil hnil] using hle
  rw [hin, List.length_append, List.length_cons] at hlen
  exact List.length_eq_zero_iff.mp (by omega)

end Fire

/-! ### A join whose second predecessor is late -/

/-- Two nodes without callbacks lead to one that adds. The first of them was executed for
the run 0, with 5 as its input. -/
def late : Graph Nat :=
  let add : Work Nat := fun xs => .done (.value xs.sum)
  let g := (((Graph.empty.add "a" none).2.add "b" none).2.add "c" (some add)).2
  let g := (((g.precede 0 2).2.precede 1 2).2.freeze 1).2
  ((g.deliver 0 [(.staging 0, some 5)]).1.fire 0 0).2

/-- The second predecessor is executed as well, with 7 as its input. -/
def catchUp (g : Graph Nat) : Graph Nat :=
  ((g.deliver 0 [(.staging 1, some 7)]).1.fire 1 0).2

theorem raised_late : late.Raised :=
  ((((((Raised.empty.add "a" none).add "b" none).add "c" _).precede 0 2).precede 1 2).freeze
    1).deliver 0 _ |>.fire 0 0

/-- The second predecessor has not been executed yet. -/
theorem exists_absent_late : ∃ c ∈ late.inlets 2, 0 ∉ late.tagsAt c := by
  refine ⟨.edge 1 2, ?_, ?_⟩
  · rw [show late.inlets 2 = [.edge 0 2, .edge 1 2] by cbv]
    simp
  · rw [show late.tagsAt (.edge 1 2) = [] by cbv]
    simp

/-- The attempt in between destroys the entry of the first predecessor. -/
theorem fire_of_absent_late :
    late.Raised ∧ late.isFrozen = true ∧ 2 < late.nodes.size ∧
      (∃ c ∈ late.inlets 2, 0 ∉ late.tagsAt c) ∧
      (∃ before c, late.Misses 2 0 before c ∧ late.Premature 2 0 before c) ∧
      ((late.predecessors 2).length ≤ 1 → (late.fire 2 0).2 = late) := by
  have hf : late.isFrozen = true := by cbv
  have hv : 2 < late.nodes.size := by cbv
  exact ⟨raised_late, hf, hv, exists_absent_late,
    Raised.fire_of_absent raised_late hf hv exists_absent_late⟩

/-- **An attempt that comes too early is not harmless**: it takes the 5 out of its pool, and
when the second predecessor has caught up the node fails for want of the first, where it
would have come to 12. -/
theorem not_harmless_of_early :
    (¬ ∀ (g : Graph Nat) (v u : NodeId) (run : ObjectId), g.Raised → g.isFrozen = true →
      (∃ c ∈ g.inlets v, run ∉ g.tagsAt c) →
      (g.fire v run).1 = .error (.execution (.noInput u)) →
      ∀ c, (g.fire v run).2.entriesAt c = g.entriesAt c) ∧
    (late.fire 2 0).1 = .error (.execution (.noInput 1)) ∧
    ((late.fire 2 0).2.catchUp.fire 2 0).1 = .error (.execution (.noInput 0)) ∧
    (late.catchUp.fire 2 0).1 = .ok (some 12) := by
  refine ⟨fun hall => ?_, by cbv, by cbv, by cbv⟩
  have hsame := hall late 2 1 0 raised_late (by cbv) exists_absent_late (by cbv) (.edge 0 2)
  rw [show (late.fire 2 0).2.entriesAt (.edge 0 2) = [] by cbv,
    show late.entriesAt (.edge 0 2) = [⟨0, some 5⟩] by cbv] at hsame
  cases hsame

end Graph

end Dataflow
