import Dataflow.Proofs.Engine.Scenes
import Dataflow.Proofs.Scheduler.Reachable

/-!
# Histories of reachable worlds

`World.Recorded` follows the steps that lead to a world, and notes down the deeds since the
last graph was bound: those of threads at their executions, and those of accepted runs
that get a slot at once. Nothing else changes what is left to do (`World.Aside`).

Every reachable world has a history (`World.Reachable.recorded`), and what every change of
a scene keeps holds of it (`World.Recorded.holds`).
-/

namespace Dataflow

variable {α : Type}

namespace Scheduler

/-- Who has given the graph back has none. -/
theorem binding_unbind {s s' : Scheduler α} {g : Graph α}
    (h : s.unbind = some (.ok (g, s'))) : s'.binding = none := by
  unfold unbind at h
  split at h
  · cases h
  · split at h
    · rw [← (Prod.mk.inj (Except.ok.inj (Option.some.inj h))).2]
    · cases h

/-- Who has accepted a run has a graph. -/
theorem binding_run {s s' : Scheduler α} {inputs : List (NodeId × α)}
    {run : ObjectId} {cell : CellId} (h : s.run inputs = .accepted s' run cell) :
    ∃ b, s'.binding = some b := by
  unfold Scheduler.run at h
  split at h
  · cases h
  · split at h
    · cases h
    · simp only at h
      split at h
      · cases h
      · cases h
      · obtain ⟨rfl, -, -⟩ := RunAnswer.accepted.inj h
        exact ⟨_, rfl⟩

end Scheduler

/-! ### What is aside -/

namespace World

/-- Nobody has gone on with an execution: what is left to do is the same, slots show what they
showed, runs that wait are not launched, and nothing new is on record. -/
structure Aside (w w' : World α) : Prop where
  binding : ∀ {b'}, w'.scheduler.binding = some b' → ∃ b, w.scheduler.binding = some b ∧
    b'.table.statuses = b.table.statuses ∧ ∀ v, b'.graph.tally v = b.graph.tally v
  load : w'.scheduler.binding.isSome = true →
    w.scheduler.threads.load.Perm w'.scheduler.threads.load
  tenures : ∀ {t ts}, w.tenures = t :: ts → ∃ t', w'.tenures = t' :: ts ∧
    t'.graph = t.graph ∧ t'.tickets = t.tickets ∧ t'.executed = t.executed ∧
    (w'.scheduler.binding.isSome = true → ∀ r, (r ∈ w'.scheduler.waiting ∨ r ∈ t'.cancelled) ↔
      (r ∈ w.scheduler.waiting ∨ r ∈ t.cancelled))

variable {w : World α}

/-- What leaves executions, slots and records alone is aside. -/
theorem Aside.of_same {s : Scheduler α} {owner : Owner} {taken : List (CellId × RunOutcome α)}
    (hb : s.binding = w.scheduler.binding)
    (hp : w.scheduler.threads.load.Perm s.threads.load) :
    w.Aside { w with scheduler := s, owner, taken } where
  binding := fun {b'} hb' => ⟨b', hb ▸ hb', rfl, fun _ => rfl⟩
  load := fun _ => hp
  tenures := fun {t ts} hts => ⟨t, hts, rfl, rfl, rfl, fun _ r => by
    simp only [Scheduler.waiting, hb]⟩

theorem aside_dismiss (w : World α) : w.Aside { w with scheduler := w.scheduler.dismiss } where
  binding := fun {b'} hb' => by
    simp only [Scheduler.dismiss] at hb'
    split at hb'
    · next xs b hxs hb =>
      refine ⟨b, hb, ?_⟩
      split at hb'
      · obtain rfl := Option.some.inj hb'
        exact ⟨rfl, Graph.tally_closePools⟩
      · obtain rfl := Option.some.inj (hb.symm.trans hb')
        exact ⟨rfl, fun _ => rfl⟩
    · exact ⟨b', hb', rfl, fun _ => rfl⟩
  load := fun _ => by
    have hthreads : w.scheduler.dismiss.threads = w.scheduler.threads := by
      unfold Scheduler.dismiss
      split
      · split <;> rfl
      · rfl
    exact .of_eq (congrArg Threads.load hthreads.symm)
  tenures := fun {t ts} hts => ⟨t, hts, rfl, rfl, rfl, fun _ r => by
    have hwaiting : w.scheduler.dismiss.waiting = w.scheduler.waiting := by
      unfold Scheduler.dismiss
      split
      · next hb =>
        split
        · simp only [Scheduler.waiting, hb]
        · rfl
      · rfl
    rw [hwaiting]⟩

/-- When the graph has been given back, nothing is left to compare. -/
theorem Aside.of_unbound {s : Scheduler α} {owner : Owner} (hb : s.binding = none) :
    w.Aside { w with scheduler := s, owner } where
  binding := fun hb' => absurd (hb.symm.trans hb') (by simp)
  load := fun hsome => absurd hsome (by simp [hb])
  tenures := fun {t ts} hts => ⟨t, hts, rfl, rfl, rfl, fun hsome => absurd hsome (by simp [hb])⟩

/-- The runs that are not launched any more are those that were waiting. -/
theorem aside_beginShutDown (hs : w.scheduler.isShutDown = false) :
    w.Aside { w.record w.scheduler.beginShutDown fun t =>
      { t with cancelled := t.cancelled ++ w.scheduler.waiting } with owner := .closing } where
  binding := fun {b'} hb' => by
    simp only [record, Scheduler.beginShutDown, hs, Bool.false_eq_true, if_false] at hb'
    split at hb'
    · next hb => rw [hb] at hb'; cases hb'
    · next b hb =>
      obtain rfl := Option.some.inj hb'
      exact ⟨b, hb, rfl, fun _ => rfl⟩
  load := fun _ => by
    have hthreads : w.scheduler.beginShutDown.threads = w.scheduler.threads := by
      unfold Scheduler.beginShutDown
      split
      · rfl
      · split <;> rfl
    exact .of_eq (congrArg Threads.load hthreads.symm)
  tenures := fun {t ts} hts => by
    refine ⟨{ t with cancelled := t.cancelled ++ w.scheduler.waiting },
      by simp only [record, hts, List.modifyHead_cons], rfl, rfl, rfl, fun hsome r => ?_⟩
    have hwaiting : w.scheduler.beginShutDown.waiting = [] := by
      unfold Scheduler.beginShutDown
      rw [hs, if_neg (by simp)]
      split
      · next hb => simp only [Scheduler.waiting, hb]
      · rfl
    simp only [record, hwaiting, List.mem_append, List.not_mem_nil, false_or]
    exact or_comm

theorem aside_finishShutDown {s : Scheduler α} (hf : w.scheduler.finishShutDown = some s) :
    w.Aside { w with scheduler := s, owner := .free } := by
  unfold Scheduler.finishShutDown at hf
  split at hf
  · obtain rfl := Option.some.inj hf
    exact .of_same rfl (.refl _)
  · split at hf
    · cases hf
    · obtain rfl := Option.some.inj hf
      refine .of_same rfl (.of_eq ?_)
      cases hth : w.scheduler.threads <;> rfl

end World

/-! ### Histories -/

variable [Payload α]

/-- What the next operation of a thread does on behalf of runs; nothing, if it is not at an
execution. -/
def Scheduler.deeds (s : Scheduler α) (i : Nat) : List (Deed α) :=
  match s.threads.execution? i, s.binding with
  | some x, some b => x.deeds s.threads.strategy b
  | _, _ => []

namespace World

/-- **A reachable world, and what was done** since its last graph was bound. -/
inductive Recorded (k : Strategy) : World α → List (Deed α) → Prop where
  | start {settings : Settings} {processors : Nat} {s : Scheduler α}
      (h : Scheduler.new k settings processors = .ok s) : Recorded k { scheduler := s } []
  | thread {w : World α} {T : List (Deed α)} {i : Nat} {choice : Choice} {s : Scheduler α}
      (h : Recorded k w T) (hs : w.scheduler.step i choice = some s) :
      Recorded k
        (w.record s fun t => { t with executed := t.executed ++ w.scheduler.fired s i })
        (T ++ w.scheduler.deeds i)
  | bind {w : World α} {T : List (Deed α)} {g : Graph α} {s : Scheduler α} {b : Binding α}
      (h : Recorded k w T) (ho : w.owner = .free) (hg : g.Built)
      (hs : w.scheduler.bind g = .ok s) (hb : s.binding = some b) :
      Recorded k { w with scheduler := s, tenures := { graph := b.graph } :: w.tenures } []
  | accept {w : World α} {T : List (Deed α)} {inputs : List (NodeId × α)} {b : Binding α}
      {staged : Staged α} {s : Scheduler α} {run : ObjectId} {cell : CellId}
      (h : Recorded k w T) (ho : w.owner = .free) (hb : w.scheduler.binding = some b)
      (hi : b.graph.stageInputs inputs = .ok staged)
      (hs : w.scheduler.run inputs = .accepted s run cell) :
      Recorded k (w.record s fun t => { t with tickets := t.tickets ++ [⟨run, staged, cell⟩] })
        (T ++ b.admission k staged cell)
  | aside {w w' : World α} {T : List (Deed α)} (h : Recorded k w T) (hs : w.Step w')
      (ha : w.Aside w') : Recorded k w' T

variable {k : Strategy} {w : World α} {T : List (Deed α)}

theorem Recorded.reachable (h : w.Recorded k T) : w.Reachable k := by
  induction h with
  | start h => exact .start h
  | thread _ hs ih => exact ih.step (.thread hs)
  | bind _ ho hg hs hb ih => exact ih.step (.bind ho hg hs hb)
  | accept _ ho hb hi hs ih => exact ih.step (.accept ho hb hi hs)
  | aside _ hs _ ih => exact ih.step hs

/-- **Every reachable world has a history.** -/
theorem Reachable.recorded (h : w.Reachable k) : ∃ T, w.Recorded k T := by
  induction h with
  | start h => exact ⟨[], .start h⟩
  | @step w w' hw hs ih =>
    obtain ⟨T, h⟩ := ih
    have haside : w.Aside w' → ∃ T, w'.Recorded k T := fun ha => ⟨T, h.aside hs ha⟩
    cases hs with
    | thread hstep => exact ⟨_, h.thread hstep⟩
    | bind ho hg hbind hb => exact ⟨_, h.bind ho hg hbind hb⟩
    | accept ho hb hi hrun => exact ⟨_, h.accept ho hb hi hrun⟩
    | burst ho hrun => exact absurd hrun (hw.orderly.not_burst ho _ _)
    | use hc => exact haside (.of_same rfl (.refl _))
    | leave ho hb => exact haside (.of_same rfl (.refl _))
    | notice hn =>
      obtain ⟨c, c', hc, hperm, rfl⟩ := Scheduler.stepNotice_eq_some hn
      refine haside (.of_same rfl ?_)
      rw [hc]
      exact hperm.symm
    | dismiss ho => exact haside (aside_dismiss w)
    | unbind ho hu => exact haside (.of_unbound (Scheduler.binding_unbind hu))
    | beginShutDown ho hs => exact haside (aside_beginShutDown hs)
    | finishShutDown ho hf => exact haside (aside_finishShutDown hf)

end World

/-! ### What all histories have in common -/

/-- What threads share and have to do in a tenure, with its history. -/
def Tenure.scene (t : Tenure α) (s : Scheduler α) (b : Binding α) (T : List (Deed α)) : Scene α :=
  ⟨t.graph, t.requests, t.cancelled, t.executed, b, s.threads.load, T⟩

namespace Tenure.Running

variable {t : Tenure α} {k : Strategy} {s s' : Scheduler α} {owner : Owner} {b : Binding α}
  {taken : List (CellId × RunOutcome α)} {P : Scene α → Prop} {T : List (Deed α)}

/-- The scene of a tenure is sound as long as the graph is bound. -/
theorem scene_sound (h : t.Running k s owner taken b) (T : List (Deed α)) :
    (t.scene s b T).Sound k where
  frozen := h.frozen
  size := h.size
  sound := by
    obtain ⟨closed, launched, post, hsound, -⟩ := h.sound
    exact ⟨_, closed, launched, post, hsound⟩

/-- A thread performs an operation of its execution. -/
theorem scene_advance (h : t.Running k s owner taken b) (hk : s.threads.strategy = k)
    (hP : Stable k P) {i : Nat} {x : Execution α} (hx : s.threads.execution? i = some x)
    (hcan : x.canAdvance b = true)
    (hs' : s' = { s with
        threads := s.threads.put i (x.advance s.threads.strategy b).binding.graph x
          (x.advance s.threads.strategy b).ready
          (Scheduler.absorb s.futures (x.advance s.threads.strategy b)).2
        binding := some (x.advance s.threads.strategy b).binding
        futures := (Scheduler.absorb s.futures (x.advance s.threads.strategy b)).1 })
    (hp : P (t.scene s b T)) :
    P (({ t with executed := t.executed ++ s.fired s' i } : Tenure α).scene s'
      (x.advance k b).binding (T ++ x.deeds k b)) := by
  obtain ⟨hfired, rest, hload, hperm⟩ := h.operation hk hx hcan hs'
  obtain ⟨closed, launched, post, hsound, -⟩ := h.sound
  have hadvanced := hP.advance (s := { t.scene s b T with load := x :: rest })
    ⟨h.frozen, h.size, _, closed, launched, post, hsound.perm hload⟩ rfl hcan
    (fun r hr => h.docket.not_open hr) (hP.perm hload hp)
  subst hk
  rw [hfired]
  exact hP.perm hperm.symm hadvanced

/-- A run is accepted. -/
theorem scene_accept (h : t.Running k s owner taken b) (hk : s.threads.strategy = k)
    (hP : Stable k P) (hb : s.binding = some b) (ho : owner = .free)
    {inputs : List (NodeId × α)} {staged : Staged α} {run : ObjectId} {cell : CellId}
    {b' : Binding α} (hi : b.graph.stageInputs inputs = .ok staged)
    (hs : s.run inputs = .accepted s' run cell) (hb' : s'.binding = some b')
    (hp : P (t.scene s b T)) :
    P (({ t with tickets := t.tickets ++ [⟨run, staged, cell⟩] } : Tenure α).scene s' b'
      (T ++ b.admission k staged cell)) := by
  obtain ⟨closed, launched, post, hsound, hclosed⟩ := h.sound
  subst hk
  unfold Scheduler.run at hs
  split at hs
  · cases hs
  next hshut =>
  obtain rfl : closed = false := by
    by_contra hc
    rcases hclosed (by simpa using hc) with ho' | hs'
    · exact ho' ho
    · exact hshut hs'
  simp only [hb] at hs
  split at hs
  · cases hs
  · cases hs
  next b'' run' tasks hsub =>
  obtain ⟨rfl, rfl, rfl⟩ := Scheduler.RunAnswer.accepted.inj hs
  obtain rfl := Option.some.inj hb'
  have hcancelled : ∀ r ∈ t.cancelled, r < t.requests.length := fun r hr => by
    rw [Tenure.requests, List.length_map]
    exact h.cancelled_lt r hr
  have haccepted :=
    hP.accept (s := t.scene s b T) h.frozen h.size hsound h.crowded hcancelled hi hsub hp
  have hrequests : ({ t with tickets := t.tickets ++ [⟨run', staged, s.futures.nextCell⟩] } :
      Tenure α).requests = t.requests ++ [⟨staged, s.futures.nextCell⟩] := by
    simp [Tenure.requests]
  simp only [Tenure.scene, hrequests] at haccepted ⊢
  exact hP.perm (s.threads.perm_inject tasks).symm haccepted

end Tenure.Running

namespace World

variable {k : Strategy} {w w' : World α} {T : List (Deed α)}

/-- **What every change keeps holds of all histories**, as long as the graph is bound. -/
theorem Recorded.holds {P : Scene α → Prop} (hP : Stable k P) (h : w.Recorded k T) :
    ∀ {b}, w.scheduler.binding = some b →
      ∃ t ts, w.tenures = t :: ts ∧ P (t.scene w.scheduler b T) := by
  induction h with
  | start h =>
    intro b hb
    obtain ⟨t, ts, hts, -⟩ := (Reachable.start h).orderly.bound hb
    cases hts
  | @thread w T i choice s h hs ih =>
    intro b' hb'
    rcases Scheduler.step_eq_some hs with
      ⟨c, c', hc, hx, hstep, rfl⟩ | ⟨x, b, hx, hb, hcan, hs'⟩
    · -- a worker has looked for tasks
      obtain ⟨t, ts, hts, hp⟩ := ih hb'
      have hfired : ∀ s', w.scheduler.fired s' i = [] := by
        simp [Scheduler.fired, hc, Threads.execution?, hx]
      have hdeeds : w.scheduler.deeds i = [] := by
        simp [Scheduler.deeds, hc, Threads.execution?, hx]
      refine ⟨t, ts, by simp [record, hts, hfired], ?_⟩
      rw [hdeeds, List.append_nil]
      refine hP.perm (s := t.scene w.scheduler b' T) ?_ hp
      show w.scheduler.threads.load.Perm _
      rw [hc]
      exact (Crew.perm_advance hstep).symm
    · obtain ⟨t, ts, hts, hp⟩ := ih hb
      have horderly := h.reachable.orderly
      have hdeeds : w.scheduler.deeds i = x.deeds k b := by
        simp only [Scheduler.deeds, hx, hb, horderly.strategy]
      have hbinding : b' = (x.advance k b).binding := by
        rw [show (w.record s _).scheduler.binding = s.binding from rfl, hs'] at hb'
        rw [← horderly.strategy]
        exact (Option.some.inj hb').symm
      refine ⟨{ t with executed := t.executed ++ w.scheduler.fired s i }, ts,
        by simp only [record, hts, List.modifyHead_cons], ?_⟩
      rw [hdeeds, hbinding]
      exact (horderly.running hb hts).scene_advance horderly.strategy hP hx hcan hs' hp
  | @bind w T g s b h ho hg hs hb ih =>
    intro b' hb'
    obtain rfl := Option.some.inj (hb.symm.trans hb')
    have horderly := h.reachable.orderly
    obtain ⟨hnone, -, -, -, hnew, hfirst⟩ := Scheduler.bind_eq_ok hs hb
    have hload := hfirst (horderly.unbound hnone).1
    rw [horderly.strategy] at hload
    obtain ⟨hfrozen, -, -, -, -, -, hsound⟩ := Sound.bind hg.linked hnew k
    refine ⟨_, w.tenures, rfl, ?_⟩
    have hfirst : ({ graph := b.graph } : Tenure α).scene s b [] = .first k b := by
      simp only [Tenure.scene, Scene.first, hload]
      rfl
    show P (({ graph := b.graph } : Tenure α).scene s b [])
    rw [hfirst]
    exact hP.first hfrozen hsound
  | @accept w T inputs b staged s run cell h ho hb hi hs ih =>
    intro b' hb'
    obtain ⟨t, ts, hts, hp⟩ := ih hb
    have horderly := h.reachable.orderly
    refine ⟨{ t with tickets := t.tickets ++ [⟨run, staged, cell⟩] }, ts,
      by simp only [record, hts, List.modifyHead_cons], ?_⟩
    exact (horderly.running hb hts).scene_accept horderly.strategy hP hb ho hi hs hb' hp
  | @aside w w' T h hs ha ih =>
    intro b' hb'
    obtain ⟨b, hb, hstatuses, htally⟩ := ha.binding hb'
    obtain ⟨t, ts, hts, hp⟩ := ih hb
    obtain ⟨t', hts', hgraph, htickets, hexecuted, hwaits⟩ := ha.tenures hts
    have hrequests : t'.requests = t.requests := by rw [Tenure.requests, htickets]; rfl
    refine ⟨t', ts, hts', hP.aside (s := t.scene w.scheduler b T) ⟨hgraph, ?_, fun r => ?_,
      hexecuted, hstatuses, htally, ha.load (by rw [hb']; rfl), rfl⟩ hp⟩
    · show t.requests <+: t'.requests
      exact hrequests.symm ▸ List.prefix_rfl
    · have hsame := hwaits (by rw [hb']; rfl) r
      simp only [Scheduler.waiting, hb, hb'] at hsame
      refine hsame.trans (or_iff_left fun hr => ?_).symm
      have hlt : r < t'.requests.length := hr.2
      rw [hrequests] at hlt
      exact Nat.not_lt.mpr hr.1 hlt

/-- What every change keeps holds of the history also when the graph was given back. -/
theorem Recorded.trail {P : Scene α → Prop} {Q : List (Deed α) → Prop} (hP : Stable k P)
    (hQ : ∀ s, P s → Q s.trail) (hnil : Q []) (h : w.Recorded k T) : Q T := by
  have hbound : ∀ {w : World α} {T} {b}, w.Recorded k T → w.scheduler.binding = some b → Q T := by
    intro w T b h hb
    obtain ⟨t, ts, -, hp⟩ := h.holds hP hb
    exact hQ _ hp
  induction h with
  | start h => exact hnil
  | @thread w T i choice s h hs ih =>
    cases hb : w.scheduler.binding with
    | none =>
      have hdeeds : w.scheduler.deeds i = [] := by
        unfold Scheduler.deeds
        rw [hb]
        cases w.scheduler.threads.execution? i <;> rfl
      rw [hdeeds, List.append_nil]
      exact ih
    | some b =>
      rcases Scheduler.step_eq_some hs with ⟨c, c', -, -, -, he⟩ | ⟨x, b', -, -, -, he⟩
      · exact hbound (h.thread hs) (show s.binding = _ by rw [he]; exact hb)
      · exact hbound (h.thread hs) (show s.binding = _ by rw [he])
  | bind h ho hg hs hb ih => exact hnil
  | @accept w T inputs b staged s run cell h ho hb hi hs ih =>
    obtain ⟨b', hb'⟩ := Scheduler.binding_run hs
    exact hbound (h.accept ho hb hi hs) hb'
  | aside h hs ha ih => exact ih

end World

end Dataflow
