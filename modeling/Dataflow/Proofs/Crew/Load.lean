import Mathlib.Data.List.Perm.Basic
import Dataflow.Crew.Basic

/-!
# What a crew has to do

The tasks of a crew are in its injector, in the deques, and in the hands of workers that
have found one and not yet started it; the executions are in the hands of busy workers.
`Crew.load` lists all of this, tasks as the executions they will be. Nothing gets lost and
nothing is doubled when workers look for tasks, steal them, notify each other or sleep:
`Crew.advance` permutes the load (`Crew.perm_advance`), and so does a notification from
outside. A busy worker replaces its execution, and adds the tasks that became ready.
-/

namespace Dataflow

variable {τ ξ : Type}

/-- The tasks in the hands of a worker that makes a notification. -/
def Errand.tasks : Errand τ → List τ
  | .work task => [task]
  | .activate task => [task]
  | .quit => []

/-- What a worker has in its hands. -/
def WorkerStage.load (start : τ → ξ) : WorkerStage τ ξ → List ξ
  | .running x => [x]
  | .found task => [start task]
  | .notifying _ errand => errand.tasks.map start
  | .activating task => [start task]
  | .checkingThieves task => [start task]
  | _ => []

def Worker.load (start : τ → ξ) (w : Worker τ ξ) : List ξ :=
  w.stage.load start ++ w.deque.map start

namespace Crew

/-- **The load of a crew.** -/
def load (start : τ → ξ) (c : Crew τ ξ) : List ξ :=
  c.injector.map start ++ c.workers.toList.flatMap (·.load start)

variable {start : τ → ξ} {c c' : Crew τ ξ} {i j : Nat} {w : Worker τ ξ}

/-! ### One worker at a time -/

variable (start) in
/-- Changing one worker changes its share only. -/
theorem perm_modify (hw : c.workers[i]? = some w) : ∃ others : List ξ,
    (c.load start).Perm (c.injector.map start ++ (w.load start ++ others)) ∧
      ∀ (f : Worker τ ξ → Worker τ ξ) (injector : List τ),
        ({ c with injector, workers := c.workers.modify i f }.load start).Perm
          (injector.map start ++ ((f w).load start ++ others)) := by
  obtain ⟨hi, hget⟩ := Array.getElem?_eq_some_iff.mp hw
  have hi' : i < c.workers.toList.length := by simpa using hi
  have hget' : c.workers.toList[i] = w := by simpa using hget
  have hsplit : c.workers.toList =
      c.workers.toList.take i ++ w :: c.workers.toList.drop (i + 1) := by
    rw [← hget', List.getElem_cons_drop, List.take_append_drop]
  let before : List ξ := (c.workers.toList.take i).flatMap (·.load start)
  let behind : List ξ := (c.workers.toList.drop (i + 1)).flatMap (·.load start)
  refine ⟨before ++ behind, ?_, fun f injector => ?_⟩
  · rw [load, congrArg (List.flatMap _) hsplit, List.flatMap_append, List.flatMap_cons]
    exact .append_left _ (List.perm_append_comm_assoc ..)
  · have hmod : (c.workers.modify i f).toList =
        c.workers.toList.take i ++ f w :: c.workers.toList.drop (i + 1) := by
      rw [Array.toList_modify, List.modify_eq_take_cons_drop hi', hget']
    rw [load, hmod, List.flatMap_append, List.flatMap_cons]
    exact .append_left _ (List.perm_append_comm_assoc ..)

/-- A worker may go on with the same in its hands. -/
theorem perm_setStage (hw : c.workers[i]? = some w) {s : WorkerStage τ ξ}
    (hs : s.load start = w.stage.load start) :
    ((c.setStage i s).load start).Perm (c.load start) := by
  obtain ⟨others, hold, hnew⟩ := perm_modify start hw
  refine (hnew _ c.injector).trans (.trans (.of_eq ?_) hold.symm)
  rw [Worker.load, Worker.load, hs]

variable (start) in
/-- Whoever sleeps has nothing in his hands. -/
theorem load_rouse (w : Worker τ ξ) : w.rouse.load start = w.load start := by
  unfold Worker.load Worker.rouse WorkerStage.rouse
  cases w.stage <;> rfl

/-! ### Notifications -/

/-- Some workers may have been woken, and nothing else has happened to any of them. -/
structure Rouses (start : τ → ξ) (c c' : Crew τ ξ) : Prop where
  perm : (c'.load start).Perm (c.load start)
  worker : ∀ {i : Nat} {w : Worker τ ξ}, c.workers[i]? = some w →
    ∃ w' : Worker τ ξ, c'.workers[i]? = some w' ∧ (w' = w ∨ w' = w.rouse)

theorem Rouses.refl (start : τ → ξ) (c : Crew τ ξ) : c.Rouses start c where
  perm := .refl _
  worker := fun hw => ⟨_, hw, Or.inl rfl⟩

variable (start) in
theorem rouses_signal {all : Bool} {target : Option Nat} (h : c.signal all target = some c') :
    c.Rouses start c' := by
  cases all with
  | true =>
    obtain rfl := Option.some.inj h
    refine ⟨.of_eq ?_, fun {i w} hw => ⟨w.rouse, by simp [hw], Or.inr rfl⟩⟩
    simp only [load, Array.toList_map, List.flatMap_map, load_rouse]
  | false =>
    cases target with
    | none =>
      obtain ⟨-, rfl⟩ : c.sleeper? = none ∧ c = c' := by simpa [signal] using h
      exact .refl start c
    | some j =>
      obtain ⟨hj, rfl⟩ : c.workers[j]?.any (·.isAsleep) = true ∧
          { c with workers := c.workers.modify j (·.rouse) } = c' := by simpa [signal] using h
      cases hv : c.workers[j]? with
      | none => simp [hv] at hj
      | some v =>
        obtain ⟨others, hold, hnew⟩ := perm_modify start hv
        refine ⟨(hnew _ _).trans ((load_rouse start v) ▸ hold.symm), fun {i w} hw => ?_⟩
        simp only [Array.getElem?_modify, hw]
        split
        · exact ⟨w.rouse, rfl, Or.inr rfl⟩
        · exact ⟨w, rfl, Or.inl rfl⟩

variable (start) in
theorem rouses_notify {n : Notice} {choice : Choice} {next : Option Notice}
    (h : c.notify n choice = some (c', next)) : c.Rouses start c' := by
  have hevents : ∀ e, c.Rouses start { c with events := e } :=
    fun _ => ⟨.refl _, fun hw => ⟨_, hw, Or.inl rfl⟩⟩
  cases n with
  | signalling all =>
    cases choice with
    | wake target =>
      obtain ⟨c₁, hs, he⟩ := Option.map_eq_some_iff.mp h
      obtain rfl := (Prod.mk.inj he).1
      have hr := rouses_signal start hs
      exact ⟨hr.perm, hr.worker⟩
    | _ => simp [notify] at h
  | bumping all =>
    cases choice with
    | go =>
      obtain ⟨rfl, -⟩ := Prod.mk.inj (Option.some.inj h)
      exact hevents _
    | _ => simp [notify] at h
  | looking all =>
    cases choice with
    | go =>
      obtain ⟨rfl, -⟩ := Prod.mk.inj (Option.some.inj h)
      exact hevents _
    | _ => simp [notify] at h

/-- **A notification from outside** keeps the load. -/
theorem perm_advanceNotice {k : Nat} {choice : Choice} (h : c.advanceNotice k choice = some c') :
    (c'.load start).Perm (c.load start) := by
  unfold advanceNotice at h
  split at h
  · cases h
  · split at h
    · cases h
    · next hn =>
      obtain rfl := Option.some.inj h
      exact (rouses_notify start hn).perm
    · next hn =>
      obtain rfl := Option.some.inj h
      exact (rouses_notify start hn).perm

/-! ### Looking for tasks -/

/-- Tasks are taken out of the injector and one deque, and others are moved. -/
theorem perm_setDeque (hw : c.workers[i]? = some w) (tasks injector : List τ) {deque : List τ}
    (h : (c.injector ++ w.deque).Perm (tasks ++ (injector ++ deque))) :
    (c.load start).Perm
      (tasks.map start ++ ({ c with injector }.setDeque i deque).load start) := by
  classical
  obtain ⟨others, hold, hnew⟩ := perm_modify start hw
  refine List.perm_iff_count.mpr fun x => ?_
  have h₁ := hold.count_eq x
  have h₂ := (hnew (fun w => { w with deque }) injector).count_eq x
  have h₃ := (h.map start).count_eq x
  simp only [Worker.load, List.map_append, List.count_append] at h₁ h₂ h₃ ⊢
  simp only [setDeque]
  omega

/-- A worker whose hands are empty gets something to do. -/
theorem perm_find (hw : c.workers[i]? = some w) (hs : w.stage.load start = [])
    {s : WorkerStage τ ξ} {x : ξ} (h : s.load start = [x]) :
    ((c.setStage i s).load start).Perm (x :: c.load start) := by
  obtain ⟨others, hold, hnew⟩ := perm_modify start hw
  refine (hnew (fun w => { w with stage := s }) c.injector).trans ?_
  rw [Worker.load, hs, List.nil_append] at hold
  rw [Worker.load, h, List.append_assoc]
  exact List.perm_middle.trans (.cons _ hold.symm)

/-- **A thief takes tasks away** from the injector or from another worker. -/
theorem perm_steal {choice : Choice} (hw : c.workers[i]? = some w)
    (hs : w.stage.load start = []) (h : c.steal i choice = some c') :
    (c'.load start).Perm (c.load start) := by
  cases choice with
  | fromInjector more =>
    cases hinj : c.injector with
    | nil => simp [steal, hinj] at h
    | cons task rest =>
      simp only [steal, hinj, hw, Option.map_some, Option.getD_some, Option.some.injEq] at h
      rw [← h]
      refine (perm_find (w := { w with deque := rest.take more ++ w.deque })
        (by simp [setDeque, Array.getElem?_modify, hw]) hs
        rfl).trans (perm_setDeque hw [task] _ ?_).symm
      rw [hinj, ← List.append_assoc (rest.drop more), List.singleton_append, List.cons_append]
      refine .cons _ (.append_right _ ?_)
      exact .trans (.of_eq (List.take_append_drop more rest).symm) List.perm_append_comm
  | fromWorker victim =>
    by_cases hv : victim = i
    · simp [steal, hv] at h
    · simp only [steal, if_neg hv] at h
      split at h
      · cases h
      · next task htask =>
        obtain ⟨v, hvw, hlast⟩ := Option.bind_eq_some_iff.mp htask
        simp only [hvw, Option.map_some, Option.getD_some, Option.some.injEq] at h
        rw [← h]
        have hdeque : v.deque = v.deque.dropLast ++ [task] :=
          (List.dropLast_append_getLast? task hlast).symm
        refine (perm_find (w := w) (by simp [setDeque, Array.getElem?_modify, hv, hw]) hs
          rfl).trans (perm_setDeque hvw [task] _ ?_).symm
        rw [← List.append_assoc, List.singleton_append]
        exact .trans (.append_left _ (.of_eq hdeque)) (by
          rw [← List.append_assoc]
          exact List.perm_append_singleton ..)
  | giveUp =>
    obtain rfl := Option.some.inj h
    exact perm_setStage hw hs.symm
  | go => cases h
  | wake sleeper => cases h

/-! ### The operations of an idle worker -/

/-- A worker changes its stage, and has the same in its hands; the notifications and the
counters may change with it. -/
theorem perm_restage (hw : c.workers[i]? = some w) (hinj : c'.injector = c.injector)
    (hworkers : c'.workers = c.workers) {s : WorkerStage τ ξ}
    (hs : s.load start = w.stage.load start) :
    ((c'.setStage i s).load start).Perm (c.load start) := by
  refine (perm_setStage (hworkers ▸ hw) hs).trans (.of_eq ?_)
  rw [load, load, hinj, hworkers]

/-- A worker whose notification has got one operation further, which may have woken it. -/
theorem perm_notify (hw : c.workers[i]? = some w) {n : Notice} {errand : Errand τ}
    (hs : w.stage = .notifying n errand) {choice : Choice} {next : Option Notice}
    (h : c.notify n choice = some (c', next)) {s : WorkerStage τ ξ}
    (hload : s.load start = w.stage.load start) :
    ((c'.setStage i s).load start).Perm (c.load start) := by
  have hr := rouses_notify start h
  obtain ⟨w', hw', hcase⟩ := hr.worker hw
  -- only a sleeper is roused, and this worker is not one
  have hstage : w'.stage = w.stage := by
    rcases hcase with rfl | rfl
    · rfl
    · rw [Worker.rouse, hs]
      rfl
  exact (perm_setStage hw' (by rw [hload, hstage])).trans hr.perm

/-- The load of the errand that a notification is for. -/
theorem load_afterNotice (n : Notice) (errand : Errand τ) :
    (afterNotice start errand).load start =
      (WorkerStage.notifying n errand : WorkerStage τ ξ).load start := by
  cases errand <;> rfl

/-- A worker that registered as a sleeper takes a task from the injector. -/
theorem perm_grab (hw : c.workers[i]? = some w) (hs : w.stage.load start = []) {task : τ}
    {rest : List τ} (hinj : c.injector = task :: rest) :
    (({ c with injector := rest }.setStage i (.found task)).load start).Perm (c.load start) := by
  refine (perm_find (c := { c with injector := rest }) hw hs rfl).trans ?_
  simp only [load, hinj, List.map_cons, List.cons_append]
  exact .refl _

/-- A busy worker takes a task from its own deque. -/
theorem perm_pop (hw : c.workers[i]? = some w) (hs : w.stage.load start = []) {task : τ}
    {rest : List τ} (hdeque : w.deque = task :: rest) :
    (((c.setDeque i rest).setStage i (.running (start task))).load start).Perm
      (c.load start) := by
  have hpopped : (c.setDeque i rest).workers[i]? = some { w with deque := rest } := by
    simp [setDeque, Array.getElem?_modify, hw]
  refine (perm_find hpopped hs rfl).trans (perm_setDeque hw [task] c.injector ?_).symm
  rw [hdeque]
  exact List.perm_middle

/-- **Whatever an idle worker does, the load stays as it is.** -/
theorem perm_advance {choice : Choice} (h : c.advance start i choice = some c') :
    (c'.load start).Perm (c.load start) := by
  cases hw : c.workers[i]? with
  | none => simp [advance, hw] at h
  | some w =>
    simp only [advance, hw] at h
    cases hs : w.stage with
    | exploring =>
      simp only [hs] at h
      exact perm_steal hw (by rw [hs]; rfl) h
    | notifying n errand =>
      simp only [hs] at h
      split at h
      · cases h
      · next hn =>
        obtain rfl := Option.some.inj h
        exact perm_notify hw hs hn (by rw [hs]; cases errand <;> rfl)
      · next hn =>
        obtain rfl := Option.some.inj h
        exact perm_notify hw hs hn (by rw [hs, load_afterNotice])
    | withdrawing why =>
      cases choice with
      | go =>
        simp only [hs, Option.some.injEq] at h
        rw [← h]
        exact perm_restage hw rfl rfl (by rw [hs]; cases why <;> rfl)
      | _ => simp [hs] at h
    | grabbing =>
      cases choice with
      | go =>
        simp only [hs] at h
        split at h
        · obtain rfl := Option.some.inj h
          exact perm_restage hw rfl rfl (by rw [hs]; rfl)
        · next hinj =>
          obtain rfl := Option.some.inj h
          exact perm_grab hw (by rw [hs]; rfl) hinj
      | _ => simp [hs] at h
    | popping =>
      cases choice with
      | go =>
        simp only [hs] at h
        split at h
        · obtain rfl := Option.some.inj h
          exact perm_restage hw rfl rfl (by rw [hs]; rfl)
        · next hdeque =>
          obtain rfl := Option.some.inj h
          exact perm_pop hw (by rw [hs]; rfl) hdeque
      | _ => simp [hs] at h
    | parking p =>
      -- a sleeper may be woken by nobody; the other operations of a parked worker are its own
      cases p with
      | asleep ticket =>
        cases choice with
        | wake sleeper =>
          cases sleeper with
          | none =>
            simp only [hs, Option.some.injEq] at h
            rw [← h]
            exact perm_restage hw rfl rfl (by rw [hs]; rfl)
          | some j => simp [hs] at h
        | _ => simp [hs] at h
      | _ =>
        cases choice with
        | go =>
          simp only [hs, Option.some.injEq] at h
          rw [← h]
          exact perm_restage hw rfl rfl (by rw [hs]; rfl)
        | _ => simp [hs] at h
    | running x => cases choice <;> simp [hs] at h
    | ended => cases choice <;> simp [hs] at h
    | _ =>
      -- an operation on the counters and the registrations, which hold no tasks
      cases choice with
      | go =>
        simp only [hs, Option.some.injEq] at h
        rw [← h]
        refine perm_restage hw rfl rfl ?_
        rw [hs]
        first
          | rfl
          | split <;> rfl
      | _ => simp [hs] at h

/-! ### Tasks from outside, and busy workers -/

theorem perm_inject (c : Crew τ ξ) (tasks : List τ) :
    ((c.inject tasks).load start).Perm (tasks.map start ++ c.load start) := by
  simp only [load, inject, List.map_append, List.append_assoc]
  exact List.perm_append_comm_assoc ..

theorem load_stop (c : Crew τ ξ) : c.stop.load start = c.load start := rfl

theorem load_new (workers : Nat) : (new workers : Crew τ ξ).load start = [] := by
  simp [load, new, Worker.load, WorkerStage.load]

/-- Whatever is to be done was started by some worker, or is queued. -/
theorem mem_load {y : ξ} (h : y ∈ c.load start) : y ∈ c.executions ∨ ∃ t, y = start t := by
  rcases List.mem_append.mp h with h | h
  · obtain ⟨t, -, rfl⟩ := List.mem_map.mp h
    exact Or.inr ⟨t, rfl⟩
  · obtain ⟨w, hw, hy⟩ := List.mem_flatMap.mp h
    rcases List.mem_append.mp hy with hy | hy
    · cases hs : w.stage with
      | running x =>
        obtain rfl : y = x := by simpa [WorkerStage.load, hs] using hy
        exact Or.inl (List.mem_filterMap.mpr ⟨w, hw, by simp [Worker.execution?, hs]⟩)
      | notifying n errand =>
        rw [hs] at hy
        obtain ⟨t, -, rfl⟩ := List.mem_map.mp hy
        exact Or.inr ⟨t, rfl⟩
      | found task => exact Or.inr ⟨task, by simpa [WorkerStage.load, hs] using hy⟩
      | activating task => exact Or.inr ⟨task, by simpa [WorkerStage.load, hs] using hy⟩
      | checkingThieves task => exact Or.inr ⟨task, by simpa [WorkerStage.load, hs] using hy⟩
      | _ => simp [WorkerStage.load, hs] at hy
    · obtain ⟨t, -, rfl⟩ := List.mem_map.mp hy
      exact Or.inr ⟨t, rfl⟩

theorem exists_of_execution {x : ξ} (h : c.execution? i = some x) :
    ∃ w : Worker τ ξ, c.workers[i]? = some w ∧ w.stage = .running x := by
  obtain ⟨w, hw, hx⟩ := Option.bind_eq_some_iff.mp h
  refine ⟨w, hw, ?_⟩
  unfold Worker.execution? at hx
  split at hx
  · next hs => rw [hs, Option.some.inj hx]
  · cases hx

theorem setStage_push (c : Crew τ ξ) (i : Nat) (tasks : List τ) (s : WorkerStage τ ξ) :
    (c.push i tasks).setStage i s =
      { c with workers := c.workers.modify i fun w => ⟨tasks.reverse ++ w.deque, s⟩ } := by
  have hw : (c.push i tasks).workers.modify i (fun w => { w with stage := s }) =
      c.workers.modify i fun w => ⟨tasks.reverse ++ w.deque, s⟩ := by
    refine Array.ext_getElem? fun j => ?_
    simp only [push, Array.getElem?_modify]
    split
    · rw [Option.map_map]
      rfl
    · rfl
  simp only [setStage, hw]
  rfl

variable (start) in
/-- **A busy worker replaces its execution**, and keeps the tasks that became ready. -/
theorem perm_busy {x : ξ} (h : c.execution? i = some x) : ∃ rest : List ξ,
    (c.load start).Perm (x :: rest) ∧ ∀ (tasks : List τ) (s : WorkerStage τ ξ),
      (((c.push i tasks).setStage i s).load start).Perm
        (s.load start ++ tasks.map start ++ rest) := by
  classical
  obtain ⟨w, hw, hs⟩ := exists_of_execution h
  obtain ⟨others, hold, hnew⟩ := perm_modify start hw
  refine ⟨c.injector.map start ++ (w.deque.map start ++ others), ?_, fun tasks s => ?_⟩
  · refine hold.trans ?_
    rw [Worker.load, hs]
    exact List.perm_middle
  · rw [setStage_push]
    refine (hnew (fun w => ⟨tasks.reverse ++ w.deque, s⟩) c.injector).trans ?_
    refine List.perm_iff_count.mpr fun y => ?_
    simp only [Worker.load, List.map_append, List.map_reverse, List.count_append,
      List.count_reverse]
    omega

end Crew

end Dataflow
