import Dataflow.Proofs.Engine.Launch

/-!
# What is done on behalf of runs

The history of a binding is a list of deeds in the order in which they are done. A slot is
reset for a run, and the outcome of the run is taken out of it; a node is queued for
the run that a slot holds; and executions access what their run shares with others.
`Execution.deeds` says which deeds an operation of an execution consists of, read off what
the operation finds and leads to.

What is said of a history is said of a deed and of what came before it, `Conforms`. So it
matters which deed of a certain kind was the last one, `Latest`: a slot is in the hands of
the run that it was last reset for unless the outcome of that run was taken
(`Deed.Held`), and a task belongs to the run that it was last queued for
(`Deed.Errand`).
-/

namespace Dataflow

variable {α : Type}

/-! ### Deeds -/

/-- What an execution does on behalf of its run. -/
inductive Act (α : Type) where
  /-- Find out which run the slot holds, or which slot the run holds. -/
  | start
  | take (c : Channel)
  /-- Read whether the run has failed. -/
  | look
  /-- Enter the callback. -/
  | call (inputs : List α)
  /-- Count the execution; its callback has come to an end, or is not called. -/
  | fire (called : Bool)
  | record
  | publish (c : Channel)
  | release (successor : NodeId)
  | finish
  | complete

/-- One entry of a history. -/
inductive Deed (α : Type) where
  /-- The slot is prepared for the run. -/
  | reset (seat : Seat)
  /-- The outcome of the run is taken out of the slot. -/
  | taken (seat : Seat)
  /-- The task is handed out to workers for the run. -/
  | queued (task : Task) (run : ObjectId)
  /-- A node does something for a run, in a slot unless the node does not know the slot. -/
  | did (slot : Option SlotId) (run : ObjectId) (node : NodeId) (act : Act α)

namespace Deed

/-- A slot is reset for a run, and the tasks that are ready at once are handed out. -/
def launch (seat : Seat) (tasks : List Task) : List (Deed α) :=
  .reset seat :: tasks.map (.queued · seat.run)

end Deed

namespace Execution

/-- A task is told from its execution. -/
theorem ofTask_injective : Function.Injective (ofTask : Task → Execution α) := by
  rintro ⟨v, σ⟩ ⟨v', σ'⟩ h
  simpa [ofTask] using h

/-- What an execution does in the slot of its run. -/
def did (x : Execution α) (seat : Seat) (act : Act α) : Deed α :=
  .did (some seat.slot) seat.run x.node act

/-- **What the next operation of an execution does**, in order. -/
def deeds [Payload α] (k : Strategy) (b : Binding α) (x : Execution α) : List (Deed α) :=
  let a := x.advance k b
  match x.stage with
  | .opening slot =>
    match b.table.statuses[slot]? with
    | some s => [x.did ⟨slot, s.objectId⟩ .start]
    | none => []
  | .claiming seat _ (c :: _) => [x.did seat (.take c)]
  | .awaiting _ _ (c :: _) =>
    match (b.graph.pool? c).bind (·.pop) with
    | some (some y, _) => [.did none y.objectId x.node (.take c)]
    | _ => []
  | .locating run _ =>
    match b.table.slotOf? run with
    | some slot => [x.did ⟨slot, run⟩ .start]
    | none => []
  | .entering seat _ =>
    match a.stage with
    | .working _ xs _ => [x.did seat .look, x.did seat (.call xs)]
    | _ => [x.did seat .look, x.did seat (.fire false)]
  | .working seat _ (.done _) => [x.did seat (.fire true)]
  | .recording seat _ => [x.did seat .record]
  | .publishing seat ((c, e) :: _) _ =>
    match (b.graph.pool? c).bind (·.push ⟨seat.run, e⟩) with
    | some (.ok _) => [x.did seat (.publish c)]
    | _ => []
  | .releasing seat (w :: _) => x.did seat (.release w) :: a.ready.map (.queued · seat.run)
  | .finishing seat => [x.did seat .finish]
  | .completing seat =>
    match b.table.statuses[seat.slot]?, b.table.complete seat.slot with
    | some s, (.ok c, _) =>
      [x.did seat .complete, .taken ⟨seat.slot, s.objectId⟩] ++
        match c.next with
        | none => []
        | some next => Deed.launch ⟨next.slot, next.objectId⟩ a.ready
    | _, _ => [x.did seat .complete]
  | _ => []

end Execution

/-- What the acceptance of a run does. -/
def Binding.admission (k : Strategy) (b : Binding α) (staged : Staged α) (cell : CellId) :
    List (Deed α) :=
  match b.table.submit staged cell with
  | .admitted _ a => Deed.launch ⟨a.slot, a.objectId⟩ (firstTasks k b.graph a.slot)
  | _ => []

/-! ### What came before -/

section Histories

variable {β : Type}

/-- Every element stands in its place, after what came before it. -/
def Conforms (P : List β → β → Prop) (l : List β) : Prop :=
  ∀ past x later, l = past ++ x :: later → P past x

theorem conforms_nil (P : List β → β → Prop) : Conforms P [] := by
  intro past x later h
  simp at h

theorem Conforms.append {P : List β → β → Prop} {l l' : List β} (h : Conforms P l)
    (h' : ∀ past x later, l' = past ++ x :: later → P (l ++ past) x) : Conforms P (l ++ l') := by
  intro past x later he
  rcases List.append_eq_append_iff.mp he with ⟨as, rfl, has⟩ | ⟨cs, hcs, hcs'⟩
  · exact h' as x later has
  · cases cs with
    | nil =>
      rw [List.append_nil] at hcs
      subst hcs
      have hx := h' [] x later hcs'.symm
      rwa [List.append_nil] at hx
    | cons y cs =>
      obtain ⟨rfl, -⟩ := List.cons.inj hcs'
      exact h past x cs hcs

/-- The last element of a kind. -/
def Latest (kind : β → Bool) (l : List β) (x : β) : Prop :=
  ∃ before since, l = before ++ x :: since ∧ kind x = true ∧ ∀ y ∈ since, kind y = false

variable {kind : β → Bool} {l l' : List β} {x y : β}

theorem not_latest_nil : ¬ Latest kind [] x := by
  rintro ⟨before, since, h, -⟩
  simp at h

/-- What is new is the last of its kind, and hides what it is of a kind with. -/
theorem latest_snoc : Latest kind (l ++ [y]) x ↔
    (y = x ∧ kind x = true) ∨ (kind y = false ∧ Latest kind l x) := by
  constructor
  · rintro ⟨before, since, h, hx, hsince⟩
    rcases List.eq_nil_or_concat since with rfl | ⟨since, z, rfl⟩
    · obtain ⟨-, hy⟩ := List.append_inj' h rfl
      exact Or.inl ⟨by simpa using hy, hx⟩
    · rw [List.concat_eq_append, ← List.cons_append, ← List.append_assoc] at h
      obtain ⟨hl, hy⟩ := List.append_inj' h rfl
      obtain rfl : y = z := by simpa using hy
      rw [List.concat_eq_append] at hsince
      exact Or.inr ⟨hsince y (by simp), before, since, hl, hx,
        fun w hw => hsince w (List.mem_append_left _ hw)⟩
  · rintro (⟨rfl, hx⟩ | ⟨hy, before, since, rfl, hx, hsince⟩)
    · exact ⟨l, [], rfl, hx, nofun⟩
    · refine ⟨before, since ++ [y], by simp, hx, fun w hw => ?_⟩
      rcases List.mem_append.mp hw with hw | hw
      · exact hsince w hw
      · rwa [List.mem_singleton.mp hw]

/-- What is of another kind does not matter. -/
theorem latest_append (h : ∀ y ∈ l', kind y = false) :
    Latest kind (l ++ l') x ↔ Latest kind l x := by
  induction l' using List.reverseRecOn with
  | nil => rw [List.append_nil]
  | append_singleton l' y ih =>
    rw [← List.append_assoc, latest_snoc, ih fun z hz => h z (List.mem_append_left _ hz)]
    have hy := h y (by simp)
    constructor
    · rintro (⟨rfl, hx⟩ | ⟨-, hl⟩)
      · rw [hy] at hx
        cases hx
      · exact hl
    · exact fun hl => Or.inr ⟨hy, hl⟩

end Histories

namespace Deed

/-- The deed gives the slot to a run, or takes it back. -/
def touches (slot : SlotId) : Deed α → Bool
  | .reset seat => seat.slot == slot
  | .taken seat => seat.slot == slot
  | _ => false

/-- **The run is in its slot**: the slot was reset for the run, and since then it was neither
reset again nor was the outcome taken out of it. -/
def Held (past : List (Deed α)) (seat : Seat) : Prop :=
  Latest (touches seat.slot) past (.reset seat)

/-- The deed hands out the task. -/
def queues (task : Task) : Deed α → Bool
  | .queued t _ => t == task
  | _ => false

/-- The task was last handed out for this run. -/
def Errand (past : List (Deed α)) (task : Task) (run : ObjectId) : Prop :=
  Latest (queues task) past (.queued task run)

section Reading

variable {past ds : List (Deed α)} {seat seat' : Seat} {task task' : Task} {run run' : ObjectId}
  {σ : SlotId}

theorem held_reset : Held (past ++ [.reset seat']) seat ↔
    seat = seat' ∨ (seat'.slot ≠ seat.slot ∧ Held past seat) := by
  unfold Held
  rw [latest_snoc]
  constructor
  · rintro (⟨he, -⟩ | ⟨hne, h⟩)
    · exact Or.inl (Deed.reset.inj he).symm
    · exact Or.inr ⟨by simpa [touches] using hne, h⟩
  · rintro (rfl | ⟨hne, h⟩)
    · exact Or.inl ⟨rfl, by simp [touches]⟩
    · exact Or.inr ⟨by simpa [touches] using hne, h⟩

theorem held_taken : Held (past ++ [.taken seat']) seat ↔
    seat'.slot ≠ seat.slot ∧ Held past seat := by
  unfold Held
  rw [latest_snoc]
  simp [touches]

theorem held_append (h : ∀ d ∈ ds, d.touches seat.slot = false) :
    Held (past ++ ds) seat ↔ Held past seat :=
  latest_append h

theorem errand_append (h : ∀ d ∈ ds, d.queues task = false) :
    Errand (past ++ ds) task run ↔ Errand past task run :=
  latest_append h

theorem errand_queued : Errand (past ++ [.queued task' run']) task run ↔
    (task = task' ∧ run = run') ∨ (task' ≠ task ∧ Errand past task run) := by
  unfold Errand
  rw [latest_snoc]
  constructor
  · rintro (⟨he, -⟩ | ⟨hne, h⟩)
    · obtain ⟨rfl, rfl⟩ := Deed.queued.inj he
      exact Or.inl ⟨rfl, rfl⟩
    · exact Or.inr ⟨by simpa [queues] using hne, h⟩
  · rintro (⟨rfl, rfl⟩ | ⟨hne, h⟩)
    · exact Or.inl ⟨rfl, by simp [queues]⟩
    · exact Or.inr ⟨by simpa [queues] using hne, h⟩

/-- A task belongs to a run if all deeds that hand it out are for that run. -/
theorem errand_append_of (hr : ∀ r', .queued task r' ∈ ds → r' = run)
    (h : .queued task run ∈ ds ∨ Errand past task run) : Errand (past ++ ds) task run := by
  induction ds using List.reverseRecOn with
  | nil =>
    rw [List.append_nil]
    exact h.resolve_left List.not_mem_nil
  | append_singleton ds d ih =>
    rw [← List.append_assoc]
    by_cases hd : d.queues task = true
    · -- the last deed hands the task out, and so for the run
      cases d with
      | queued t r =>
        obtain rfl : t = task := by simpa [queues] using hd
        obtain rfl := hr r (by simp)
        exact errand_queued.mpr (Or.inl ⟨rfl, rfl⟩)
      | _ => cases hd
    · have hne : d ≠ .queued task run := by
        rintro rfl
        simp [queues] at hd
      rw [errand_append (by simpa using hd)]
      refine ih (fun r' hr' => hr r' (List.mem_append_left _ hr')) ?_
      rcases h with h | h
      · rw [List.mem_append, List.mem_singleton] at h
        exact Or.inl (h.resolve_right hne.symm)
      · exact Or.inr h

/-- When a run is launched, tasks are handed out for it alone. -/
theorem queued_mem_launch {tasks : List Task} :
    (.queued task run : Deed α) ∈ launch seat tasks ↔ task ∈ tasks ∧ run = seat.run := by
  simp only [launch, List.mem_cons, reduceCtorEq, List.mem_map, queued.injEq, false_or]
  constructor
  · rintro ⟨t, ht, rfl, rfl⟩
    exact ⟨ht, rfl⟩
  · rintro ⟨ht, rfl⟩
    exact ⟨task, ht, rfl, rfl⟩

/-- A slot that is reset is in the hands of its run, whatever tasks are handed out. -/
theorem held_launch {tasks : List Task} : Held (past ++ launch seat' tasks) seat ↔
    seat = seat' ∨ (seat'.slot ≠ seat.slot ∧ Held past seat) := by
  have hsplit : past ++ launch seat' tasks =
      past ++ [.reset seat'] ++ tasks.map (.queued · seat'.run) := by
    simp [launch]
  rw [hsplit, held_append, held_reset]
  intro d hd
  obtain ⟨t, -, rfl⟩ := List.mem_map.mp hd
  rfl

end Reading

/-! ### Reading a history -/

/-- The nodes that have begun, each with the run. -/
def starts (T : List (Deed α)) : List (NodeId × ObjectId) :=
  T.filterMap fun
    | .did _ r v .start => some (v, r)
    | _ => none

/-- The nodes that have fired, each with the run. -/
def fires (T : List (Deed α)) : List (NodeId × ObjectId) :=
  T.filterMap fun
    | .did _ r v (.fire _) => some (v, r)
    | _ => none

/-- The callbacks that were entered, each with the run. -/
def calls (T : List (Deed α)) : List (NodeId × ObjectId) :=
  T.filterMap fun
    | .did _ r v (.call _) => some (v, r)
    | _ => none

/-- The callbacks that came to an end, each with the run. -/
def returns (T : List (Deed α)) : List (NodeId × ObjectId) :=
  T.filterMap fun
    | .did _ r v (.fire true) => some (v, r)
    | _ => none

/-- The channels that have got their entries, each with the run. -/
def publications (T : List (Deed α)) : List (Channel × ObjectId) :=
  T.filterMap fun
    | .did _ r _ (.publish c) => some (c, r)
    | _ => none

/-- The runs that slots were reset for. -/
def launched (T : List (Deed α)) : List ObjectId :=
  T.filterMap fun
    | .reset seat => some seat.run
    | _ => none

/-- The runs whose outcomes were taken. -/
def ended (T : List (Deed α)) : List ObjectId :=
  T.filterMap fun
    | .taken seat => some seat.run
    | _ => none

section Readings

variable {T T' : List (Deed α)} {v : NodeId} {r : ObjectId}

theorem launched_append : launched (T ++ T') = launched T ++ launched T' := List.filterMap_append

theorem starts_append : starts (T ++ T') = starts T ++ starts T' := List.filterMap_append

theorem fires_append : fires (T ++ T') = fires T ++ fires T' := List.filterMap_append

theorem calls_append : calls (T ++ T') = calls T ++ calls T' := List.filterMap_append

theorem returns_append : returns (T ++ T') = returns T ++ returns T' := List.filterMap_append

theorem publications_append : publications (T ++ T') = publications T ++ publications T' :=
  List.filterMap_append

theorem ended_append : ended (T ++ T') = ended T ++ ended T' := List.filterMap_append

theorem mem_fires :
    (v, r) ∈ fires T ↔ ∃ slot called, .did slot r v (.fire called) ∈ T := by
  unfold fires
  rw [List.mem_filterMap]
  grind

theorem mem_calls :
    (v, r) ∈ calls T ↔ ∃ slot inputs, .did slot r v (.call inputs) ∈ T := by
  unfold calls
  rw [List.mem_filterMap]
  grind

theorem mem_ended : r ∈ ended T ↔ ∃ σ, .taken ⟨σ, r⟩ ∈ T := by
  unfold ended
  rw [List.mem_filterMap]
  grind [cases Seat]

/-- When a run is launched, nodes do nothing yet. -/
theorem filterMap_launch {β : Type} {f : Deed α → Option β} (hr : ∀ seat, f (.reset seat) = none)
    (hq : ∀ t r, f (.queued t r) = none) (seat : Seat) (tasks : List Task) :
    (launch seat tasks).filterMap f = [] := by
  refine List.filterMap_eq_nil_iff.mpr fun d hd => ?_
  rcases List.mem_cons.mp hd with rfl | hd
  · exact hr _
  · obtain ⟨t, -, rfl⟩ := List.mem_map.mp hd
    exact hq _ _

/-- A callback that has come to an end belongs to a node that has fired. -/
theorem returns_sublist (T : List (Deed α)) : (returns T).Sublist (fires T) := by
  induction T with
  | nil => exact .refl _
  | cons d T ih =>
    rw [show d :: T = [d] ++ T from rfl, returns_append, fires_append]
    refine .append ?_ ih
    cases d with
    | did slot r v act =>
      cases act with
      | fire called =>
        cases called with
        | true => exact .refl _
        | false => exact List.nil_sublist _
      | _ => exact .refl _
    | _ => exact .refl _

end Readings

end Deed

end Dataflow
