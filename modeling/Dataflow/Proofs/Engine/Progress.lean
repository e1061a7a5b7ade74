import Dataflow.Engine.Execution

/-!
# How far a node has come with a run

While a run is in flight, each of its nodes waits for it, executes it, or is done with
it; that is its `Post`. What the other nodes and the bookkeeping of the run depend on is
less than the stage of the execution: which entries it has taken and published, whether
it has been counted, and so on. `Progress` collects these, and an operation that leaves
the progress of its node alone, as far as its own channels go, concerns nobody else.

A node is done with a run as soon as its execution has made its last access on behalf of
the run, although its thread has to notice that nothing is left to do. Until then the
execution is *engaged*, `Execution.isEngaged`. Every stage of an engaged execution tells
which run it serves.
-/

namespace Dataflow

/-- What the execution of one node for one run has brought about so far. -/
structure Progress where
  /-- It has been handed to a thread. -/
  begun : Bool
  taken : Channel → Bool
  /-- The callback was skipped, or came to an end. -/
  fired : Bool
  recorded : Bool
  published : Channel → Bool
  released : NodeId → Bool
  /-- The node is counted as a finished sink. -/
  finished : Bool
  /-- It is about to end the run. -/
  completing : Bool
  ended : Bool

namespace Progress

/-- Nothing has been done. -/
def zero : Progress where
  begun := false
  taken := fun _ => false
  fired := false
  recorded := false
  published := fun _ => false
  released := fun _ => false
  finished := false
  completing := false
  ended := false

/-- Nothing is left to do. -/
def all : Progress where
  begun := true
  taken := fun _ => true
  fired := true
  recorded := true
  published := fun _ => true
  released := fun _ => true
  finished := true
  completing := false
  ended := true

/-- The inputs are being taken; these inlets are left. -/
def taking (rest : List Channel) : Progress :=
  { zero with begun := true, taken := fun c => decide (c ∉ rest) }

/-- The output is being published; these outlets are left. -/
def publishing (rest : List Channel) : Progress :=
  { taking [] with fired := true, recorded := true, published := fun c => decide (c ∉ rest) }

end Progress

namespace Stage

variable {α : Type}

/-- What has been brought about when the execution is at the stage. -/
def progress : Stage α → Progress
  | .opening _ => { Progress.zero with begun := true }
  | .claiming _ _ rest => .taking rest
  | .awaiting _ _ rest => .taking rest
  | .locating _ _ => .taking []
  | .entering _ _ => .taking []
  | .working _ _ _ => .taking []
  | .recording _ _ => { Progress.taking [] with fired := true }
  | .publishing _ rest _ => .publishing (rest.map (·.1))
  | .releasing _ rest => { Progress.publishing [] with released := fun v => decide (v ∉ rest) }
  | .finishing _ => { Progress.publishing [] with released := fun _ => true }
  | .completing _ => { Progress.all with completing := true, ended := false }
  | _ => .all

/-- The execution at the stage works for this run, which holds this slot. -/
def Serves (slot : SlotId) (run : ObjectId) : Stage α → Prop
  | .opening s => s = slot
  | .claiming seat _ _ => seat = ⟨slot, run⟩
  | .awaiting r _ _ => r = some run
  | .locating r _ => r = run
  | .entering seat _ => seat = ⟨slot, run⟩
  | .working seat _ _ => seat = ⟨slot, run⟩
  | .recording seat _ => seat = ⟨slot, run⟩
  | .publishing seat _ _ => seat = ⟨slot, run⟩
  | .releasing seat _ => seat = ⟨slot, run⟩
  | .finishing seat => seat = ⟨slot, run⟩
  | .completing seat => seat = ⟨slot, run⟩
  | _ => False

/-- A stage serves one run only, and tells its slot or its number. -/
theorem Serves.slot_or_run {st : Stage α} {slot slot' : SlotId} {run run' : ObjectId}
    (h : st.Serves slot run) (h' : st.Serves slot' run') : slot = slot' ∨ run = run' := by
  cases st <;> simp only [Serves] at h h' <;> simp_all

end Stage

/-- Where a node stands with a run. -/
inductive Post (α : Type) where
  | waiting
  | busy (stage : Stage α)
  | done

namespace Post

variable {α : Type}

def progress : Post α → Progress
  | .waiting => .zero
  | .busy stage => stage.progress
  | .done => .all

@[simp] theorem progress_waiting : (waiting : Post α).progress = .zero := rfl

@[simp] theorem progress_busy (st : Stage α) : (busy st).progress = st.progress := rfl

@[simp] theorem progress_done : (done : Post α).progress = .all := rfl

end Post

namespace Execution

variable {α : Type}

/-- The execution will access what its run shares with others once more. A node whose
last entry is published is done if no successor has to be released and it is no sink. -/
def isEngaged (k : Strategy) (g : Graph α) (x : Execution α) : Bool :=
  match x.stage with
  | .awaiting run _ _ => run.isSome
  | .publishing _ rest _ => !rest.isEmpty || k = .stealing || (g.successors x.node).isEmpty
  | .releasing _ rest => !rest.isEmpty
  | .resolving _ _ => false
  | .over => false
  | .stopped => false
  | .broken _ => false
  | _ => true

end Execution

/-- Where a node stands whose execution has come to a stage. -/
def Post.ofStage {α : Type} (k : Strategy) (g : Graph α) (v : NodeId) (st : Stage α) : Post α :=
  if (⟨v, st⟩ : Execution α).isEngaged k g then .busy st else .done

/-! ### Progress and posts -/

section Progress

variable {α : Type} {k : Strategy} {g : Graph α} {p : Post α}

theorem Post.progress_ofStage {v : NodeId} {st : Stage α}
    (h : (⟨v, st⟩ : Execution α).isEngaged k g = true) :
    (Post.ofStage k g v st).progress = st.progress := by
  rw [Post.ofStage, if_pos h]
  rfl

/-- What has been brought about while entries are left to publish, or none are. -/
theorem Post.publishing_ofStage {v : NodeId} (seat : Seat) (ds : Deliveries α)
    (waiting : Bool) :
    ∃ P, (Post.ofStage k g v (.publishing seat ds waiting)).progress = P ∧
      P.begun = true ∧ (∀ c, P.taken c = true) ∧ P.fired = true ∧ P.recorded = true ∧
      (∀ c, P.published c = decide (c ∉ ds.map (·.1))) ∧
      (k = .stealing → ∀ w, P.released w = false) ∧ P.completing = false := by
  refine ⟨_, rfl, ?_⟩
  by_cases he : (⟨v, .publishing seat ds waiting⟩ : Execution α).isEngaged k g = true
  · rw [progress_ofStage he]
    simp [Stage.progress, Progress.publishing, Progress.taking, Progress.zero]
  · have hds : ds = [] ∧ k ≠ .stealing := by
      simp only [Execution.isEngaged, Bool.or_eq_true, not_or] at he
      simpa using he.1
    rw [Post.ofStage, if_neg he]
    simp [Progress.all, hds.1, hds.2]

/-- A node has begun exactly if it does not wait. -/
theorem Post.begun_iff : p.progress.begun = true ↔ p ≠ .waiting := by
  cases p with
  | waiting => simp [Progress.zero]
  | done => simp [Progress.all]
  | busy st =>
    cases st <;> simp [Stage.progress, Progress.taking, Progress.publishing, Progress.all]

theorem Post.ended_iff {v : NodeId}
    (h : ∀ st, p = .busy st → (⟨v, st⟩ : Execution α).isEngaged k g = true) :
    p.progress.ended = true ↔ p = .done := by
  cases p with
  | waiting => simp [Progress.zero]
  | done => simp [Progress.all]
  | busy st =>
    have := h st rfl
    cases st <;> simp_all [Stage.progress, Progress.taking, Progress.publishing, Progress.all,
      Execution.isEngaged, Progress.zero]

end Progress

end Dataflow
