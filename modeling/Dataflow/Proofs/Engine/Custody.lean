import Dataflow.Proofs.Engine.Scenes

/-!
# Slots in the hands of their runs

A slot is used by one run after the other, and the bookkeeping shows which run it belongs
to only as long as that run is in flight. `Deed.InTime` says of each deed when it is
allowed: a slot is reset when it is in nobody's hands and the run never had one, and all
that is done for a run in its slot falls between the reset of the slot for the run and the
end of the run.

That all histories conform to this (`stable_custody`) is due to two facts that go beyond
the single deed. What the table shows is what the history says (`Custody.held_iff`); and
a task that is still queued was handed out for the run that holds its slot
(`Custody.errand`), because no run ends before all its tasks are done.
-/

namespace Dataflow

variable {α : Type}

namespace Deed

/-- **The deed is done in time.** A node that does not know the slot of a run yet acts for it
while some slot is in its hands. -/
def InTime (k : Strategy) (past : List (Deed α)) : Deed α → Prop
  | .reset seat => (∀ r, ¬ Held past ⟨seat.slot, r⟩) ∧ seat.run ∉ launched past
  | .taken seat => Held past seat
  | .queued task run => Held past ⟨task.slot, run⟩
  | .did (some σ) run v act =>
    Held past ⟨σ, run⟩ ∧ (k = .stealing → act = .start → Errand past ⟨v, σ⟩ run)
  | .did none run _ _ => ∃ σ, Held past ⟨σ, run⟩

/-- The run that something is done for holds the slot where it is done. -/
def Rightful (t : Table α) : Deed α → Prop
  | .reset _ => False
  | .taken seat => ∃ s, t.Holds seat.slot seat.run s
  | .queued task run => ∃ s, t.Holds task.slot run s
  | .did (some σ) run _ _ => ∃ s, t.Holds σ run s
  | .did none run _ _ => ∃ σ s, t.Holds σ run s

end Deed

/-- Whoever holds a slot keeps it while the bookkeeping of some run is amended. -/
theorem Table.Amends.exists_holds {t t' : Table α} {σ τ : SlotId} {r r' : ObjectId}
    {s s' : RunStatus α} {depth launched : Nat} {requests : List (Request α)}
    (h : t.Amends t' σ r s') (hl : t.Ledger depth launched requests) (hs : t.Holds σ r s) :
    (∃ s₁, t'.Holds τ r' s₁) ↔ ∃ s₁, t.Holds τ r' s₁ := by
  constructor
  · rintro ⟨s₁, hs₁⟩
    rcases h.holds.mp hs₁ with ⟨-, hold⟩ | ⟨rfl, rfl, -⟩
    · exact ⟨s₁, hold⟩
    · exact ⟨s, hs⟩
  · rintro ⟨s₁, hs₁⟩
    by_cases hr : r' = r
    · subst hr
      exact ⟨s', h.holds.mpr (Or.inr ⟨hl.slot_unique hs₁ hs, rfl, rfl⟩)⟩
    · exact ⟨s₁, h.holds.mpr (Or.inl ⟨hr, hs₁⟩)⟩

/-- When an execution is about to end a run, all nodes have fired for it. -/
theorem Sound.executed_of_completing [Payload α] {k : Strategy} {g : Graph α} {depth : Nat}
    {closed : Bool} {requests : List (Request α)} {launched : Nat}
    {post : ObjectId → NodeId → Post α} {executed : List (NodeId × ObjectId)} {b : Binding α}
    {load : List (Execution α)} {x : Execution α} {σ : SlotId} {r : ObjectId} (hg : g.Frozen)
    (h : Sound k g depth closed requests launched post executed b load)
    (hx : x ∈ load) (hst : x.stage = .completing ⟨σ, r⟩) {v : NodeId} (hv : v < g.nodes.size) :
    (v, r) ∈ executed := by
  obtain ⟨rest, h⟩ := h.bring hx
  obtain ⟨r', σ', s', q, hpost, hs', hq, -, hserves, -⟩ :=
    h.engaged_head (by simp [Execution.isEngaged, hst])
  rw [hst] at hserves
  obtain ⟨rfl, rfl⟩ := Seat.mk.inj hserves
  have hcomp : (post r x.node).progress.completing = true := by
    rw [hpost, hst]
    rfl
  have hend := (h.books hs' hq).done_or_completing hg hcomp hv
  exact (h.chronicle.mem_iff hv).mpr (Post.progress_of_ending hend).2.2.1

/-! ### What a move means to the slots -/

namespace Move

variable [Payload α] {k : Strategy} {g : Graph α} {b : Binding α} {x : Execution α}
  {a : Advance α} {ds past later : List (Deed α)} {d : Deed α}

/-- Whatever is done on behalf of a run is done while the run holds its slot. -/
theorem rightful (hm : Move k g b x a ds) : ∀ d ∈ ds, d.Rightful b.table := by
  cases hm with
  | drawn _ _ _ hs => simpa [Deed.Rightful] using ⟨_, _, hs⟩
  | released last hk hst hs =>
    cases last <;> simp [Execution.did, Deed.Rightful] <;> exact ⟨_, hs⟩
  | gathered | dismissed | assembled | held | passed | left | resolved => simp
  | opened hst hs | claimed p hst hs | located hk hst hs | called hst hs | skipped hst hs
  | returned hst hs | recorded hst hs | published p hst hs | finished last hst hs
  | ended hst hs => simpa [Execution.did, Deed.Rightful] using ⟨_, hs⟩

/-- **What a move means to the slots.** All runs keep what they hold, or one run ends. -/
theorem slots {depth launched : Nat} {requests : List (Request α)} (hm : Move k g b x a ds)
    (hl : b.table.Ledger depth launched requests) :
    ((∀ {σ r}, (∃ s, a.binding.table.Holds σ r s) ↔ ∃ s, b.table.Holds σ r s) ∧
      ∀ d ∈ ds, ∀ σ, d.touches σ = false) ∨
    ∃ σ r s cell o, x.stage = .completing ⟨σ, r⟩ ∧ b.table.Holds σ r s ∧
      a = { binding := { b with table := b.table.retire σ s }, stage := .resolving cell o } ∧
      ds = [x.did ⟨σ, r⟩ .complete, .taken ⟨σ, r⟩] := by
  cases hm with
  | ended hst hs => exact Or.inr ⟨_, _, _, _, _, hst, hs, rfl, rfl⟩
  | recorded hst hs =>
    refine Or.inl ⟨(hl.amends_modify hs fun s => ?_).exists_holds hl hs, ?_⟩
    · rw [RunStatus.record_eq]
      exact ⟨rfl, rfl⟩
    · simp [Execution.did, Deed.touches]
  | released last hk hst hs =>
    refine Or.inl ⟨(hl.amends_modify (f := (·.releaseDependency _)) hs fun s =>
      ⟨rfl, rfl⟩).exists_holds hl hs, ?_⟩
    cases last <;> simp [Execution.did, Deed.touches]
  | finished last hst hs =>
    refine Or.inl ⟨(hl.amends_modify (f := (·.finishSink)) hs fun s =>
      ⟨rfl, rfl⟩).exists_holds hl hs, ?_⟩
    simp [Execution.did, Deed.touches]
  -- all others leave the table alone
  | _ => exact Or.inl ⟨Iff.rfl, by simp [Execution.did, Deed.touches]⟩

/-- Until a deed is done, no slot is given away in the course of the move. -/
theorem untouched {depth launched : Nat} {requests : List (Request α)} (hm : Move k g b x a ds)
    (hl : b.table.Ledger depth launched requests) (hd : ds = past ++ d :: later) :
    ∀ d' ∈ past, ∀ σ, d'.touches σ = false := by
  intro d' hd' σ
  rcases hm.slots hl with ⟨-, hno⟩ | ⟨τ, r, s, cell, o, -, -, -, hds⟩
  · exact hno d' (hd ▸ List.mem_append_left _ hd') σ
  · rw [hds] at hd
    rcases List.cons_eq_append_iff.mp hd with ⟨rfl, -⟩ | ⟨past', rfl, htail⟩
    · cases hd'
    · -- the end of the run comes last
      rcases List.cons_eq_append_iff.mp htail with ⟨rfl, -⟩ | ⟨past'', -, hnil⟩
      · rw [List.mem_singleton.mp hd']
        rfl
      · simp at hnil

/-- A worker begins with a task before anything else. -/
theorem start (hm : Move k g b x a ds) {σ : SlotId} {r : ObjectId} {v : NodeId}
    (hk : k = .stealing) (hd : ds = past ++ .did (some σ) r v .start :: later) :
    past = [] ∧ x = .ofTask ⟨v, σ⟩ := by
  subst hk
  have hmem : Deed.did (some σ) r v .start ∈ ds := by
    rw [hd]
    exact List.mem_append_right _ (List.mem_cons_self ..)
  cases hm with
  | opened hst hs =>
    simp only [Execution.did, List.mem_singleton, Deed.did.injEq, Option.some.injEq] at hmem
    obtain ⟨rfl, -, rfl, -⟩ := hmem
    refine ⟨?_, by rw [Execution.ofTask, ← hst]⟩
    have hlen := congrArg List.length hd
    simp only [List.length_append, List.length_cons, List.length_nil] at hlen
    exact List.eq_nil_of_length_eq_zero (by omega)
  | released last hk hst hs => cases last <;> simp [Execution.did] at hmem
  | drawn _ hk | dismissed hk | assembled hk | located hk => cases hk
  | _ => simp [Execution.did] at hmem

/-- Nobody goes back to the beginning of a task. -/
theorem not_ofTask (hm : Move k g b x a ds) (t : Task) :
    Execution.ofTask t ∉ x.onward k g a.stage := by
  have key : ∀ st : Stage α, (∀ σ, st ≠ .opening σ) → Execution.ofTask t ∉ x.onward k g st := by
    intro st hst hmem
    unfold Execution.onward at hmem
    split at hmem
    · split at hmem
      · cases hmem
      · simp [Execution.ofTask, Execution.await] at hmem
    · simp only [Execution.ofTask, List.mem_singleton, Execution.mk.injEq] at hmem
      exact hst _ hmem.2.symm
  refine key _ ?_
  cases hm with
  | passed hst =>
    intro σ
    unfold Execution.afterPublishing
    split <;> simp
  | finished last hst hs => cases last <;> simp
  | _ => simp [Execution.conclude]

/-- What becomes ready is handed out for the run. -/
theorem queued_of_ready (hm : Move k g b x a ds) {t : Task} (ht : t ∈ a.ready) :
    ∃ r, .queued t r ∈ ds := by
  cases hm with
  | released last hk hst hs =>
    cases last with
    | true => exact ⟨_, List.mem_cons_of_mem _ (List.mem_map_of_mem ht)⟩
    | false => cases ht
  | _ => cases ht

/-- No move resets a slot. -/
theorem launched_eq_nil (hm : Move k g b x a ds) : Deed.launched ds = [] := by
  refine List.filterMap_eq_nil_iff.mpr fun d hd => ?_
  have := hm.rightful d hd
  cases d with
  | reset seat => exact this.elim
  | _ => rfl

end Move

/-! ### The invariant -/

/-- **The table and the history agree** on who holds which slot. -/
structure Custody (k : Strategy) (s : Scene α) : Prop where
  held_iff : ∀ {σ r}, Deed.Held s.trail ⟨σ, r⟩ ↔ ∃ st, s.binding.table.Holds σ r st
  errand : k = .stealing → ∀ {t r}, .ofTask t ∈ s.load →
    (∃ st, s.binding.table.Holds t.slot r st) → Deed.Errand s.trail t r
  launched : ∀ {r}, r ∈ Deed.launched s.trail →
    s.binding.table.InFlight r ∨ ∀ v < s.graph.nodes.size, (v, r) ∈ s.executed
  inTime : Conforms (Deed.InTime k) s.trail

namespace Custody

variable {k : Strategy} {s : Scene α}

/-- What is rightfully done in a slot is done in time, if it resets no slot and begins with
no task. -/
theorem inTime_of_rightful (h : Custody k s) {d : Deed α} {past : List (Deed α)}
    (hd : d.Rightful s.binding.table)
    (hpast : ∀ d' ∈ past, ∀ σ, d'.touches σ = false)
    (hstart : ∀ {σ r v}, d = .did (some σ) r v .start → k = .stealing →
      Deed.Errand (s.trail ++ past) ⟨v, σ⟩ r) :
    d.InTime k (s.trail ++ past) := by
  have hheld : ∀ {σ r}, (∃ st, s.binding.table.Holds σ r st) →
      Deed.Held (s.trail ++ past) ⟨σ, r⟩ := fun hs =>
    (Deed.held_append fun d' hd' => hpast d' hd' _).mpr (h.held_iff.mpr hs)
  cases d with
  | reset seat => exact hd.elim
  | taken seat => exact hheld hd
  | queued task run => exact hheld hd
  | did slot run v act =>
    cases slot with
    | none =>
      obtain ⟨σ, hs⟩ := hd
      exact ⟨σ, hheld hs⟩
    | some σ =>
      refine ⟨hheld hd, fun hk hact => ?_⟩
      subst hact
      exact hstart rfl hk

variable [Payload α]

section Move

variable {x : Execution α} {rest : List (Execution α)} {a : Advance α} {ds : List (Deed α)}
  {depth launched : Nat}

/-- The history shows who holds which slot after a move. -/
theorem held_move (h : Custody k s) (hl : s.binding.table.Ledger depth launched s.requests)
    (hm : Move k s.graph s.binding x a ds) {σ : SlotId} {r : ObjectId} :
    Deed.Held (s.trail ++ ds) ⟨σ, r⟩ ↔ ∃ st, a.binding.table.Holds σ r st := by
  rcases hm.slots hl with ⟨hsame, hno⟩ | ⟨τ, r', st, cell, o, -, hst, rfl, rfl⟩
  · rw [Deed.held_append fun d hd => hno d hd σ, h.held_iff]
    exact hsame.symm
  · have hsplit : s.trail ++ [x.did ⟨τ, r'⟩ .complete, .taken ⟨τ, r'⟩] =
        s.trail ++ [x.did ⟨τ, r'⟩ .complete] ++ [.taken ⟨τ, r'⟩] := by simp
    show _ ↔ ∃ s', (s.binding.table.retire τ st).Holds σ r s'
    rw [hsplit, Deed.held_taken, Deed.held_append (by simp [Execution.did, Deed.touches]),
      h.held_iff]
    simp only [hl.holds_retire hst, exists_and_right]
    refine and_comm.trans (and_congr_right fun hholds => not_congr ?_)
    obtain ⟨s', hs'⟩ := hholds
    constructor
    · rintro rfl
      exact Table.Ledger.run_unique hs' hst
    · rintro rfl
      exact hl.slot_unique hst hs'

/-- The tasks that are queued after a move belong to the runs that hold their slots. -/
theorem errand_move (h : Custody k s) (hl : s.binding.table.Ledger depth launched s.requests)
    (hload : s.load = x :: rest) (hm : Move k s.graph s.binding x a ds) (hk : k = .stealing)
    {t : Task} {r : ObjectId}
    (ht : .ofTask t ∈ x.onward k s.graph a.stage ++ a.ready.map .ofTask ++ rest)
    (hholds : ∃ st, a.binding.table.Holds t.slot r st) : Deed.Errand (s.trail ++ ds) t r := by
  -- the run has held the slot before
  have hwas : ∃ st, s.binding.table.Holds t.slot r st := by
    rcases hm.slots hl with ⟨hsame, -⟩ | ⟨τ, r', st, cell, o, -, hst, rfl, -⟩
    · exact hsame.mp hholds
    · obtain ⟨s', hs'⟩ := hholds
      exact ⟨s', ((hl.holds_retire hst).mp hs').1⟩
  have hone : ∀ r', .queued t r' ∈ ds → r' = r := fun r' hr' => by
    obtain ⟨st', hst'⟩ := hm.rightful _ hr'
    obtain ⟨st, hst⟩ := hwas
    exact Table.Ledger.run_unique hst' hst
  refine Deed.errand_append_of hone ?_
  rcases List.mem_append.mp ht with ht | ht
  · refine Or.inl ?_
    have ht' := (List.mem_append.mp ht).resolve_left (hm.not_ofTask t)
    obtain ⟨t', hmem, he⟩ := List.mem_map.mp ht'
    obtain ⟨r', hr'⟩ := hm.queued_of_ready (Execution.ofTask_injective he ▸ hmem)
    exact hone r' hr' ▸ hr'
  · exact Or.inr (h.errand hk (hload ▸ List.mem_cons_of_mem _ ht) hwas)

/-- A run that got a slot is still in flight after a move, or all nodes have fired for it. -/
theorem launched_move (h : Custody k s) (hs : s.Sound k) (hload : s.load = x :: rest)
    (hm : Move k s.graph s.binding x a ds) {r : ObjectId}
    (hr : r ∈ Deed.launched (s.trail ++ ds)) :
    a.binding.table.InFlight r ∨
      ∀ v < s.graph.nodes.size, (v, r) ∈ s.executed ++ x.fired a.stage := by
  obtain ⟨depth, closed, launched, post, hsound⟩ := hs.sound
  have happ : Deed.launched (s.trail ++ ds) = Deed.launched s.trail := by
    rw [Deed.launched_append, hm.launched_eq_nil, List.append_nil]
  rcases h.launched (happ ▸ hr) with ⟨σ, st, hst⟩ | hall
  · rcases hm.slots hsound.ledger with ⟨hsame, -⟩ | ⟨τ, r', st', cell, o, hxst, hst', rfl, -⟩
    · obtain ⟨st', hst'⟩ := hsame.mpr ⟨st, hst⟩
      exact Or.inl ⟨σ, st', hst'⟩
    · by_cases hrr : r = r'
      · subst hrr
        exact Or.inr fun v hv => List.mem_append_left _ <|
          hsound.executed_of_completing hs.frozen (hload ▸ List.mem_cons_self ..) hxst hv
      · exact Or.inl ⟨σ, st, (hsound.ledger.holds_retire hst').mpr ⟨hst, hrr⟩⟩
  · exact Or.inr fun v hv => List.mem_append_left _ (hall v hv)

/-- **A move** is made in time, and keeps table and history in agreement. -/
theorem move (h : Custody k s) (hs : s.Sound k) (hload : s.load = x :: rest)
    (hm : Move k s.graph s.binding x a ds) : Custody k (s.move k x rest a ds) := by
  obtain ⟨depth, closed, launched, post, hsound⟩ := hs.sound
  have hl := hsound.ledger
  refine ⟨h.held_move hl hm, fun hk {t r} ht hr => h.errand_move hl hload hm hk ht hr,
    fun {r} hr => h.launched_move hs hload hm hr, h.inTime.append fun past d later hd => ?_⟩
  refine h.inTime_of_rightful (hm.rightful d (hd ▸ by simp)) (hm.untouched hl hd) ?_
  rintro σ r v rfl hk
  have hright := hm.rightful (.did (some σ) r v .start) (by rw [hd]; simp)
  obtain ⟨rfl, hx⟩ := hm.start hk hd
  rw [List.append_nil]
  exact h.errand hk (by rw [hload, hx]; exact List.mem_cons_self ..) hright

end Move

section Launch

variable {depth launched : Nat} {closed : Bool} {post : ObjectId → NodeId → Post α}
  {next : Pending α} {backlog : List (Pending α)} {σ : SlotId} {free : List SlotId}

omit [Payload α] in
/-- All tasks of a run that is launched are for its slot. -/
theorem slot_of_firstTasks {g : Graph α} {t : Task} (h : t ∈ firstTasks k g σ) : t.slot = σ := by
  unfold firstTasks at h
  split at h
  · obtain ⟨v, -, rfl⟩ := List.mem_map.mp h
    rfl
  · cases h

omit [Payload α] in
/-- The run that is launched gets the slot, and everybody else keeps his. -/
theorem holds_launch (hl : s.binding.table.Ledger depth launched s.requests)
    (hb : s.binding.table.backlog = next :: backlog) (hf : s.binding.table.free = σ :: free)
    {τ : SlotId} {r : ObjectId} : (∃ st, s.binding.table.promote.Holds τ r st) ↔
      (∃ st, s.binding.table.Holds τ r st) ∨ (τ = σ ∧ r = next.objectId) := by
  obtain ⟨hid, -, -⟩ := hl.head_backlog hb
  simp only [hl.holds_promote hb hf, hid, exists_or]
  simp

/-- The tasks that are queued after a launch belong to the runs that hold their slots. -/
theorem errand_launch (h : Custody k s)
    (hsound : Dataflow.Sound k s.graph depth closed s.requests launched post s.executed s.binding
      s.load)
    (hb : s.binding.table.backlog = next :: backlog) (hf : s.binding.table.free = σ :: free)
    (hk : k = .stealing) {t : Task} {r : ObjectId}
    (ht : .ofTask t ∈ (firstTasks k s.graph σ).map .ofTask ++ s.load)
    (hr : ∃ st, s.binding.table.promote.Holds t.slot r st) :
    Deed.Errand (s.trail ++ Deed.launch ⟨σ, next.objectId⟩ (firstTasks k s.graph σ)) t r := by
  have hl := hsound.ledger
  have hnobody : ∀ {r st}, ¬ s.binding.table.Holds σ r st := fun hst =>
    hl.not_free hst (by rw [hf]; exact List.mem_cons_self ..)
  rcases (holds_launch hl hb hf).mp hr with hold | ⟨hσ, rfl⟩
  · -- the slot of the task was in use before, so this is no task of the new run
    have hnew : t ∉ firstTasks k s.graph σ := by
      intro hmem
      obtain ⟨st, hst⟩ := hold
      exact hnobody (slot_of_firstTasks hmem ▸ hst)
    refine Deed.errand_append_of
      (fun r' hr' => absurd (Deed.queued_mem_launch.mp hr').1 hnew) (Or.inr (h.errand hk ?_ hold))
    refine (List.mem_append.mp ht).resolve_left fun hmem => hnew ?_
    obtain ⟨t', ht', he⟩ := List.mem_map.mp hmem
    exact Execution.ofTask_injective he ▸ ht'
  · refine Deed.errand_append_of (fun r' hr' => (Deed.queued_mem_launch.mp hr').2)
      (Or.inl (Deed.queued_mem_launch.mpr ⟨?_, rfl⟩))
    rcases List.mem_append.mp ht with hmem | hmem
    · obtain ⟨t', ht', he⟩ := List.mem_map.mp hmem
      exact Execution.ofTask_injective he ▸ ht'
    · -- nobody has an old task for a free slot
      obtain ⟨r', τ, st, q, hpost, hst, -, -, hbooks⟩ := hsound.serving hmem rfl
      obtain rfl : t.slot = τ := hbooks.posts.serves hpost
      exact absurd (hσ ▸ hst) hnobody

/-- A launch is in time: the slot is in nobody's hands, and the run never had one. -/
theorem inTime_launch (h : Custody k s) (hsize : 0 < s.graph.nodes.size)
    (hsound : Dataflow.Sound k s.graph depth closed s.requests launched post s.executed s.binding
      s.load)
    (hb : s.binding.table.backlog = next :: backlog) (hf : s.binding.table.free = σ :: free)
    {past later : List (Deed α)} {d : Deed α}
    (hd : Deed.launch ⟨σ, next.objectId⟩ (firstTasks k s.graph σ) = past ++ d :: later) :
    d.InTime k (s.trail ++ past) := by
  obtain ⟨hid, -, -⟩ := hsound.ledger.head_backlog hb
  rcases List.cons_eq_append_iff.mp hd with ⟨rfl, hcons⟩ | ⟨past, rfl, hcons⟩
  · obtain ⟨rfl, -⟩ := List.cons.inj hcons
    rw [List.append_nil]
    refine ⟨fun r hheld => ?_, fun hmem => ?_⟩
    · obtain ⟨st, hst⟩ := h.held_iff.mp hheld
      exact hsound.ledger.not_free hst (by rw [hf]; exact List.mem_cons_self ..)
    · rcases h.launched hmem with hr | hall
      · exact Nat.lt_irrefl _ (hid ▸ hsound.ledger.lt_launched hr)
      · have hfired := (hsound.chronicle.mem_iff hsize).mp (hall 0 hsize)
        simp [hsound.unborn (Nat.le_of_eq hid.symm), Progress.zero] at hfired
  · -- all tasks of the run are handed out while the slot is in its hands
    have hqueued : ∀ d' ∈ past ++ d :: later, ∃ t ∈ firstTasks k s.graph σ,
        d' = .queued t next.objectId := by
      intro d' hd'
      rw [← hcons] at hd'
      obtain ⟨t, ht, rfl⟩ := List.mem_map.mp hd'
      exact ⟨t, ht, rfl⟩
    obtain ⟨t, ht, rfl⟩ := hqueued d (by simp)
    have hsplit : s.trail ++ .reset ⟨σ, next.objectId⟩ :: past =
        s.trail ++ [.reset ⟨σ, next.objectId⟩] ++ past := by simp
    show Deed.Held _ ⟨t.slot, next.objectId⟩
    rw [hsplit, slot_of_firstTasks ht, Deed.held_append, Deed.held_reset]
    · exact Or.inl rfl
    · intro d' hd'
      obtain ⟨t', -, rfl⟩ := hqueued d' (List.mem_append_left _ hd')
      rfl

/-- **A launch** is in time, and keeps table and history in agreement. -/
theorem launch (h : Custody k s) (hs : s.Sound k)
    (hb : s.binding.table.backlog = next :: backlog) (hf : s.binding.table.free = σ :: free)
    (graph : Graph α) : Custody k (s.launch k ⟨σ, next.objectId⟩ graph) := by
  obtain ⟨depth, closed, launched, post, hsound⟩ := hs.sound
  have hl := hsound.ledger
  constructor
  · intro τ r
    show Deed.Held (s.trail ++ Deed.launch _ _) _ ↔ ∃ st, s.binding.table.promote.Holds τ r st
    rw [Deed.held_launch, holds_launch hl hb hf, h.held_iff, Seat.mk.injEq, or_comm]
    refine or_congr_left (and_iff_right_of_imp ?_)
    rintro ⟨st, hst⟩ rfl
    exact hl.not_free hst (by rw [hf]; exact List.mem_cons_self ..)
  · intro hk t r ht hr
    exact h.errand_launch hsound hb hf hk ht hr
  · intro r hr
    rw [Scene.launch, Deed.launched_append, List.mem_append] at hr
    rcases hr with hr | hr
    · refine (h.launched hr).imp_left ?_
      rintro ⟨τ, hst⟩
      obtain ⟨st, hst⟩ := (holds_launch hl hb hf).mpr (Or.inl hst)
      exact ⟨τ, st, hst⟩
    · have hr' : r = next.objectId := by simpa [Deed.launch, Deed.launched] using hr
      obtain ⟨st, hst⟩ := (holds_launch hl hb hf).mpr (Or.inr ⟨rfl, hr'⟩)
      exact Or.inl ⟨σ, st, hst⟩
  · exact h.inTime.append fun past d later hd => h.inTime_launch hs.size hsound hb hf hd

end Launch

end Custody

/-- **All histories keep slots in the hands of their runs.** -/
theorem stable_custody [Payload α] (k : Strategy) : Stable k (Custody (α := α) k) where
  first := fun {depth b} _ hsound => {
    held_iff := fun {σ r} => by
      refine iff_of_false not_latest_nil fun ⟨st, hst⟩ => ?_
      obtain ⟨-, q, hq, -⟩ := hsound.ledger.held hst
      simp at hq
    errand := fun hk t r ht => by
      subst hk
      cases ht
    launched := nofun
    inTime := conforms_nil _ }
  aside := fun {s s'} ha h => by
    have hholds : ∀ {σ r st}, s'.binding.table.Holds σ r st ↔ s.binding.table.Holds σ r st := by
      intro σ r st
      rw [Table.Holds, ha.statuses, Table.Holds]
    constructor
    · intro σ r
      simp only [ha.trail, hholds]
      exact h.held_iff
    · intro hk t r ht hr
      rw [ha.trail]
      simp only [hholds] at hr
      exact h.errand hk (ha.load.mem_iff.mpr ht) hr
    · intro r hr
      rw [ha.graph, ha.executed, Table.InFlight]
      simp only [hholds]
      exact h.launched (ha.trail ▸ hr)
    · rw [ha.trail]
      exact h.inTime
  move := fun hs hload hm _ h => h.move hs hload hm
  launch := fun hs hb hf _ _ _ h => h.launch hs hb hf _

end Dataflow
