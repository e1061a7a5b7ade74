import Dataflow.Proofs.Engine.Custody

/-!
# Accounts of executions

What an execution has begun, it carries on until it is through. So where one kind of deed
opens something and another kind closes it, the deeds of the first kind are those of the
second kind and, beside them, what the executions of the load have open. That is an
`Account`, and to keep it balanced is a matter of single moves (`Account.Kept.stable`).

There are three of them. A node that has begun with a run fires for it; a callback that
was entered comes to an end; and for a node that has fired, every outlet gets its entry.
-/

namespace Dataflow

variable {α β : Type}

/-- What deeds open and close, and what an execution has open. -/
structure Account (α β : Type) where
  opens : Deed α → Graph α → List β
  closes : Deed α → Graph α → List β
  holds : Execution α → Graph α → List β

namespace Account

/-- **Everything that was opened was closed**, or some execution has it open. -/
def Balanced (A : Account α β) (s : Scene α) : Prop :=
  (s.trail.flatMap (A.opens · s.graph)).Perm
    (s.trail.flatMap (A.closes · s.graph) ++ s.load.flatMap (A.holds · s.graph))

/-- The account is kept by executions alone, and each move of them keeps it. -/
structure Kept [Payload α] (k : Strategy) (A : Account α β) : Prop where
  reset : ∀ seat g, A.opens (.reset seat) g = [] ∧ A.closes (.reset seat) g = []
  queued : ∀ t r g, A.opens (.queued t r) g = [] ∧ A.closes (.queued t r) g = []
  ofTask : ∀ t g, A.holds (.ofTask t) g = []
  await : ∀ v g, A.holds (.await g v) g = []
  ended : ∀ v g, A.holds ⟨v, .over⟩ g = []
  move : ∀ {g b x a ds}, Move k g b x a ds →
    (A.holds x g ++ ds.flatMap (A.opens · g)).Perm
      (ds.flatMap (A.closes · g) ++ A.holds ⟨x.node, a.stage⟩ g)

namespace Kept

variable [Payload α] {k : Strategy} {A : Account α β}

/-- Whoever turns to the next run has nothing open. -/
theorem flatMap_onward (h : A.Kept k) (x : Execution α) (g : Graph α) (st : Stage α) :
    (x.onward k g st).flatMap (A.holds · g) = A.holds ⟨x.node, st⟩ g := by
  unfold Execution.onward
  split
  · rw [h.ended]
    cases k with
    | stealing => rfl
    | dedicated => simp [h.await]
  · simp

/-- Tasks that are queued have nothing open. -/
theorem flatMap_ofTask (h : A.Kept k) (tasks : List Task) (g : Graph α) :
    (tasks.map .ofTask).flatMap (A.holds · g) = [] := by
  simp [h.ofTask]

/-- **All histories keep the account balanced.** -/
theorem stable [DecidableEq β] (h : A.Kept k) : Stable k A.Balanced where
  first := fun {depth b} _ _ => by
    have hload : (firstLoad k b.graph).flatMap (A.holds · b.graph) = [] := by
      cases k <;> simp [firstLoad, h.await]
    simp only [Balanced, Scene.first, hload]
    exact .refl _
  aside := fun {s s'} ha hs => by
    unfold Balanced at hs ⊢
    rw [ha.graph, ha.trail]
    exact hs.trans ((ha.load.flatMap_right _).append_left _)
  move := fun {s x rest a ds} _ hload hm _ hs => by
    unfold Balanced at hs ⊢
    simp only [Scene.move, List.flatMap_append, h.flatMap_onward, h.flatMap_ofTask,
      List.append_nil]
    have hmove := h.move hm
    rw [hload, List.flatMap_cons] at hs
    rw [List.perm_iff_count] at hs hmove ⊢
    intro p
    have hs := hs p
    have hmove := hmove p
    simp only [List.count_append] at hs hmove ⊢
    omega
  launch := fun {s next backlog σ free graph} _ _ _ _ _ _ hs => by
    have hopens : (Deed.launch ⟨σ, next.objectId⟩ (firstTasks k s.graph σ)).flatMap
        (A.opens · s.graph) = [] := by
      simp [Deed.launch, h.reset, h.queued]
    have hcloses : (Deed.launch ⟨σ, next.objectId⟩ (firstTasks k s.graph σ)).flatMap
        (A.closes · s.graph) = [] := by
      simp [Deed.launch, h.reset, h.queued]
    unfold Balanced at hs ⊢
    simp only [Scene.launch, List.flatMap_append, hopens, hcloses, h.flatMap_ofTask,
      List.append_nil, List.nil_append]
    exact hs

end Kept

/-! ### The three accounts -/

/-- A node that has begun with a run has not fired yet. -/
def executions : Account α (NodeId × ObjectId) where
  opens d _ := Deed.starts [d]
  closes d _ := Deed.fires [d]
  holds x _ := match x.stage with
    | .claiming seat _ _ | .entering seat _ | .working seat _ _ => [(x.node, seat.run)]
    | _ => []

/-- A callback that was entered has not come to an end. -/
def callbacks : Account α (NodeId × ObjectId) where
  opens d _ := Deed.calls [d]
  closes d _ := Deed.returns [d]
  holds x _ := match x.stage with
    | .working seat _ _ => [(x.node, seat.run)]
    | _ => []

/-- A node that has fired still has entries to publish. -/
def entries : Account α (Channel × ObjectId) where
  opens d g := (Deed.fires [d]).flatMap fun p => (g.outlets p.1).map (·, p.2)
  closes d _ := Deed.publications [d]
  holds x g := match x.stage with
    | .recording seat _ => (g.outlets x.node).map (·, seat.run)
    | .publishing seat ds _ => (ds.map (·.1)).map (·, seat.run)
    | _ => []

section Balanced

variable {s : Scene α}

/-- What is said of single deeds is said of the history. -/
theorem flatMap_singletons (f : Deed α → Option β) (T : List (Deed α)) :
    T.flatMap (fun d => [d].filterMap f) = T.filterMap f := by
  induction T with
  | nil => rfl
  | cons d T ih =>
    rw [List.flatMap_cons, ih, ← List.filterMap_append]
    rfl

theorem balanced_executions : executions.Balanced s ↔ (Deed.starts s.trail).Perm
    (Deed.fires s.trail ++ s.load.flatMap (executions.holds · s.graph)) := by
  unfold Balanced
  rw [show s.trail.flatMap (executions.opens · s.graph) = Deed.starts s.trail from
    flatMap_singletons _ _, show s.trail.flatMap (executions.closes · s.graph) =
      Deed.fires s.trail from flatMap_singletons _ _]

theorem balanced_callbacks : callbacks.Balanced s ↔ (Deed.calls s.trail).Perm
    (Deed.returns s.trail ++ s.load.flatMap (callbacks.holds · s.graph)) := by
  unfold Balanced
  rw [show s.trail.flatMap (callbacks.opens · s.graph) = Deed.calls s.trail from
    flatMap_singletons _ _, show s.trail.flatMap (callbacks.closes · s.graph) =
      Deed.returns s.trail from flatMap_singletons _ _]

theorem balanced_entries : entries.Balanced s ↔
    ((Deed.fires s.trail).flatMap fun p => (s.graph.outlets p.1).map (·, p.2)).Perm
      (Deed.publications s.trail ++ s.load.flatMap (entries.holds · s.graph)) := by
  unfold Balanced
  rw [show s.trail.flatMap (entries.opens · s.graph) =
      (Deed.fires s.trail).flatMap fun p => (s.graph.outlets p.1).map (·, p.2) by
    rw [Deed.fires, ← flatMap_singletons, List.flatMap_assoc]
    rfl, show s.trail.flatMap (entries.closes · s.graph) = Deed.publications s.trail from
      flatMap_singletons _ _]

end Balanced

variable [Payload α] {k : Strategy}

/-- A node that begins with a run fires for it before it does anything else for others. -/
theorem kept_executions : (executions : Account α _).Kept k where
  reset := fun _ _ => ⟨rfl, rfl⟩
  queued := fun _ _ _ => ⟨rfl, rfl⟩
  ofTask := fun _ _ => rfl
  await := fun _ _ => rfl
  ended := fun _ _ => rfl
  move := fun {g b x a ds} hm => by
    cases hm with
    | passed hst =>
      unfold Execution.afterPublishing
      split <;> simp [executions, hst]
    | released last _ hst | finished last hst =>
      cases last <;> simp [executions, hst, Execution.did, Deed.starts, Deed.fires]
    | opened hst | claimed _ hst | gathered hst | drawn _ _ hst | dismissed _ hst
    | assembled _ hst | located _ hst | called hst | skipped hst | held hst | returned hst
    | recorded hst | published _ hst | left hst | ended hst | resolved hst =>
      -- both sides compute to the same list once the stage is known
      obtain ⟨v, st⟩ := x
      obtain rfl : st = _ := hst
      exact .refl _

theorem kept_callbacks : (callbacks : Account α _).Kept k where
  reset := fun _ _ => ⟨rfl, rfl⟩
  queued := fun _ _ _ => ⟨rfl, rfl⟩
  ofTask := fun _ _ => rfl
  await := fun _ _ => rfl
  ended := fun _ _ => rfl
  move := fun {g b x a ds} hm => by
    cases hm with
    | passed hst =>
      unfold Execution.afterPublishing
      split <;> simp [callbacks, hst]
    | released last _ hst | finished last hst =>
      cases last <;> simp [callbacks, hst, Execution.did, Deed.calls, Deed.returns]
    | opened hst | claimed _ hst | gathered hst | drawn _ _ hst | dismissed _ hst
    | assembled _ hst | located _ hst | called hst | skipped hst | held hst | returned hst
    | recorded hst | published _ hst | left hst | ended hst | resolved hst =>
      obtain ⟨v, st⟩ := x
      obtain rfl : st = _ := hst
      exact .refl _

/-- A node publishes one entry after the other, and none of them twice. -/
theorem kept_entries : (entries : Account α _).Kept k where
  reset := fun _ _ => ⟨rfl, rfl⟩
  queued := fun _ _ _ => ⟨rfl, rfl⟩
  ofTask := fun _ _ => rfl
  await := fun _ _ => rfl
  ended := fun _ _ => rfl
  move := fun {g b x a ds} hm => by
    cases hm with
    | passed hst =>
      unfold Execution.afterPublishing
      split <;> simp [entries, hst]
    | released last _ hst | finished last hst =>
      cases last <;> simp [entries, hst, Execution.did, Deed.fires, Deed.publications]
    | recorded hst hs hout =>
      simp only [entries, hst, Execution.did, Deed.fires, Deed.publications, hout,
        List.filterMap_cons_none, List.filterMap_nil, List.flatMap_cons, List.flatMap_nil,
        List.append_nil, List.nil_append]
      exact .refl _
    | skipped hst | returned hst | published _ hst =>
      simp [entries, hst, Execution.did, Execution.conclude, Deed.fires, Deed.publications]
    | opened hst | claimed _ hst | gathered hst | drawn _ _ hst | dismissed _ hst
    | assembled _ hst | located _ hst | called hst | held hst | left hst | ended hst
    | resolved hst =>
      obtain ⟨v, st⟩ := x
      obtain rfl : st = _ := hst
      exact .refl _

end Account

end Dataflow
