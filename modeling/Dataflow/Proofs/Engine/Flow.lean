import Mathlib.Logic.Function.Basic
import Dataflow.Proofs.Engine.Inputs
import Dataflow.Proofs.Engine.Progress

/-!
# The entries of a run

An entry of a run lies at a channel exactly from its publication until the reader takes
it, and it fits. `Flow` says so for all channels at once. It depends on the posts of the
nodes through their progress only, and there are two operations that matter to it: a
node takes an entry, `Flow.take`, or publishes one, `Flow.publish`. Any other operation
leaves it alone, `Flow.update`.
-/

namespace Dataflow

/-- The node that takes the entries of a channel. -/
def Channel.reader : Channel → NodeId
  | .staging v => v
  | .edge _ v => v

/-- The entry of the run was put into the channel. -/
def filled (q : NodeId → Progress) : Channel → Bool
  | .staging _ => true
  | .edge u v => (q u).published (.edge u v)

section Update

variable {q : NodeId → Progress} {v : NodeId} {P : Progress}

theorem update_same {β : Type} (f : Progress → β) (h : f P = f (q v)) (w : NodeId) :
    f (Function.update q v P w) = f (q w) := by
  by_cases hw : w = v
  · subst hw
    rw [Function.update_self, h]
  · rw [Function.update_of_ne hw]

theorem progress_update {α : Type} (p : NodeId → Post α) (v : NodeId) (P : Post α) :
    (fun w => (Function.update p v P w).progress) =
      Function.update (fun w => (p w).progress) v P.progress := by
  funext w
  by_cases hw : w = v
  · subst hw
    simp
  · simp [hw]

end Update

namespace Graph

variable {α : Type} {g : Graph α}

theorem inlets_of_nil {v : NodeId} (h : g.predecessors v = []) : g.inlets v = [.staging v] := by
  simp only [inlets, h]

theorem inlets_of_ne_nil {v : NodeId} (h : g.predecessors v ≠ []) :
    g.inlets v = (g.predecessors v).map (.edge · v) := by
  unfold inlets
  split
  · next hp => exact absurd hp h
  · rfl

theorem inlets_ne_nil (g : Graph α) (v : NodeId) : g.inlets v ≠ [] := by
  unfold inlets
  split
  · simp
  · next hne => simpa using hne

theorem mem_outlets {c : Channel} {v : NodeId} :
    c ∈ g.outlets v ↔ ∃ w ∈ g.successors v, c = .edge v w := by
  unfold outlets
  rw [List.mem_map]
  exact ⟨fun ⟨w, hw, he⟩ => ⟨w, hw, he.symm⟩, fun ⟨w, hw, he⟩ => ⟨w, hw, he.symm⟩⟩

theorem carries_of_mem_outlets {c : Channel} {v : NodeId} (h : c ∈ g.outlets v) :
    g.Carries c := by
  obtain ⟨w, hw, rfl⟩ := mem_outlets.mp h
  exact hw

namespace Frozen

theorem mem_inlets (h : g.Frozen) {c : Channel} {v : NodeId} (hv : v < g.nodes.size) :
    c ∈ g.inlets v ↔ g.Carries c ∧ c.reader = v := by
  by_cases hp : g.predecessors v = []
  · rw [inlets_of_nil hp]
    constructor
    · intro hc
      obtain rfl := List.mem_singleton.mp hc
      exact ⟨h.mem_sources.mpr ⟨hv, hp⟩, rfl⟩
    · rintro ⟨hc, hr⟩
      cases c with
      | staging w =>
        obtain rfl : w = v := hr
        exact List.mem_singleton_self _
      | edge u w =>
        obtain rfl : w = v := hr
        have := h.linked.mem_predecessors.mpr (show w ∈ g.successors u from hc)
        simp [hp] at this
  · rw [inlets_of_ne_nil hp]
    constructor
    · intro hc
      obtain ⟨u, hu, rfl⟩ := List.mem_map.mp hc
      exact ⟨h.linked.mem_predecessors.mp hu, rfl⟩
    · rintro ⟨hc, hr⟩
      cases c with
      | staging w =>
        obtain rfl : w = v := hr
        exact absurd (h.mem_sources.mp hc).2 hp
      | edge u w =>
        obtain rfl : w = v := hr
        exact List.mem_map_of_mem (h.linked.mem_predecessors.mpr hc)

theorem reader_lt (h : g.Frozen) {c : Channel} (hc : g.Carries c) :
    c.reader < g.nodes.size := by
  cases c with
  | staging v => exact (h.mem_sources.mp hc).1
  | edge u v => exact h.linked.target_lt hc

theorem nodup_inlets (h : g.Frozen) (v : NodeId) : (g.inlets v).Nodup := by
  unfold inlets
  split
  · exact List.nodup_singleton _
  · exact (h.linked.nodup_predecessors v).map fun a b hab => by simpa using hab

theorem nodup_outlets (h : g.Frozen) (v : NodeId) : (g.outlets v).Nodup :=
  (h.linked.nodup_successors v).map fun a b hab => by simpa using hab

end Frozen

end Graph

variable {α : Type} [Payload α] {k : Strategy} {g : Graph α} {staged : Staged α}

/-! ### Entries -/

/-- **The entries of a run** at all channels: `has c e` says that one lies there. -/
structure Flow (g : Graph α) (staged : Staged α) (failed : Bool) (has : Channel → Entry α → Prop)
    (q : NodeId → Progress) : Prop where
  present_iff : ∀ {c}, g.Carries c →
    ((∃ e, has c e) ↔ filled q c = true ∧ (q c.reader).taken c = false)
  fits : ∀ {c e}, has c e → g.Fits staged failed c e
  /-- Nobody takes an entry before it is there. -/
  filled_of_taken : ∀ {c}, g.Carries c → (q c.reader).taken c = true → filled q c = true

namespace Flow

variable {failed : Bool} {has has' : Channel → Entry α → Prop} {q : NodeId → Progress}
  {v : NodeId} {P : Progress}

theorem mono (h : Flow g staged failed has q) {failed' : Bool}
    (hf : failed = true → failed' = true) : Flow g staged failed' has q where
  present_iff := h.present_iff
  fits := fun he => (h.fits he).mono hf
  filled_of_taken := h.filled_of_taken

omit [Payload α] in
theorem filled_update {c : Channel} (hp : c ∈ g.outlets v → P.published c = (q v).published c)
    (hc : g.Carries c) : filled (Function.update q v P) c = filled q c := by
  cases c with
  | staging w => rfl
  | edge u w =>
    by_cases hu : u = v
    · subst hu
      simpa [filled] using hp (Graph.mem_outlets.mpr ⟨w, hc, rfl⟩)
    · simp [filled, hu]

omit [Payload α] in
theorem taken_update (hg : g.Frozen) {c : Channel} (hc : g.Carries c)
    (ht : c ∈ g.inlets v → P.taken c = (q v).taken c) :
    (Function.update q v P c.reader).taken c = (q c.reader).taken c := by
  by_cases hr : c.reader = v
  · rw [hr, Function.update_self]
    exact ht ((hg.mem_inlets (hr ▸ hg.reader_lt hc)).mpr ⟨hc, hr⟩)
  · rw [Function.update_of_ne hr]

/-- A node that neither takes nor publishes leaves the flow alone. -/
theorem update (hg : g.Frozen) (h : Flow g staged failed has q)
    (hp : ∀ c ∈ g.outlets v, P.published c = (q v).published c)
    (ht : ∀ c ∈ g.inlets v, P.taken c = (q v).taken c) :
    Flow g staged failed has (Function.update q v P) where
  present_iff := by
    intro c hc
    rw [filled_update (hp c) hc, taken_update hg hc (ht c)]
    exact h.present_iff hc
  fits := h.fits
  filled_of_taken := by
    intro c hc
    rw [filled_update (hp c) hc, taken_update hg hc (ht c)]
    exact h.filled_of_taken hc

/-- **A node takes an entry** from one of its inlets. -/
theorem take (hg : g.Frozen) (h : Flow g staged failed has q) {c : Channel} {e : Entry α}
    (hv : v < g.nodes.size) (hc : c ∈ g.inlets v) (he : has c e)
    (hhas : ∀ c' e', has' c' e' ↔ has c' e' ∧ c' ≠ c)
    (hp : ∀ c ∈ g.outlets v, P.published c = (q v).published c)
    (ht : ∀ c' ∈ g.inlets v, P.taken c' = (decide (c' = c) || (q v).taken c')) :
    Flow g staged failed has' (Function.update q v P) := by
  obtain ⟨hcc, hr⟩ := (hg.mem_inlets hv).mp hc
  have hother : ∀ {c'}, g.Carries c' → c' ≠ c →
      (Function.update q v P c'.reader).taken c' = (q c'.reader).taken c' := fun hc' hne =>
    taken_update hg hc' fun hin => by rw [ht _ hin, decide_eq_false hne, Bool.false_or]
  -- the entry leaves its own channel, and all others are as they were
  constructor
  · intro c' hc'
    rw [filled_update (hp c') hc']
    by_cases hcc' : c' = c
    · subst hcc'
      have : P.taken c' = true := by simp [ht c' hc]
      simp [hhas, hr, this]
    · rw [hother hc' hcc']
      simp only [hhas, hcc', ne_eq, not_false_eq_true, and_true]
      exact h.present_iff hc'
  · intro c' e' he'
    exact h.fits ((hhas c' e').mp he').1
  · intro c' hc' htk
    rw [filled_update (hp c') hc']
    by_cases hcc' : c' = c
    · subst hcc'
      exact ((h.present_iff hcc).mp ⟨e, he⟩).1
    · rw [hother hc' hcc'] at htk
      exact h.filled_of_taken hc' htk

/-- **A node publishes an entry** that fits. -/
theorem publish (hg : g.Frozen) (h : Flow g staged failed has q) {c : Channel} {e : Entry α}
    (hc : c ∈ g.outlets v) (hnew : (q v).published c = false) (he : g.Fits staged failed c e)
    (hhas : ∀ c' e', has' c' e' ↔ has c' e' ∨ c' = c ∧ e' = e)
    (hp : ∀ c' ∈ g.outlets v, P.published c' = (decide (c' = c) || (q v).published c'))
    (ht : ∀ c ∈ g.inlets v, P.taken c = (q v).taken c) :
    Flow g staged failed has' (Function.update q v P) := by
  obtain ⟨w, hw, rfl⟩ := Graph.mem_outlets.mp hc
  have hfill : filled (Function.update q v P) (.edge v w) = true := by
    simp [filled, hp _ hc]
  have hother : ∀ {c'}, g.Carries c' → c' ≠ .edge v w →
      filled (Function.update q v P) c' = filled q c' := fun hc' hne =>
    filled_update (fun hin => by rw [hp _ hin, decide_eq_false hne, Bool.false_or]) hc'
  constructor
  · intro c' hc'
    rw [taken_update hg hc' (ht c')]
    by_cases hcc' : c' = .edge v w
    · subst hcc'
      -- the reader cannot have taken what was not published
      have hnt : (q w).taken (.edge v w) ≠ true := fun htk => by
        have hf : (q v).published (.edge v w) = true := h.filled_of_taken (c := .edge v w) hc' htk
        rw [hnew] at hf
        exact absurd hf Bool.false_ne_true
      have hhas' : ∃ e', has' (.edge v w) e' := ⟨e, (hhas _ _).mpr (Or.inr ⟨rfl, rfl⟩)⟩
      exact iff_of_true hhas' ⟨hfill, Bool.not_eq_true _ ▸ hnt⟩
    · rw [hother hc' hcc']
      simp only [hhas, hcc', false_and, or_false]
      exact h.present_iff hc'
  · intro c' e' he'
    rcases (hhas c' e').mp he' with he' | ⟨rfl, rfl⟩
    · exact h.fits he'
    · exact he
  · intro c' hc' htk
    rw [taken_update hg hc' (ht c')] at htk
    by_cases hcc' : c' = .edge v w
    · exact hcc' ▸ hfill
    · rw [hother hc' hcc']
      exact h.filled_of_taken hc' htk

end Flow

end Dataflow
