import Dataflow.Run.Handover

/-!
# How the outcome of a run is delivered

A cell has three times. Before it is resolved it only keeps the waker of the last poll that
came too early; then it has the outcome, until somebody takes it; and then it has nothing any
more. In which of them it is can be read off the critical sections that calls have passed so
far, `Phase`: the first call to resolve begins the second time, and the first call to obtain
an outcome ends it. What a call comes to depends on the time in which it comes.

The thread that resolves the cell has two more things to do outside its critical section, and
while it does them others pass theirs. No other thread does anything of the kind, so all that
can be seen of it is how far it has got, `Told`.
-/

namespace Dataflow

variable {α : Type}

/-! ### Critical sections -/

namespace CellCall

/-- The outcome that the call brings to the cell. -/
def brings? : CellCall α → Option (RunOutcome α)
  | resolve outcome => some outcome
  | _ => none

/-- The call comes for the outcome. -/
def Collects : CellCall α → Prop
  | resolve _ => False
  | isReady => False
  | _ => True

/-- What the call comes back with once the outcome has been taken. -/
def spent : CellCall α → CellReply α
  | resolve _ => .refused
  | isReady => .flag false
  | tryTake => .taken none
  | wait => .waited (.error (.text "RunFuture::wait: [1]"))
  | waitLimited => .taken none
  | poll _ => .polled (.panicked (.text "RunFuture::poll: polled after completion"))

end CellCall

namespace CellSection

/-- The cell that is left behind, if `c` was found. -/
def cell (c : Cell α) : CellSection α → Cell α
  | leave c' _ => c'
  | announce c' _ => c'
  | sleep => c

/-- What the call comes back with, if it is over. -/
def reply? : CellSection α → Option (CellReply α)
  | leave _ reply => some reply
  | _ => none

end CellSection

/-- **All that a critical section can come to**, as far as other threads can tell. -/
inductive CellCall.Comes (c : Cell α) : CellSection α → Prop where
  | returns {c' : Cell α} {reply : CellReply α} (hc : c'.resolved = c.resolved)
      (hreply : reply ≠ .resolved) : Comes c (.leave c' reply)
  | resolves {c' : Cell α} (hc : c.resolved = false) (hc' : c'.resolved = true) :
      Comes c (.announce c' c.waker)
  | waits (hc : c.resolved = false) : Comes c .sleep

theorem CellCall.enter_comes (call : CellCall α) (expired : Bool) (c : Cell α) :
    Comes c (call.enter expired c) := by
  cases call with
  | isReady | tryTake => exact .returns rfl nofun
  | resolve outcome =>
    cases hc : c.resolved <;> simp only [enter, Cell.resolve, hc, if_true, Bool.false_eq_true,
      if_false]
    · exact .resolves hc rfl
    · exact .returns rfl nofun
  | wait =>
    cases hc : c.resolved <;> simp only [enter, Cell.wait, hc, if_true, Bool.false_eq_true,
      if_false]
    · exact .waits hc
    · cases c.outcome with
      | some outcome => exact .returns hc.symm nofun
      | none => exact .returns rfl nofun
  | waitLimited =>
    cases hc : c.resolved <;> simp only [enter, Cell.waitLimited, hc, if_true,
      Bool.false_eq_true, if_false]
    · cases expired with
      | true => exact .returns rfl nofun
      | false => exact .waits hc
    · exact .returns rfl nofun
  | poll waker =>
    refine .returns ?_ nofun
    rw [Cell.poll]
    split
    · rfl
    · split <;> rfl

/-- A critical section that a thread has passed: its call, whether the time of a limited wait
was over, and the cell that it found. -/
structure Visit (α : Type) where
  thread : Nat
  call : CellCall α
  expired : Bool
  cell : Cell α

namespace Visit

/-- What the critical section came to. -/
def came (v : Visit α) : CellSection α :=
  v.call.enter v.expired v.cell

/-- The outcome that the call has obtained in it. -/
def obtained? (v : Visit α) : Option (RunOutcome α) :=
  v.came.reply?.bind (·.outcome?)

/-- The waker that has been left behind in it, by a poll that came too early. -/
def leaves? (v : Visit α) : Option WakerId :=
  match v.call, v.came.reply? with
  | .poll waker, some (.polled .pending) => some waker
  | _, _ => none

end Visit

namespace Visit

variable {v : Visit α}

/-- What a call obtains was in the cell. -/
theorem outcome_of_obtained {outcome : RunOutcome α} (h : v.obtained? = some outcome) :
    v.cell.outcome = some outcome := by
  obtain ⟨i, call, expired, held, resolved, waker⟩ := v
  cases call with
  | resolve => cases resolved <;> cases h
  | isReady => cases h
  | tryTake => exact h
  | wait | poll => cases resolved <;> cases held <;> first | exact h | cases h
  | waitLimited => cases resolved <;> cases expired <;> first | exact h | cases h

theorem obtained?_of_none (h : v.cell.outcome = none) : v.obtained? = none := by
  cases ho : v.obtained? with
  | none => rfl
  | some outcome => cases h.symm.trans (outcome_of_obtained ho)

/-- **In the second time** the first to come for the outcome obtains it. -/
theorem came_full {outcome : RunOutcome α}
    (hc : v.cell = { outcome := some outcome, resolved := true }) (hv : v.call.Collects) :
    v.obtained? = some outcome ∧ v.came.cell v.cell = { resolved := true } := by
  obtain ⟨i, call, expired, c⟩ := v
  obtain rfl := hc
  cases call with
  | resolve | isReady => exact hv.elim
  | _ => exact ⟨rfl, rfl⟩

/-- **In the third time** every call is over at once and has nothing to show for it. -/
theorem came_spent (hc : v.cell = { resolved := true }) : v.came = .leave v.cell v.call.spent := by
  obtain ⟨i, call, expired, c⟩ := v
  obtain rfl := hc
  cases call <;> rfl

/-- Only a poll that finds the cell unresolved leaves its waker behind. -/
theorem leaves?_of_resolved (h : v.cell.resolved = true) : v.leaves? = none := by
  obtain ⟨i, call, expired, c⟩ := v
  cases call with
  | poll waker =>
    have hr : c.resolved = true := h
    simp only [leaves?, came, CellCall.enter, CellSection.reply?, Cell.poll, hr]
    cases c.outcome <;> rfl
  | _ => rfl

/-- Calling to resolve a resolved cell does nothing. -/
theorem came_refused {outcome : RunOutcome α} (hv : v.call = .resolve outcome)
    (h : v.cell.resolved = true) : v.came = .leave v.cell .refused := by
  simp only [came, hv, CellCall.enter, Cell.resolve, h, if_true]

end Visit

/-! ### Three times -/

namespace Cell

/-- The outcome that the first call to resolve has brought. -/
def offered? (H : List (Visit α)) : Option (RunOutcome α) :=
  H.findSome? (·.call.brings?)

/-- The outcomes that calls have obtained. -/
def gains (H : List (Visit α)) : List (RunOutcome α) :=
  H.filterMap (·.obtained?)

/-- The waker of the latest poll that came too early. -/
def leftBehind? (H : List (Visit α)) : Option WakerId :=
  (H.filterMap (·.leaves?)).getLast?

variable {H : List (Visit α)} {v : Visit α} {c : Cell α}

theorem offered?_concat : offered? (H ++ [v]) = (offered? H).or v.call.brings? := by
  simp [offered?, List.findSome?_append]

theorem gains_concat : gains (H ++ [v]) = gains H ++ v.obtained?.toList := by
  simp only [gains, List.filterMap_append, List.filterMap_cons, List.filterMap_nil]
  cases v.obtained? <;> rfl

theorem leftBehind?_concat : leftBehind? (H ++ [v]) = v.leaves?.or (leftBehind? H) := by
  simp only [leftBehind?, List.filterMap_append, List.filterMap_cons, List.filterMap_nil]
  cases v.leaves? <;> simp

/-- **In which of its three times a cell is** after the critical sections that have been
passed. -/
inductive Phase (H : List (Visit α)) (c : Cell α) : Prop where
  | early (ho : offered? H = none) (hg : gains H = []) (hc : c = { waker := leftBehind? H })
  | full {outcome : RunOutcome α} (ho : offered? H = some outcome) (hg : gains H = [])
      (hc : c = { outcome := some outcome, resolved := true })
  | spent {outcome : RunOutcome α} (ho : offered? H = some outcome) (hg : gains H = [outcome])
      (hc : c = { resolved := true })

theorem phase_nil : Phase ([] : List (Visit α)) {} :=
  .early rfl rfl rfl

namespace Phase

theorem resolved_eq (h : Phase H c) : c.resolved = (offered? H).isSome := by
  cases h with
  | early ho hg hc | full ho hg hc | spent ho hg hc => rw [ho, hc]; rfl

/-- **Nobody obtains anything but what was brought first.** -/
theorem genuine (h : Phase H v.cell) {outcome : RunOutcome α}
    (hv : v.obtained? = some outcome) : offered? H = some outcome := by
  have hc := Visit.outcome_of_obtained hv
  cases h with
  | early ho hg hcell | spent ho hg hcell => rw [hcell] at hc; cases hc
  | full ho hg hcell => rw [hcell] at hc; exact ho.trans hc

/-- A critical section that brings nothing new and takes nothing changes nothing. -/
theorem same (h : Phase H c) (hb : (offered? H).or v.call.brings? = offered? H)
    (hobtained : v.obtained? = none) (hleaves : v.leaves? = none) : Phase (H ++ [v]) c := by
  have ho : offered? (H ++ [v]) = offered? H := offered?_concat.trans hb
  have hg : gains (H ++ [v]) = gains H := by
    rw [gains_concat, hobtained, Option.toList_none, List.append_nil]
  have hl : leftBehind? (H ++ [v]) = leftBehind? H := by
    rw [leftBehind?_concat, hleaves, Option.none_or]
  cases h with
  | early ho' hg' hc => exact .early (ho.trans ho') (hg.trans hg') (hl ▸ hc)
  | full ho' hg' hc => exact .full (ho.trans ho') (hg.trans hg') hc
  | spent ho' hg' hc => exact .spent (ho.trans ho') (hg.trans hg') hc

end Phase

end Cell

namespace Cell

variable {H : List (Visit α)} {v : Visit α}

/-- **What a critical section does to the cell.** -/
theorem Phase.visit (h : Phase H v.cell) : Phase (H ++ [v]) (v.came.cell v.cell) := by
  cases h with
  | early ho hg hc =>
    have hnone : v.obtained? = none := Visit.obtained?_of_none (by rw [hc])
    obtain ⟨i, call, expired, c⟩ := v
    obtain rfl : c = _ := hc
    have hgains : gains (H ++ [⟨i, call, expired, { waker := leftBehind? H }⟩]) = [] := by
      rw [gains_concat, hnone, hg]
      rfl
    cases call with
    | resolve outcome => exact .full (by rw [offered?_concat, ho]; rfl) hgains rfl
    | poll waker =>
      exact .early (by rw [offered?_concat, ho]; rfl) hgains (by rw [leftBehind?_concat]; rfl)
    | waitLimited =>
      cases expired <;> exact .same (.early ho hg rfl) (Option.or_none ..) rfl rfl
    | _ => exact .same (.early ho hg rfl) (Option.or_none ..) rfl rfl
  | @full outcome ho hg hc =>
    have hor : (offered? H).or v.call.brings? = offered? H := by rw [ho, Option.some_or]
    have hleaves : v.leaves? = none := Visit.leaves?_of_resolved (by rw [hc])
    by_cases hv : v.call.Collects
    · obtain ⟨hobtained, hcell⟩ := Visit.came_full hc hv
      refine Phase.spent (?_ : _ = some outcome) ?_ hcell
      · rw [offered?_concat, hor, ho]
      · rw [gains_concat, hg, hobtained]
        rfl
    · have hsame : v.obtained? = none ∧ v.came.cell v.cell = v.cell := by
        obtain ⟨i, call, expired, c⟩ := v
        obtain rfl : c = _ := hc
        cases call with
        | resolve | isReady => exact ⟨rfl, rfl⟩
        | _ => exact absurd trivial hv
      rw [hsame.2]
      exact .same (.full ho hg hc) hor hsame.1 hleaves
  | spent ho hg hc =>
    have hcame := Visit.came_spent hc
    rw [show v.came.cell v.cell = v.cell by rw [hcame]; rfl]
    exact .same (.spent ho hg hc) (by rw [ho, Option.some_or])
      (Visit.obtained?_of_none (by rw [hc])) (Visit.leaves?_of_resolved (by rw [hc]))

end Cell

/-! ### Threads -/

namespace CellThread

/-- The call of a thread whose next step is a critical section. -/
def enters? : CellThread α → Option (CellCall α)
  | entering call => some call
  | woken call => some call
  | _ => none

/-- The thread has resolved the cell. -/
def IsHerald : CellThread α → Prop
  | announcing _ => True
  | waking _ => True
  | done .resolved => True
  | _ => False

def IsAsleep : CellThread α → Prop
  | asleep _ => True
  | _ => False

theorem not_isHerald_of_enters {t : CellThread α} {call : CellCall α}
    (h : t.enters? = some call) : ¬ t.IsHerald := by
  rintro ht
  cases t with
  | entering | woken => exact ht
  | _ => cases h

theorem not_isAsleep_rouse (t : CellThread α) : ¬ t.rouse.IsAsleep := by
  cases t <;> exact id

end CellThread

namespace Handover

variable {m m' : Handover α} {H : List (Visit α)} {i j : Nat} {expired : Bool}

/-- The critical section that the next step of a thread passes, if it does. -/
def visit? (m : Handover α) (i : Nat) (expired : Bool) : Option (Visit α) :=
  (m.threads[i]?.bind (·.enters?)).map (⟨i, ·, expired, m.cell⟩)

/-- **All that the step of a thread can be.** -/
inductive Move (m : Handover α) (i : Nat) : Handover α → Option (Visit α) → Prop where
  | enter {t : CellThread α} {v : Visit α} (ht : m.threads[i]? = some t)
      (hcall : t.enters? = some v.call) (hcell : v.cell = m.cell) (hi : v.thread = i) :
      Move m i ({ m with cell := v.came.cell m.cell }.setThread i (.ofSection v.call v.came))
        (some v)
  | stir {call : CellCall α} (ht : m.threads[i]? = some (.asleep call)) :
      Move m i (m.setThread i (.woken call)) none
  | announce {waker : Option WakerId} (ht : m.threads[i]? = some (.announcing waker)) :
      Move m i ({ m with threads := m.threads.map CellThread.rouse }.setThread i (.waking waker))
        none
  | finish {waker : Option WakerId} (ht : m.threads[i]? = some (.waking waker)) :
      Move m i ({ m with woken := m.woken ++ waker.toList }.setThread i (.done .resolved)) none

theorem move_of_advance (h : m.advance i expired = some m') : m.Move i m' (m.visit? i expired) := by
  have hpass : ∀ {t : CellThread α} {call : CellCall α}, m.threads[i]? = some t →
      t.enters? = some call → m.Move i (m.pass i call expired) (m.visit? i expired) := by
    intro t call ht hcall
    have hm := Move.enter (v := ⟨i, call, expired, m.cell⟩) ht hcall rfl rfl
    have hv : m.visit? i expired = some ⟨i, call, expired, m.cell⟩ := by
      rw [visit?, ht, Option.bind_some, hcall, Option.map_some]
    rw [hv]
    simp only [Visit.came] at hm
    rw [pass]
    cases hs : call.enter expired m.cell <;> rw [hs] at hm <;> exact hm
  have hquiet : ∀ {t : CellThread α}, m.threads[i]? = some t → t.enters? = none →
      m.visit? i expired = none := by
    intro t ht hcall
    rw [visit?, ht, Option.bind_some, hcall, Option.map_none]
  rw [advance] at h
  split at h
  · next ht => exact Option.some.inj h ▸ hpass ht rfl
  · next ht => exact Option.some.inj h ▸ hpass ht rfl
  · next ht => exact hquiet ht rfl ▸ Option.some.inj h ▸ .stir ht
  · next ht => exact hquiet ht rfl ▸ Option.some.inj h ▸ .announce ht
  · next ht => exact hquiet ht rfl ▸ Option.some.inj h ▸ .finish ht
  · cases h
  · cases h

/-- **A run of any number of threads under any schedule**, with the critical sections that
they pass. -/
inductive Recorded : Handover α → List (Visit α) → Prop where
  | start : Recorded {} []
  | call {m : Handover α} {H : List (Visit α)} (h : Recorded m H) (c : CellCall α) :
      Recorded (m.call c) H
  | step {m m' : Handover α} {H : List (Visit α)} (h : Recorded m H) {i : Nat} {expired : Bool}
      (hs : m.advance i expired = some m') : Recorded m' (H ++ (m.visit? i expired).toList)

/-- The given threads take a step each, one after the other. -/
def run (m : Handover α) : List (Nat × Bool) → Option (Handover α)
  | [] => some m
  | (i, expired) :: steps => (m.advance i expired).bind (·.run steps)

theorem Recorded.run (h : Recorded m H) (steps : List (Nat × Bool)) (hr : m.run steps = some m') :
    ∃ H', Recorded m' H' := by
  induction steps generalizing m H with
  | nil => exact ⟨H, Option.some.inj hr ▸ h⟩
  | cons step steps ih =>
    obtain ⟨_, hs, hr⟩ := Option.bind_eq_some_iff.mp hr
    exact ih (h.step hs) hr

theorem Recorded.phase (h : Recorded m H) : Cell.Phase H m.cell := by
  induction h with
  | start => exact Cell.phase_nil
  | call _ _ ih => exact ih
  | step _ hs ih =>
    have hm := move_of_advance hs
    generalize Handover.visit? _ _ _ = visit at hm ⊢
    cases hm with
    | @enter t v ht hcall hcell hi =>
      rw [← hcell] at ih
      exact hcell ▸ ih.visit
    | stir | announce | finish =>
      rw [Option.toList_none, List.append_nil]
      exact ih

/-- When a critical section was passed, the cell was what earlier ones had made of it. -/
theorem Recorded.phase_visit (h : Recorded m H) {pre post : List (Visit α)} {v : Visit α}
    (hH : H = pre ++ v :: post) : Cell.Phase pre v.cell := by
  induction h generalizing post with
  | start => cases pre <;> cases hH
  | call _ _ ih => exact ih hH
  | step hm hs ih =>
    have hmove := move_of_advance hs
    generalize Handover.visit? _ _ _ = visit at hmove hH
    cases hmove with
    | @enter t u ht hcall hcell hi =>
      rcases post.eq_nil_or_concat with rfl | ⟨post, w, rfl⟩
      · obtain ⟨rfl, hu⟩ := List.append_inj' hH rfl
        obtain rfl := (List.cons.inj hu).1
        exact hcell ▸ hm.phase
      · rw [List.concat_eq_append, ← List.cons_append, ← List.append_assoc] at hH
        exact ih (List.append_inj' hH rfl).1
    | stir | announce | finish =>
      rw [Option.toList_none, List.append_nil] at hH
      exact ih hH

/-! ### Where threads are found -/

theorem getElem?_setThread_self {t : CellThread α} (h : i < m.threads.size) :
    (m.setThread i t).threads[i]? = some t := by
  rw [setThread, Array.getElem?_setIfInBounds_self, if_pos h]

theorem getElem?_setThread_ne {t : CellThread α} (h : j ≠ i) :
    (m.setThread i t).threads[j]? = m.threads[j]? :=
  Array.getElem?_setIfInBounds_ne h.symm

/-- A thread is where it was put, or is the same as before. -/
theorem thread_of_setThread {t t' : CellThread α}
    (h : (m.setThread i t).threads[j]? = some t') : j = i ∧ t' = t ∨ m.threads[j]? = some t' := by
  by_cases hj : j = i
  · subst hj
    rw [setThread, Array.getElem?_setIfInBounds_self] at h
    split at h
    · exact Or.inl ⟨rfl, (Option.some.inj h).symm⟩
    · cases h
  · exact Or.inr ((getElem?_setThread_ne hj).symm.trans h)

theorem thread_of_call {c : CellCall α} {t : CellThread α}
    (h : (m.call c).threads[j]? = some t) : t = .entering c ∨ m.threads[j]? = some t := by
  rw [Handover.call, Array.getElem?_push] at h
  split at h
  · exact Or.inl (Option.some.inj h).symm
  · exact Or.inr h

/-- A thread that has an outcome has obtained it in a critical section. -/
theorem Recorded.obtained (h : Recorded m H) {reply : CellReply α} {outcome : RunOutcome α}
    (hj : m.threads[j]? = some (.done reply)) (ho : reply.outcome? = some outcome) :
    ∃ v ∈ H, v.thread = j ∧ v.obtained? = some outcome := by
  induction h with
  | start => cases hj
  | call _ c ih => exact ih ((thread_of_call hj).resolve_left nofun)
  | step _ hs ih =>
    have hmove := move_of_advance hs
    generalize Handover.visit? _ _ _ = visit at hmove ⊢
    cases hmove with
    | @enter t v ht hcall hcell hi =>
      rcases thread_of_setThread hj with ⟨rfl, hv⟩ | hj
      · refine ⟨v, List.mem_append_right _ (List.mem_singleton_self v), hi, ?_⟩
        rw [Visit.obtained?]
        cases hs : v.came with
        | leave cell r =>
          rw [hs] at hv
          obtain rfl := CellThread.done.inj hv
          exact ho
        | announce | sleep => rw [hs] at hv; cases hv
      · obtain ⟨w, hw, hwj⟩ := ih hj
        exact ⟨w, List.mem_append_left _ hw, hwj⟩
    | stir ht =>
      rw [Option.toList_none, List.append_nil]
      exact ih ((thread_of_setThread hj).resolve_left nofun)
    | announce ht =>
      rw [Option.toList_none, List.append_nil]
      have hj := (thread_of_setThread hj).resolve_left nofun
      rw [Array.getElem?_map] at hj
      obtain ⟨t, htj, hrouse⟩ := Option.map_eq_some_iff.mp hj
      refine ih (htj.trans (congrArg some ?_))
      cases t <;> cases hrouse
      rfl
    | finish ht =>
      rw [Option.toList_none, List.append_nil]
      rcases thread_of_setThread hj with ⟨-, hr⟩ | hj
      · cases CellThread.done.inj hr
        cases ho
      · exact ih hj

/-! ### The news -/

/-- Nobody sleeps. -/
def Awake (m : Handover α) : Prop :=
  ∀ {j : Nat} {t : CellThread α}, m.threads[j]? = some t → ¬ t.IsAsleep

/-- Only this thread may have resolved the cell. -/
def OnlyHerald (m : Handover α) (i : Nat) : Prop :=
  ∀ {j : Nat} {t : CellThread α}, m.threads[j]? = some t → t.IsHerald → j = i

/-- **How far the news has got that the cell is resolved**, if `waker` was left behind. -/
inductive Told (m : Handover α) (waker : Option WakerId) : Prop where
  | unresolved (hr : m.cell.resolved = false) (hw : m.woken = [])
      (hno : ∀ {j : Nat} {t : CellThread α}, m.threads[j]? = some t → ¬ t.IsHerald)
  | announcing (i : Nat) (hr : m.cell.resolved = true) (hw : m.woken = [])
      (ht : m.threads[i]? = some (.announcing waker)) (hone : m.OnlyHerald i)
  | waking (i : Nat) (hr : m.cell.resolved = true) (hw : m.woken = [])
      (ht : m.threads[i]? = some (.waking waker)) (hone : m.OnlyHerald i) (hawake : m.Awake)
  | done (i : Nat) (hr : m.cell.resolved = true) (hw : m.woken = waker.toList)
      (ht : m.threads[i]? = some (.done .resolved)) (hone : m.OnlyHerald i) (hawake : m.Awake)

/-- No thread gets on with the news. -/
structure Still (m m' : Handover α) : Prop where
  resolved : m'.cell.resolved = m.cell.resolved
  woken : m'.woken = m.woken
  herald : ∀ (j : Nat) {t : CellThread α}, t.IsHerald →
    (m'.threads[j]? = some t ↔ m.threads[j]? = some t)
  awake : m.cell.resolved = true → m.Awake → m'.Awake

theorem Told.still {waker waker' : Option WakerId} (h : m.Told waker) (hs : Still m m')
    (hwaker : m.cell.resolved = true → waker' = waker) : m'.Told waker' := by
  have hone : ∀ {i : Nat}, m.OnlyHerald i → m'.OnlyHerald i :=
    fun hone _ _ hj hh => hone ((hs.herald _ hh).mp hj) hh
  cases h with
  | unresolved hr hw hno =>
    exact .unresolved (hs.resolved.trans hr) (hs.woken.trans hw)
      fun hj hh => hno ((hs.herald _ hh).mp hj) hh
  | announcing i hr hw ht ho =>
    obtain rfl := hwaker hr
    exact .announcing i (hs.resolved.trans hr) (hs.woken.trans hw)
      ((hs.herald i (t := .announcing _) trivial).mpr ht) (hone ho)
  | waking i hr hw ht ho hawake =>
    obtain rfl := hwaker hr
    exact .waking i (hs.resolved.trans hr) (hs.woken.trans hw)
      ((hs.herald i (t := .waking _) trivial).mpr ht) (hone ho) (hs.awake hr hawake)
  | done i hr hw ht ho hawake =>
    obtain rfl := hwaker hr
    exact .done i (hs.resolved.trans hr) (hs.woken.trans hw)
      ((hs.herald i (t := .done .resolved) trivial).mpr ht) (hone ho) (hs.awake hr hawake)

theorem still_call (m : Handover α) (c : CellCall α) : Still m (m.call c) where
  resolved := rfl
  woken := rfl
  herald := by
    intro j t hh
    rw [Handover.call, Array.getElem?_push]
    split
    · next hj =>
      subst hj
      rw [Array.getElem?_eq_none (Nat.le_refl _)]
      refine iff_of_false ?_ nofun
      rintro ⟨⟩
      exact hh
    · rfl
  awake := by
    intro _ hawake j t ht
    rcases thread_of_call ht with rfl | ht
    · exact id
    · exact hawake ht

/-- A thread that has not resolved the cell does something else. -/
theorem still_setThread {cell : Cell α} {t t' : CellThread α} (ht : m.threads[i]? = some t)
    (hh : ¬ t.IsHerald) (hh' : ¬ t'.IsHerald) (hcell : cell.resolved = m.cell.resolved)
    (ha : m.cell.resolved = true → ¬ t'.IsAsleep) :
    Still m ({ m with cell }.setThread i t') where
  resolved := hcell
  woken := rfl
  herald := by
    intro j u hu
    by_cases hj : j = i
    · subst hj
      rw [getElem?_setThread_self (m := { m with cell }) (Array.getElem?_eq_some_iff.mp ht).1, ht]
      refine iff_of_false ?_ ?_
      · rintro ⟨⟩
        exact hh' hu
      · rintro ⟨⟩
        exact hh hu
    · rw [getElem?_setThread_ne hj]
  awake := by
    intro hr hawake j u hj
    rcases thread_of_setThread hj with ⟨-, rfl⟩ | hj
    · exact ha hr
    · exact hawake hj

theorem Told.enter (h : m.Told (Cell.leftBehind? H)) (hphase : Cell.Phase H m.cell)
    {t : CellThread α} {v : Visit α} (ht : m.threads[i]? = some t)
    (hcall : t.enters? = some v.call) (hcell : v.cell = m.cell) :
    Told ({ m with cell := v.came.cell m.cell }.setThread i (.ofSection v.call v.came))
      (Cell.leftBehind? (H ++ [v])) := by
  have hh := CellThread.not_isHerald_of_enters hcall
  have hcomes := v.call.enter_comes v.expired v.cell
  have hlate : m.cell.resolved = true → Cell.leftBehind? (H ++ [v]) = Cell.leftBehind? H := by
    intro hr
    rw [Cell.leftBehind?_concat, v.leaves?_of_resolved (hcell ▸ hr), Option.none_or]
  rw [hcell] at hcomes
  generalize hs : v.call.enter v.expired m.cell = s at hcomes
  have hcame : v.came = s := by rw [Visit.came, hcell, hs]
  rw [hcame]
  cases hcomes with
  | @returns c' reply hc hreply =>
    refine h.still (still_setThread ht hh ?_ hc fun _ => id) hlate
    cases reply with
    | resolved => exact absurd rfl hreply
    | _ => exact id
  | @resolves c' hc hc' =>
    have hleaves : v.leaves? = none := by
      rw [Visit.leaves?, hcame]
      split
      · next hreply => cases hreply
      · rfl
    have hwaker : m.cell.waker = Cell.leftBehind? (H ++ [v]) := by
      rw [Cell.leftBehind?_concat, hleaves, Option.none_or]
      cases hphase with
      | early ho hg hcell => rw [hcell]
      | full ho hg hcell | spent ho hg hcell => rw [hcell] at hc; cases hc
    cases h with
    | unresolved hr hw hno =>
      refine .announcing i hc' hw ?_ fun hj hu => ?_
      · refine (getElem?_setThread_self (m := { m with cell := c' })
          (Array.getElem?_eq_some_iff.mp ht).1).trans ?_
        rw [← hwaker]
        rfl
      · rcases thread_of_setThread hj with ⟨hji, -⟩ | hj
        · exact hji
        · exact absurd hu (hno hj)
    | announcing _ hr | waking _ hr | done _ hr => rw [hc] at hr; cases hr
  | waits hc =>
    refine h.still (still_setThread ht hh id rfl fun hr => ?_) hlate
    rw [hc] at hr
    cases hr

/-- Everybody who sleeps is woken. -/
theorem Told.announce {waker waker' : Option WakerId} (h : m.Told waker)
    (ht : m.threads[i]? = some (.announcing waker')) :
    Told ({ m with threads := m.threads.map CellThread.rouse }.setThread i (.waking waker'))
      waker := by
  cases h with
  | unresolved hr hw hno => exact absurd trivial (hno ht)
  | announcing k hr hw hk hone =>
    obtain rfl := hone ht trivial
    obtain rfl := CellThread.announcing.inj (Option.some.inj (ht.symm.trans hk))
    have hrouse : ∀ {j : Nat} {u : CellThread α},
        (m.threads.map CellThread.rouse)[j]? = some u → ∃ t, m.threads[j]? = some t ∧ t.rouse = u :=
      fun hj => Option.map_eq_some_iff.mp (Array.getElem?_map ▸ hj)
    refine .waking i hr hw ?_ ?_ ?_
    · refine getElem?_setThread_self ?_
      simpa using (Array.getElem?_eq_some_iff.mp ht).1
    · intro j u hj hu
      rcases thread_of_setThread hj with ⟨hji, -⟩ | hj
      · exact hji
      · obtain ⟨t, htj, rfl⟩ := hrouse hj
        refine hone htj ?_
        cases t <;> exact hu
    · intro j u hj
      rcases thread_of_setThread hj with ⟨-, rfl⟩ | hj
      · exact id
      · obtain ⟨t, -, rfl⟩ := hrouse hj
        exact t.not_isAsleep_rouse
  | waking k hr hw hk hone =>
    obtain rfl := hone ht trivial
    cases ht.symm.trans hk
  | done k hr hw hk hone =>
    obtain rfl := hone ht trivial
    cases ht.symm.trans hk

/-- The waker that was left behind is woken. -/
theorem Told.finish {waker waker' : Option WakerId} (h : m.Told waker)
    (ht : m.threads[i]? = some (.waking waker')) :
    Told ({ m with woken := m.woken ++ waker'.toList }.setThread i (.done .resolved)) waker := by
  cases h with
  | unresolved hr hw hno => exact absurd trivial (hno ht)
  | announcing k hr hw hk hone =>
    obtain rfl := hone ht trivial
    cases ht.symm.trans hk
  | waking k hr hw hk hone hawake =>
    obtain rfl := hone ht trivial
    obtain rfl := CellThread.waking.inj (Option.some.inj (ht.symm.trans hk))
    refine .done i hr ?_ (getElem?_setThread_self (Array.getElem?_eq_some_iff.mp ht).1)
      (fun hj hu => ?_) ?_
    · show m.woken ++ waker'.toList = waker'.toList
      rw [hw, List.nil_append]
    · rcases thread_of_setThread hj with ⟨hji, -⟩ | hj
      · exact hji
      · exact hone hj hu
    · intro j u hj
      rcases thread_of_setThread hj with ⟨-, rfl⟩ | hj
      · exact id
      · exact hawake hj
  | done k hr hw hk hone =>
    obtain rfl := hone ht trivial
    cases ht.symm.trans hk

theorem Recorded.told (h : Recorded m H) : m.Told (Cell.leftBehind? H) := by
  induction h with
  | start => exact .unresolved rfl rfl nofun
  | call hm c ih => exact ih.still (still_call _ c) fun _ => rfl
  | step hm hs ih =>
    have hmove := move_of_advance hs
    generalize Handover.visit? _ _ _ = visit at hmove ⊢
    cases hmove with
    | enter ht hcall hcell hi => exact ih.enter hm.phase ht hcall hcell
    | stir ht =>
      rw [Option.toList_none, List.append_nil]
      exact ih.still (still_setThread ht id id rfl fun _ => id) fun _ => rfl
    | announce ht =>
      rw [Option.toList_none, List.append_nil]
      exact ih.announce ht
    | finish ht =>
      rw [Option.toList_none, List.append_nil]
      exact ih.finish ht

/-! ### The outcome and the news of it -/

open Cell (offered? gains leftBehind?)

/-- **What has been delivered** by calls that have passed these critical sections, one after
the other. -/
structure Delivered (m : Handover α) (H : List (Visit α)) : Prop where
  /-- Nobody obtains anything but what the first call to resolve has brought. -/
  genuine : ∀ {pre post : List (Visit α)} {v : Visit α} {outcome : RunOutcome α},
    H = pre ++ v :: post → v.obtained? = some outcome → offered? pre = some outcome
  /-- The first to come for it once it is there obtains it. -/
  prompt : ∀ {pre post : List (Visit α)} {v : Visit α} {outcome : RunOutcome α},
    H = pre ++ v :: post → offered? pre = some outcome → gains pre = [] → v.call.Collects →
      v.obtained? = some outcome
  once : (gains H).length ≤ 1
  /-- So a thread that has an outcome has this one, and is the only one. -/
  sole : ∀ {i : Nat} {reply : CellReply α} {outcome : RunOutcome α},
    m.threads[i]? = some (.done reply) → reply.outcome? = some outcome →
      offered? H = some outcome ∧ ∀ {j : Nat} {reply' : CellReply α},
        m.threads[j]? = some (.done reply') → reply'.outcome? ≠ none → j = i
  ready : ∀ {pre post : List (Visit α)} {v : Visit α}, H = pre ++ v :: post → v.call = .isReady →
    v.came = .leave v.cell (.flag ((offered? pre).isSome && (gains pre).isEmpty))
  /-- Once it has been taken, every call is over at once and changes nothing. -/
  spent : ∀ {pre post : List (Visit α)} {v : Visit α}, H = pre ++ v :: post → gains pre ≠ [] →
    v.came = .leave v.cell v.call.spent
  refused : ∀ {pre post : List (Visit α)} {v : Visit α} {outcome : RunOutcome α},
    H = pre ++ v :: post → (offered? pre).isSome = true → v.call = .resolve outcome →
      v.came = .leave v.cell .refused
  /-- No poll comes too early any more, once the cell has been resolved. -/
  late : ∀ {pre post : List (Visit α)} {v : Visit α}, H = pre ++ v :: post →
    (offered? pre).isSome = true → v.leaves? = none
  /-- When the call to resolve is over, the waker of the latest poll that came too early has
  been woken, and nobody sleeps. -/
  news : ∀ {i : Nat}, m.threads[i]? = some (.done .resolved) →
    m.woken = (leftBehind? H).toList ∧
      ∀ (j : Nat) (call : CellCall α), m.threads[j]? ≠ some (.asleep call)

theorem gains_of_phase {c : Cell α} (h : Cell.Phase H c) : (gains H).length ≤ 1 := by
  cases h with
  | early ho hg hc | full ho hg hc => rw [hg]; exact Nat.zero_le 1
  | spent ho hg hc => rw [hg]; exact Nat.le_refl 1

/-- Of two critical sections in which an outcome was obtained, both are the same. -/
theorem eq_of_gains {v w : Visit α} (h : (gains H).length ≤ 1) (hv : v ∈ H) (hw : w ∈ H)
    (hov : v.obtained?.isSome = true) (how : w.obtained?.isSome = true) : v = w := by
  rw [gains, List.length_filterMap_eq_countP, List.countP_eq_length_filter] at h
  have hmem : ∀ {u : Visit α}, u ∈ H → u.obtained?.isSome = true →
      u ∈ H.filter (·.obtained?.isSome) := fun hu ho => List.mem_filter.mpr ⟨hu, ho⟩
  have hv := hmem hv hov
  have hw := hmem hw how
  rcases Nat.le_one_iff_eq_zero_or_eq_one.mp h with h | h
  · rw [List.length_eq_zero_iff.mp h] at hv
    cases hv
  · obtain ⟨u, hu⟩ := List.length_eq_one_iff.mp h
    rw [hu] at hv hw
    exact (List.mem_singleton.mp hv).trans (List.mem_singleton.mp hw).symm

/-- **A cell delivers its outcome to the first who comes for it, and the news to everybody who
waits for it.** -/
theorem Recorded.delivered (h : Recorded m H) : m.Delivered H where
  genuine := fun hH hv => (h.phase_visit hH).genuine hv
  prompt := by
    intro pre post v outcome hH ho hg hv
    cases h.phase_visit hH with
    | early ho' => cases ho.symm.trans ho'
    | full ho' _ hc => exact (Visit.came_full hc hv).1.trans (ho'.symm.trans ho)
    | spent _ hg' => cases hg.symm.trans hg'
  once := gains_of_phase h.phase
  sole := by
    intro i reply outcome hi ho
    obtain ⟨v, hv, rfl, hobtained⟩ := h.obtained hi ho
    refine ⟨?_, ?_⟩
    · obtain ⟨pre, post, rfl⟩ := List.append_of_mem hv
      have hpre : offered? pre = some outcome := (h.phase_visit rfl).genuine hobtained
      rw [offered?, List.findSome?_append, ← offered?, hpre, Option.some_or]
    · intro j reply' hj ho'
      obtain ⟨outcome', ho'⟩ := Option.ne_none_iff_exists'.mp ho'
      obtain ⟨w, hw, rfl, hobtained'⟩ := h.obtained hj ho'
      rw [eq_of_gains (gains_of_phase h.phase) hw hv (by rw [hobtained']; rfl)
        (by rw [hobtained]; rfl)]
  ready := by
    intro pre post v hH hv
    have hphase := h.phase_visit hH
    rw [Visit.came, hv, CellCall.enter, Cell.isReady]
    cases hphase with
    | early ho hg hc | full ho hg hc | spent ho hg hc => rw [ho, hg, hc]; rfl
  spent := by
    intro pre post v hH hg
    cases h.phase_visit hH with
    | early _ hg' | full _ hg' => exact absurd hg' hg
    | spent _ _ hc => exact Visit.came_spent hc
  refused := by
    intro pre post v outcome hH ho hv
    exact Visit.came_refused hv ((h.phase_visit hH).resolved_eq.trans ho)
  late := by
    intro pre post v hH ho
    exact Visit.leaves?_of_resolved ((h.phase_visit hH).resolved_eq.trans ho)
  news := by
    intro i hi
    cases h.told with
    | unresolved _ _ hno => exact absurd trivial (hno hi)
    | announcing k _ _ hk hone =>
      obtain rfl := hone hi trivial
      cases hi.symm.trans hk
    | waking k _ _ hk hone =>
      obtain rfl := hone hi trivial
      cases hi.symm.trans hk
    | done k _ hw _ _ hawake => exact ⟨hw, fun j call hj => hawake hj trivial⟩

/-- A poll comes too early and a second thread sleeps; the cell is resolved, the sleeper wakes
and takes the outcome, and a fourth thread comes too late. -/
theorem delivered_of_four : ∃ (m : Handover Nat) (H : List (Visit Nat)), Recorded m H ∧
    m.threads = #[.done (.polled .pending), .done (.waited (.ok (.ok ⟨4, [(0, 9)]⟩))),
      .done .resolved, .done (.taken none)] ∧ m.woken = [7] ∧ m.Delivered H := by
  have hcalls : Recorded ⟨{}, #[.entering (.poll 7), .entering .wait,
      .entering (.resolve (.ok ⟨4, [(0, 9)]⟩)), .entering .tryTake], []⟩ [] :=
    (((Recorded.start.call _).call _).call _).call _
  obtain ⟨H, hH⟩ := hcalls.run [(0, false), (1, false), (2, false), (2, false), (1, false),
    (2, false), (3, false)] (show _ = some ⟨⟨none, true, none⟩, #[.done (.polled .pending),
      .done (.waited (.ok (.ok ⟨4, [(0, 9)]⟩))), .done .resolved, .done (.taken none)], [7]⟩ by
    simp [run, advance, pass, setThread, CellCall.enter, Cell.poll, Cell.wait, Cell.resolve,
      Cell.tryTake, CellThread.ofSection, CellThread.rouse])
  exact ⟨_, H, hH, rfl, rfl, hH.delivered⟩

end Handover

end Dataflow
