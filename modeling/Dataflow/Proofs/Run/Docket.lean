import Mathlib.Data.List.Nodup
import Dataflow.Proofs.Graph.Evaluated
import Dataflow.Proofs.Run.Ledger
import Dataflow.Run.Futures

/-!
# What becomes of the cells

Between its acceptance and the end of its future, the cell of a run is in one of a few
states: the run is open, it is over and some thread is about to resolve the cell, or the
cell was resolved, with the prescribed outcome or because the run was cancelled.
`Docket` says so for all accepted runs of one graph. The runs that are open, and what
threads are about to resolve (`dues`), come from elsewhere. Every cell belongs to one run,
so whatever is done to one of them leaves all other runs alone.
-/

namespace Dataflow

variable {α : Type}

/-! ### Single cells -/

/-- What the holder of a future can do to its cell, and the outcome that it gets, if any. -/
inductive Cell.Used (c : Cell α) : Option (RunOutcome α) → Cell α → Prop where
  | take : c.Used c.tryTake.1 c.tryTake.2
  | wait {o : RunOutcome α} {c' : Cell α} (h : c.wait = some (.ok o, c')) : c.Used (some o) c'
  | waitAgain {p : Panic} {c' : Cell α} (h : c.wait = some (.error p, c')) : c.Used none c'
  | waitLimited {expired : Bool} {answer : Option (RunOutcome α)} {c' : Cell α}
      (h : c.waitLimited expired = some (answer, c')) : c.Used answer c'
  | poll {waker : WakerId} {o : RunOutcome α} {c' : Cell α} (h : c.poll waker = (.ready o, c')) :
      c.Used (some o) c'
  | pollEarly {waker : WakerId} {c' : Cell α} (h : c.poll waker = (.pending, c')) :
      c.Used none c'
  | pollAgain {waker : WakerId} {p : Panic} {c' : Cell α}
      (h : c.poll waker = (.panicked p, c')) : c.Used none c'

/-- The outcome is taken out by whoever gets it, and that is all that concerns others. -/
def Cell.Spent (c : Cell α) (got : Option (RunOutcome α)) (c' : Cell α) : Prop :=
  c'.resolved = c.resolved ∧ match got with
    | none => c'.outcome = c.outcome
    | some o => c.outcome = some o ∧ c'.outcome = none

theorem Cell.spent_tryTake (c : Cell α) : c.Spent c.tryTake.1 c.tryTake.2 := by
  refine ⟨rfl, ?_⟩
  unfold tryTake
  cases c.outcome with
  | none => rfl
  | some o => exact ⟨rfl, rfl⟩

theorem Cell.spent_wait {c c' : Cell α} {answer : Except Panic (RunOutcome α)}
    (h : c.wait = some (answer, c')) : c.Spent answer.toOption c' := by
  unfold Cell.wait at h
  split at h
  · split at h
    · next o ho =>
      obtain ⟨rfl, rfl⟩ := Prod.mk.inj (Option.some.inj h)
      exact ⟨rfl, ho, rfl⟩
    · obtain ⟨rfl, rfl⟩ := Prod.mk.inj (Option.some.inj h)
      exact ⟨rfl, rfl⟩
  · cases h

theorem Cell.spent_poll {c c' : Cell α} {waker : WakerId} {answer : Poll α}
    (h : c.poll waker = (answer, c')) :
    c.Spent (match answer with
      | .ready o => some o
      | .pending | .panicked _ => none) c' := by
  unfold Cell.poll at h
  split at h
  · next o ho =>
    obtain ⟨rfl, rfl⟩ := Prod.mk.inj h
    exact ⟨rfl, ho, rfl⟩
  · split at h
    · obtain ⟨rfl, rfl⟩ := Prod.mk.inj h
      exact ⟨rfl, rfl⟩
    · obtain ⟨rfl, rfl⟩ := Prod.mk.inj h
      exact ⟨rfl, rfl⟩

/-- **However a future is used**, its outcome is given once. -/
theorem Cell.Used.spent {c c' : Cell α} {got : Option (RunOutcome α)} (h : c.Used got c') :
    c.Spent got c' := by
  cases h with
  | take => exact c.spent_tryTake
  | wait h => exact spent_wait h
  | waitAgain h => exact spent_wait h
  | waitLimited h =>
    unfold Cell.waitLimited at h
    split at h
    · obtain ⟨rfl, rfl⟩ := Prod.mk.inj (Option.some.inj h)
      exact c.spent_tryTake
    · split at h
      · obtain ⟨rfl, rfl⟩ := Prod.mk.inj (Option.some.inj h)
        exact ⟨rfl, rfl⟩
      · cases h
  | poll h => exact spent_poll h
  | pollEarly h => exact spent_poll h
  | pollAgain h => exact spent_poll h

namespace Futures

variable {f f' : Futures α} {id : CellId} {o : RunOutcome α}

theorem cell_setCell (f : Futures α) (id : CellId) (c : Cell α) {id' : CellId}
    (hid : id < f.cells.size) : (f.setCell id c).cell id' = if id' = id then c else f.cell id' := by
  unfold cell setCell
  rw [Array.getElem?_setIfInBounds]
  by_cases h : id = id'
  · simp [← h, hid]
  · rw [if_neg h, if_neg (Ne.symm h)]

theorem cell_extend (f : Futures α) {id : CellId} (hid : id < f.cells.size) :
    f.extend.cell id = f.cell id := by
  unfold cell extend
  rw [Array.getElem?_push_lt hid, Array.getElem?_eq_getElem hid]

theorem cell_nextCell_extend (f : Futures α) : f.extend.cell f.nextCell = {} := by
  simp [cell, extend, nextCell]

theorem size_setCell (f : Futures α) (id : CellId) (c : Cell α) :
    (f.setCell id c).cells.size = f.cells.size := by
  simp [setCell]

/-- **A cell that was not resolved can be resolved**, and all others stay as they are. -/
theorem resolve_of_pending (hid : id < f.cells.size) (h : (f.cell id).resolved = false)
    (o : RunOutcome α) : ∃ f', f.resolve id o = some f' ∧ f'.cells.size = f.cells.size ∧
      f'.cell id = { outcome := some o, resolved := true } ∧
      ∀ id', id' ≠ id → f'.cell id' = f.cell id' := by
  have hc : f.cells[id]? = some (f.cell id) := by
    rw [cell, Array.getElem?_eq_getElem hid]
    rfl
  refine ⟨{ f.setCell id { outcome := some o, resolved := true } with
    woken := f.woken ++ (f.cell id).waker.toList }, ?_, ?_, ?_, fun id' hne => ?_⟩
  · simp [resolve, hc, Cell.resolve, h]
  · simp [setCell]
  · exact (f.cell_setCell id _ hid).trans (if_pos rfl)
  · exact (f.cell_setCell id _ hid).trans (if_neg hne)

/-- The outcome is in the cell, or somebody has got it from there. -/
def Yields (f : Futures α) (taken : List (CellId × RunOutcome α)) (id : CellId)
    (o : RunOutcome α) : Prop :=
  (f.cell id).outcome = some o ∨ (id, o) ∈ taken

/-- Nothing has happened to a cell but that somebody may have got the outcome from there. -/
def Keeps (f : Futures α) (taken : List (CellId × RunOutcome α)) (f' : Futures α)
    (taken' : List (CellId × RunOutcome α)) (id : CellId) : Prop :=
  (f'.cell id).resolved = (f.cell id).resolved ∧
    ∀ o, f'.Yields taken' id o ↔ f.Yields taken id o

theorem Keeps.of_cell_eq {taken : List (CellId × RunOutcome α)}
    (h : f'.cell id = f.cell id) : f.Keeps taken f' taken id := by
  refine ⟨by rw [h], fun o => ?_⟩
  rw [Yields, Yields, h]

/-- What the holder of a future gets was in its cell. -/
theorem keeps_setCell {taken : List (CellId × RunOutcome α)} {c : Cell α}
    {got : Option (RunOutcome α)} (h : (f.cell id).Spent got c) (id' : CellId) :
    f.Keeps taken (f.setCell id c) (taken ++ got.toList.map (id, ·)) id' := by
  by_cases hid : id < f.cells.size
  · by_cases he : id' = id
    · subst he
      have hcell : (f.setCell id' c).cell id' = c := (f.cell_setCell id' c hid).trans (if_pos rfl)
      refine ⟨by rw [hcell, h.1], fun o => ?_⟩
      rw [Yields, Yields, hcell]
      cases got with
      | none => simp [show c.outcome = _ from h.2]
      | some o' => simp [h.2.1, h.2.2, or_comm, eq_comm]
    · have hcell : (f.setCell id c).cell id' = f.cell id' :=
        (f.cell_setCell id c hid).trans (if_neg he)
      refine ⟨by rw [hcell], fun o => ?_⟩
      rw [Yields, Yields, hcell]
      simp [Ne.symm he]
  · -- a cell that does not exist holds nothing
    have hnone : got = none := by
      have hcell : f.cell id = {} := by
        simp [cell, Array.getElem?_eq_none (Nat.not_lt.mp hid)]
      cases got with
      | none => rfl
      | some o => simp [hcell, Cell.Spent] at h
    rw [setCell, Array.setIfInBounds_eq_of_size_le (Nat.not_lt.mp hid), hnone, Option.toList_none,
      List.map_nil, List.append_nil]
    exact ⟨rfl, fun _ => Iff.rfl⟩

theorem lt_of_spent {c : Cell α} (h : (f.cell id).Spent (some o) c) : id < f.cells.size := by
  by_contra hid
  simp [cell, Array.getElem?_eq_none (Nat.not_lt.mp hid), Cell.Spent] at h

end Futures

/-! ### All accepted runs -/

/-- **The docket of the accepted runs.** -/
structure Docket [Payload α] (g : Graph α) (requests : List (Request α))
    (cancelled : List ObjectId) (isOpen : ObjectId → Prop) (dues : List (CellId × RunOutcome α))
    (f : Futures α) (taken : List (CellId × RunOutcome α)) : Prop where
  cell_lt : ∀ {q}, q ∈ requests → q.cell < f.cells.size
  nodup : (requests.map (·.cell)).Nodup
  not_open : ∀ {r}, r ∈ cancelled → ¬ isOpen r
  pending : ∀ {r q}, requests[r]? = some q → isOpen r → (f.cell q.cell).resolved = false
  due : ∀ {c o}, (c, o) ∈ dues → ∃ r q, requests[r]? = some q ∧ q.cell = c ∧ ¬ isOpen r ∧
    r ∉ cancelled ∧ g.Prescribed q.inputs r o ∧ (f.cell c).resolved = false
  lone : (dues.map (·.1)).Nodup
  settled : ∀ {r q}, requests[r]? = some q → ¬ isOpen r →
    (∃ o, (q.cell, o) ∈ dues) ∨ (f.cell q.cell).resolved = true
  taken_lt : ∀ {c o}, (c, o) ∈ taken → c < f.cells.size
  kept : ∀ {r : ObjectId} {q : Request α}, requests[r]? = some q → (f.cell q.cell).resolved = true →
    ∃ o, f.Yields taken q.cell o
  outcome : ∀ {r q o}, requests[r]? = some q → f.Yields taken q.cell o →
    (f.cell q.cell).resolved = true ∧
      if r ∈ cancelled then o = .error (.scheduling .cancelled) else g.Prescribed q.inputs r o

namespace Docket

variable [Payload α] {g : Graph α} {requests : List (Request α)} {cancelled : List ObjectId}
  {isOpen isOpen' : ObjectId → Prop} {dues dues' : List (CellId × RunOutcome α)}
  {f f' : Futures α} {taken taken' : List (CellId × RunOutcome α)}

/-- No run was accepted so far. -/
theorem nil (g : Graph α) (isOpen : ObjectId → Prop)
    (h : ∀ {c o}, (c, o) ∈ taken → c < f.cells.size) : Docket g [] [] isOpen [] f taken where
  cell_lt := nofun
  nodup := List.nodup_nil
  not_open := nofun
  pending := nofun
  due := nofun
  lone := List.nodup_nil
  settled := nofun
  taken_lt := h
  kept := nofun
  outcome := nofun

/-- A cell belongs to one run. -/
theorem run_unique (h : Docket g requests cancelled isOpen dues f taken) {r r' : ObjectId}
    {q q' : Request α} (hq : requests[r]? = some q) (hq' : requests[r']? = some q')
    (hc : q.cell = q'.cell) : r = r' := by
  obtain ⟨hr, -⟩ := List.getElem?_eq_some_iff.mp hq
  exact (List.getElem?_inj (by simpa using hr) h.nodup).mp (by simp [hq, hq', hc])

/-- Of two accepted runs, either both are the same or they have two cells. -/
theorem same_or_other (h : Docket g requests cancelled isOpen dues f taken) {r r' : ObjectId}
    {q q' : Request α} (hq : requests[r]? = some q) (hq' : requests[r']? = some q') :
    r' = r ∧ q' = q ∨ r' ≠ r ∧ q'.cell ≠ q.cell := by
  by_cases hrr : r' = r
  · subst hrr
    exact Or.inl ⟨rfl, Option.some.inj (hq'.symm.trans hq)⟩
  · exact Or.inr ⟨hrr, fun he => hrr (h.run_unique hq' hq he)⟩

/-- The same runs are open, and the same cells are to be resolved. -/
theorem congr (h : Docket g requests cancelled isOpen dues f taken)
    (ho : ∀ r, isOpen' r ↔ isOpen r) (hd : dues.Perm dues') :
    Docket g requests cancelled isOpen' dues' f taken := by
  obtain rfl : isOpen' = isOpen := funext fun r => propext (ho r)
  exact { h with
    due := fun hc => h.due (hd.mem_iff.mpr hc)
    lone := (hd.map _).nodup_iff.mp h.lone
    settled := fun hq hr => (h.settled hq hr).imp_left fun ⟨o, hm⟩ => ⟨o, hd.mem_iff.mp hm⟩ }

/-- Nothing has happened to the cells of these runs, but that holders of futures may have
got their outcomes. -/
theorem keep (h : Docket g requests cancelled isOpen dues f taken)
    (hsize : f.cells.size ≤ f'.cells.size) (htaken : ∀ {c o}, (c, o) ∈ taken' → c < f'.cells.size)
    (hc : ∀ q ∈ requests, f.Keeps taken f' taken' q.cell) :
    Docket g requests cancelled isOpen dues f' taken' := by
  have hc' : ∀ {r : ObjectId} {q}, requests[r]? = some q → f.Keeps taken f' taken' q.cell :=
    fun hq => hc _ (List.mem_of_getElem? hq)
  refine { h with
    cell_lt := fun hq => Nat.lt_of_lt_of_le (h.cell_lt hq) hsize
    pending := fun hq ho => (hc' hq).1.trans (h.pending hq ho)
    due := fun hd => ?_
    settled := fun hq ho => (h.settled hq ho).imp_right fun hs => (hc' hq).1.trans hs
    taken_lt := htaken
    kept := fun hq hs => ?_
    outcome := fun hq ho => ?_ }
  · obtain ⟨r, q, hq, rfl, hopen, hcan, hp, hres⟩ := h.due hd
    exact ⟨r, q, hq, rfl, hopen, hcan, hp, (hc' hq).1.trans hres⟩
  · obtain ⟨o, ho⟩ := h.kept hq ((hc' hq).1.symm.trans hs)
    exact ⟨o, ((hc' hq).2 o).mpr ho⟩
  · rw [(hc' hq).1]
    exact h.outcome hq (((hc' hq).2 _).mp ho)

/-- **A run is accepted**, with a fresh cell. -/
theorem accept (h : Docket g requests cancelled isOpen dues f taken)
    (hcan : requests.length ∉ cancelled) (inputs : Staged α)
    (ho : ∀ r, isOpen' r ↔ isOpen r ∨ r = requests.length) :
    Docket g (requests ++ [⟨inputs, f.nextCell⟩]) cancelled isOpen' dues f.extend taken := by
  have hsize : f.extend.cells.size = f.cells.size + 1 := by simp [Futures.extend]
  have hlt : ∀ {r : ObjectId} {q}, requests[r]? = some q → r < requests.length := fun hq =>
    (List.getElem?_eq_some_iff.mp hq).1
  have hsame : ∀ {r : ObjectId} {q}, requests[r]? = some q →
      f.extend.cell q.cell = f.cell q.cell := fun hq =>
    f.cell_extend (h.cell_lt (List.mem_of_getElem? hq))
  -- every run is an old one or the new one
  have hcases : ∀ {r : ObjectId} {q}, (requests ++ [⟨inputs, f.nextCell⟩])[r]? = some q →
      requests[r]? = some q ∨ r = requests.length ∧ q = ⟨inputs, f.nextCell⟩ := by
    intro r q hq
    rcases Nat.lt_trichotomy r requests.length with hr | rfl | hr
    · exact Or.inl (List.getElem?_append_left hr ▸ hq)
    · exact Or.inr ⟨rfl, by simpa using hq.symm⟩
    · rw [List.getElem?_eq_none (by simp; omega)] at hq
      cases hq
  have hopen : ∀ {r : ObjectId} {q}, requests[r]? = some q → (isOpen' r ↔ isOpen r) := by
    intro r q hq
    rw [ho]
    exact or_iff_left (Nat.ne_of_lt (hlt hq))
  refine {
    cell_lt := ?_
    nodup := ?_
    not_open := ?_
    pending := ?_
    due := ?_
    lone := h.lone
    settled := ?_
    taken_lt := fun hc => hsize ▸ Nat.lt_succ_of_lt (h.taken_lt hc)
    kept := ?_
    outcome := ?_ }
  · intro q hq
    rw [hsize]
    rcases List.mem_append.mp hq with hq | hq
    · exact Nat.lt_succ_of_lt (h.cell_lt hq)
    · rw [List.mem_singleton.mp hq]
      exact Nat.lt_succ_self _
  · rw [List.map_append, List.map_singleton, List.nodup_append]
    refine ⟨h.nodup, List.nodup_singleton _, ?_⟩
    intro c hc c' hc'
    obtain ⟨q, hq, rfl⟩ := List.mem_map.mp hc
    rw [List.mem_singleton.mp hc']
    exact Nat.ne_of_lt (h.cell_lt hq)
  · intro r hr hr'
    rcases (ho r).mp hr' with hr' | rfl
    · exact h.not_open hr hr'
    · exact hcan hr
  · intro r q hq hr
    rcases hcases hq with hq | ⟨rfl, rfl⟩
    · rw [hsame hq]
      exact h.pending hq ((hopen hq).mp hr)
    · rw [f.cell_nextCell_extend]
  · intro c o hd
    obtain ⟨r, q, hq, rfl, hr, hc, hp, hres⟩ := h.due hd
    exact ⟨r, q, by rw [List.getElem?_append_left (hlt hq), hq], rfl,
      fun hr' => hr ((hopen hq).mp hr'), hc, hp, hsame hq ▸ hres⟩
  · intro r q hq hr
    rcases hcases hq with hq | ⟨rfl, rfl⟩
    · rw [hsame hq]
      exact h.settled hq fun hr' => hr ((hopen hq).mpr hr')
    · exact absurd ((ho _).mpr (Or.inr rfl)) hr
  · intro r q hq hs
    rcases hcases hq with hq | ⟨rfl, rfl⟩
    · rw [hsame hq] at hs
      obtain ⟨o, ho⟩ := h.kept hq hs
      exact ⟨o, ((Futures.Keeps.of_cell_eq (hsame hq)).2 o).mpr ho⟩
    · rw [f.cell_nextCell_extend] at hs
      cases hs
  · intro r q o hq ho
    rcases hcases hq with hq | ⟨rfl, rfl⟩
    · rw [hsame hq]
      exact h.outcome hq (((Futures.Keeps.of_cell_eq (hsame hq)).2 o).mp ho)
    -- the cell is fresh, and nobody has got anything from a cell that did not exist
    · rcases ho with ho | ho
      · rw [f.cell_nextCell_extend] at ho
        cases ho
      · exact absurd (h.taken_lt ho) (Nat.lt_irrefl _)

/-- **A run is over**, and its cell is to be resolved. -/
theorem ended (h : Docket g requests cancelled isOpen dues f taken) {r : ObjectId} {q : Request α}
    {o : RunOutcome α} (hq : requests[r]? = some q) (hp : g.Prescribed q.inputs r o)
    (hwas : isOpen r) (ho : ∀ r', isOpen' r' ↔ isOpen r' ∧ r' ≠ r) :
    Docket g requests cancelled isOpen' ((q.cell, o) :: dues) f taken := by
  have hclosed : ¬ isOpen' r := fun hr => ((ho r).mp hr).2 rfl
  refine { h with
    not_open := fun hr hr' => h.not_open hr ((ho _).mp hr').1
    pending := fun hq' hr => h.pending hq' ((ho _).mp hr).1
    due := ?_
    lone := ?_
    settled := ?_ }
  · intro c o' hd
    rcases List.mem_cons.mp hd with he | hd
    · obtain ⟨rfl, rfl⟩ := Prod.mk.inj he
      exact ⟨r, q, hq, rfl, hclosed, fun hr => h.not_open hr hwas, hp, h.pending hq hwas⟩
    · obtain ⟨r', q', hq', rfl, hr', hc, hp', hres⟩ := h.due hd
      exact ⟨r', q', hq', rfl, fun hr => hr' ((ho _).mp hr).1, hc, hp', hres⟩
  · refine List.nodup_cons.mpr ⟨fun hmem => ?_, h.lone⟩
    obtain ⟨⟨c, o'⟩, hd, rfl⟩ := List.mem_map.mp hmem
    obtain ⟨r', q', hq', hc, hr', -⟩ := h.due hd
    exact hr' (h.run_unique hq hq' hc.symm ▸ hwas)
  · intro r' q' hq' hr'
    rcases h.same_or_other hq hq' with ⟨rfl, rfl⟩ | ⟨hrr, -⟩
    · exact Or.inl ⟨o, List.mem_cons_self ..⟩
    · refine (h.settled hq' fun hr => hr' ((ho _).mpr ⟨hr, hrr⟩)).imp_left ?_
      exact fun ⟨o', hd⟩ => ⟨o', List.mem_cons_of_mem _ hd⟩

variable (isOpen' dues') in
/-- The cell of one run is resolved, and nobody is to resolve it any more. -/
theorem settle (h : Docket g requests cancelled isOpen dues f taken) {r : ObjectId} {q : Request α}
    {o : RunOutcome α} (cancelled' : List ObjectId) (hq : requests[r]? = some q)
    (hpending : (f.cell q.cell).resolved = false)
    (ho : if r ∈ cancelled' then o = .error (.scheduling .cancelled)
      else g.Prescribed q.inputs r o)
    (hcan : ∀ r', r' ≠ r → (r' ∈ cancelled' ↔ r' ∈ cancelled))
    (hopen : ∀ r', isOpen' r' ↔ isOpen r' ∧ r' ≠ r)
    (hdues : ∀ {c o'}, (c, o') ∈ dues' ↔ (c, o') ∈ dues ∧ c ≠ q.cell)
    (hlone : (dues'.map (·.1)).Nodup) :
    ∃ f', f.resolve q.cell o = some f' ∧ f'.cells.size = f.cells.size ∧
      (∀ id, id ≠ q.cell → f'.cell id = f.cell id) ∧
      Docket g requests cancelled' isOpen' dues' f' taken := by
  have hmem := List.mem_of_getElem? hq
  obtain ⟨f', hres, hsize, hself, hother⟩ :=
    Futures.resolve_of_pending (h.cell_lt hmem) hpending o
  refine ⟨f', hres, hsize, hother, {
    cell_lt := fun hq' => hsize ▸ h.cell_lt hq'
    nodup := h.nodup
    not_open := ?_
    pending := ?_
    due := ?_
    lone := hlone
    settled := ?_
    taken_lt := fun hc => hsize ▸ h.taken_lt hc
    kept := ?_
    outcome := ?_ }⟩
  · intro r' hr' hr
    obtain ⟨hr, hrr⟩ := (hopen r').mp hr
    exact h.not_open ((hcan r' hrr).mp hr') hr
  · intro r' q' hq' hr'
    obtain ⟨hr', hrr⟩ := (hopen r').mp hr'
    have hne := ((h.same_or_other hq hq').resolve_left fun he => hrr he.1).2
    rw [hother _ hne]
    exact h.pending hq' hr'
  · intro c o' hd
    obtain ⟨hd, hc⟩ := hdues.mp hd
    obtain ⟨r', q', hq', rfl, hr', hc', hp, hres'⟩ := h.due hd
    have hrr : r' ≠ r :=
      ((h.same_or_other hq hq').resolve_left fun he => hc (he.2 ▸ rfl)).1
    exact ⟨r', q', hq', rfl, fun hr => hr' ((hopen r').mp hr).1,
      fun hm => hc' ((hcan r' hrr).mp hm), hp, by rw [hother _ hc]; exact hres'⟩
  · intro r' q' hq' hr'
    rcases h.same_or_other hq hq' with ⟨rfl, rfl⟩ | ⟨hrr, hne⟩
    · exact Or.inr (by rw [hself])
    · rw [hother _ hne]
      refine (h.settled hq' fun hr => hr' ((hopen r').mpr ⟨hr, hrr⟩)).imp_left ?_
      exact fun ⟨o', hd⟩ => ⟨o', hdues.mpr ⟨hd, hne⟩⟩
  · intro r' q' hq' hs
    rcases h.same_or_other hq hq' with ⟨rfl, rfl⟩ | ⟨-, hne⟩
    · exact ⟨o, Or.inl (by rw [hself])⟩
    · have hsame := hother _ hne
      rw [hsame] at hs
      obtain ⟨o', ho'⟩ := h.kept hq' hs
      exact ⟨o', ((Futures.Keeps.of_cell_eq hsame).2 o').mpr ho'⟩
  · intro r' q' o' hq' ho'
    rcases h.same_or_other hq hq' with ⟨rfl, rfl⟩ | ⟨hrr, hne⟩
    · rw [hself]
      rcases ho' with ho' | ho'
      · rw [hself] at ho'
        obtain rfl := Option.some.inj ho'
        exact ⟨rfl, ho⟩
      · -- nobody can have got an outcome before
        have := (h.outcome hq (Or.inr ho')).1
        rw [hpending] at this
        cases this
    · have hsame := hother _ hne
      have := h.outcome hq' (((Futures.Keeps.of_cell_eq hsame).2 o').mp ho')
      rw [hsame]
      simpa only [hcan r' hrr] using this

/-- **A cell is resolved** that was to be. -/
theorem resolve {c : CellId} {o : RunOutcome α}
    (h : Docket g requests cancelled isOpen ((c, o) :: dues) f taken) :
    ∃ f', f.resolve c o = some f' ∧ f'.cells.size = f.cells.size ∧
      (∀ id, id ≠ c → f'.cell id = f.cell id) ∧ c ∈ requests.map (·.cell) ∧
      Docket g requests cancelled isOpen dues f' taken := by
  obtain ⟨r, q, hq, rfl, hr, hc, hp, hres⟩ := h.due (List.mem_cons_self ..)
  obtain ⟨hcell, hlone⟩ := List.nodup_cons.mp h.lone
  obtain ⟨f', hf', hsize, hother, h'⟩ := h.settle isOpen dues cancelled hq hres
    (by rw [if_neg hc]; exact hp) (fun _ _ => Iff.rfl)
    (fun r' => ⟨fun hr' => ⟨hr', fun he => hr (he ▸ hr')⟩, fun hr' => hr'.1⟩) (by
      intro c' o'
      constructor
      · intro hd
        refine ⟨List.mem_cons_of_mem _ hd, fun he => hcell ?_⟩
        exact he ▸ List.mem_map_of_mem (f := (·.1)) hd
      · rintro ⟨hd, hne⟩
        exact (List.mem_cons.mp hd).resolve_left fun he => hne (Prod.mk.inj he).1) hlone
  exact ⟨f', hf', hsize, hother, List.mem_map_of_mem (List.mem_of_getElem? hq), h'⟩

/-- **Runs that wait are cancelled.** -/
theorem cancel (h : Docket g requests cancelled isOpen dues f taken) {ps : List (Pending α)}
    (hn : (ps.map (·.objectId)).Nodup)
    (hp : ∀ p ∈ ps, requests[p.objectId]? = some ⟨p.inputs, p.cell⟩ ∧ isOpen p.objectId)
    (ho : ∀ r, isOpen' r ↔ isOpen r ∧ r ∉ ps.map (·.objectId)) :
    (f.cancel (ps.map (·.cell))).cells.size = f.cells.size ∧
      (∀ id, id ∉ requests.map (·.cell) → (f.cancel (ps.map (·.cell))).cell id = f.cell id) ∧
      Docket g requests (cancelled ++ ps.map (·.objectId)) isOpen' dues
        (f.cancel (ps.map (·.cell))) taken := by
  induction ps generalizing f cancelled isOpen with
  | nil =>
    refine ⟨rfl, fun _ _ => rfl, ?_⟩
    rw [List.map_nil, List.append_nil]
    exact h.congr (fun r => by simpa using ho r) (.refl _)
  | cons p ps ih =>
    obtain ⟨hq, hopen⟩ := hp p (List.mem_cons_self ..)
    obtain ⟨hfresh, hn⟩ := List.nodup_cons.mp hn
    have hcell : p.cell ∈ requests.map (·.cell) :=
      List.mem_map_of_mem (f := (·.cell)) (List.mem_of_getElem? hq)
    obtain ⟨f', hf', hsize, hother, h'⟩ := h.settle
      (fun r => isOpen r ∧ r ≠ p.objectId) dues (o := .error (.scheduling .cancelled))
      (cancelled ++ [p.objectId]) hq (h.pending hq hopen) (by simp)
      (fun r hr => by simp [hr]) (fun _ => Iff.rfl) (by
        intro c o
        refine ⟨fun hd => ⟨hd, ?_⟩, fun hd => hd.1⟩
        rintro rfl
        obtain ⟨r', q', hq', hc, hr', -⟩ := h.due hd
        exact hr' (h.run_unique hq hq' hc.symm ▸ hopen)) h.lone
    obtain ⟨hsize', hother', h''⟩ := ih h' hn (fun p' hp' => by
      obtain ⟨hq', hopen'⟩ := hp p' (List.mem_cons_of_mem _ hp')
      exact ⟨hq', hopen', fun he => hfresh (List.mem_map.mpr ⟨p', hp', he⟩)⟩) fun r => by
        rw [ho, List.map_cons, List.mem_cons, not_or, and_assoc]
    have hstep : f.cancel ((p :: ps).map (·.cell)) = f'.cancel (ps.map (·.cell)) := by
      rw [Futures.cancel, List.map_cons, List.foldl_cons]
      show List.foldl _ ((f.resolve p.cell (.error (.scheduling .cancelled))).getD f) _ = _
      rw [hf']
      rfl
    rw [hstep]
    refine ⟨hsize'.trans hsize, fun id hid => ?_, ?_⟩
    · rw [hother' id hid, hother id fun he => hid (he ▸ hcell)]
    · rwa [List.map_cons, List.append_cons]

end Docket

end Dataflow
