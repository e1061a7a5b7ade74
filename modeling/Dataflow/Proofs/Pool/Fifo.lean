import Mathlib.Data.List.Nodup
import Dataflow.Pool.Monitor
import Dataflow.Proofs.Pool.Tags

/-!
# A pool is a bounded list

Slots are handed out from a stack and queued as they are filled, and a value may be taken
out of the middle of the queue, so the order of the slots soon says nothing about the order
of the values. Who uses a pool need not know: to him it is a `Fifo`, a list of tagged values
with a bound and a closing flag, and every call does to the list what its name says.

`PoolCall.view_answer` says so of one call, and `Pool.refines_fifo` of any sequence of
calls, together with what becomes of the slots meanwhile (`Pool.Tidy`).
-/

namespace Dataflow

variable {α : Type}

/-! ### Calls that do not wait -/

/-- What a critical section comes to at once: the reply, and the pool afterwards. -/
def Section.answer? : Section α → Option (PoolReply α × Pool α)
  | leave pool _ reply => some (reply, pool)
  | sleep _ _ => none

namespace PoolCall

/-- What a call comes back with and the pool afterwards; none if it has to wait. -/
def answer (c : PoolCall α) (p : Pool α) : Option (PoolReply α × Pool α) :=
  (c.enter true p).answer?

/-- The value that a call brings. -/
def value? : PoolCall α → Option (Tagged α)
  | push x => some x
  | tryPush x => some x
  | _ => none

/-- Makes calls one after another, and lists what they come back with. A call that would
have to wait is not made. -/
def serve {σ : Type} (answer : PoolCall α → σ → Option (PoolReply α × σ)) (s : σ) :
    List (PoolCall α) → List (Option (PoolReply α)) × σ
  | [] => ([], s)
  | c :: cs =>
    match answer c s with
    | some (r, s) => (some r :: (serve answer s cs).1, (serve answer s cs).2)
    | none => (none :: (serve answer s cs).1, (serve answer s cs).2)

end PoolCall

/-! ### The list -/

/-- A bounded list of tagged values that can be closed. -/
structure Fifo (α : Type) where
  capacity : Nat
  values : List (Tagged α) := []
  isClosed : Bool := false

namespace Fifo

/-- Why a value that does not wait is refused: the first of the reasons that applies. -/
def refusal? (q : Fifo α) : Option Refusal :=
  if q.capacity = 0 then some .zeroCapacity
  else if q.isClosed then some .closed
  else if q.values.length = q.capacity then some .full
  else none

/-- What a call means to the list; none if it has to wait. -/
def answer (c : PoolCall α) (q : Fifo α) : Option (PoolReply α × Fifo α) :=
  match c with
  | .push x =>
    match q.refusal? with
    | some .full => none
    | some r => some (.rejected ⟨r, x⟩, q)
    | none => some (.stored, { q with values := q.values ++ [x] })
  | .tryPush x =>
    match q.refusal? with
    | some r => some (.rejected ⟨r, x⟩, q)
    | none => some (.stored, { q with values := q.values ++ [x] })
  | .pop =>
    match q.values with
    | x :: xs => some (.taken (some x), { q with values := xs })
    | [] => if q.isClosed then some (.taken none, q) else none
  | .tryPop =>
    match q.values with
    | x :: xs => some (.taken (some x), { q with values := xs })
    | [] => some (.taken none, q)
  | .take id =>
    some (.taken (q.values.find? (·.objectId == id)),
      { q with values := q.values.eraseP (·.objectId == id) })
  | .close => some (.closed, { q with isClosed := true })

/-- No call changes the bound. -/
theorem capacity_answer {c : PoolCall α} {q q' : Fifo α} {r : PoolReply α}
    (h : answer c q = some (r, q')) : q'.capacity = q.capacity := by
  cases c <;> simp only [answer] at h <;> grind

theorem capacity_serve (q : Fifo α) (cs : List (PoolCall α)) :
    (PoolCall.serve answer q cs).2.capacity = q.capacity := by
  induction cs generalizing q with
  | nil => rfl
  | cons c cs ih =>
    unfold PoolCall.serve
    split
    · next r q' hq => exact (ih q').trans (capacity_answer hq)
    · exact ih q

end Fifo

namespace Pool

/-- What a pool is to those who use it. -/
def view (p : Pool α) : Fifo α :=
  ⟨p.capacity, p.entries, p.isClosed⟩

/-! ### Storing and taking, seen on the list -/

/-- A pool refuses a value for the reason that the list gives. -/
theorem tryPush_eq (p : Pool α) (x : Tagged α) : p.tryPush x =
    match p.view.refusal? with
    | some r => .error ⟨r, x⟩
    | none => .ok (p.store x) := by
  have hfull := p.free_isEmpty_iff
  unfold tryPush Fifo.refusal?
  by_cases hz : p.capacity = 0
  · simp [view, hz]
  by_cases hc : p.isClosed = true
  · simp [view, hz, hc]
  by_cases hf : p.slots.free.isEmpty = true
  · simp [view, hz, hc, hf, hfull.mp hf]
  · have hlen : ¬ p.entries.length = p.capacity := fun h => hf (hfull.mpr h)
    simp [view, hz, hc, hf, hlen]

/-- Only a value that would be refused because the pool is full has to wait. -/
theorem pushWaits_iff (p : Pool α) : p.pushWaits = true ↔ p.view.refusal? = some .full := by
  have hfull := p.free_isEmpty_iff
  unfold pushWaits Fifo.refusal?
  by_cases hz : p.capacity = 0
  · simp [view, hz]
  by_cases hc : p.isClosed = true
  · simp [view, hz, hc]
  · simp [view, hz, hc, hfull]

theorem lt_of_accepts {p : Pool α} (h : p.view.refusal? = none) :
    p.entries.length < p.capacity := by
  have hle := p.length_entries_le
  unfold Fifo.refusal? at h
  split at h
  · cases h
  split at h
  · cases h
  split at h
  · cases h
  next hne =>
  have hne : p.entries.length ≠ p.capacity := hne
  omega

/-- What is accepted is appended. -/
theorem view_store {p : Pool α} (x : Tagged α) (h : p.view.refusal? = none) :
    (p.store x).view = { p.view with values := p.view.values ++ [x] } := by
  obtain ⟨hentries, hcapacity, hclosed, -⟩ := p.store_spec x (lt_of_accepts h)
  simp only [view, hentries, hcapacity, hclosed]

/-- What is taken leaves the others in order. -/
theorem view_takeAt {p p' : Pool α} {k : Nat} {x : Tagged α} (h : p.takeAt k = some (x, p')) :
    p.entries[k]? = some x ∧ p'.view = { p.view with values := p.entries.eraseIdx k } := by
  obtain ⟨hx, hentries, hcapacity, hclosed, -⟩ := takeAt_eq_some h
  exact ⟨hx, by simp only [view, hentries, hcapacity, hclosed]⟩

/-- The oldest value is the head of the list. -/
theorem tryPop_cases (p : Pool α) :
    p.entries = [] ∧ p.tryPop = none ∨ ∃ x xs p', p.entries = x :: xs ∧
      p.tryPop = some (x, p') ∧ p'.view = { p.view with values := xs } := by
  unfold tryPop
  cases h : p.takeAt 0 with
  | none =>
    left
    refine ⟨List.length_eq_zero_iff.mp (Nat.eq_zero_of_not_pos fun hpos => ?_), rfl⟩
    rw [← takeAt_isSome, h] at hpos
    cases hpos
  | some xp =>
    right
    obtain ⟨hx, hview⟩ := view_takeAt h
    cases hl : p.entries with
    | nil =>
      rw [hl] at hx
      cases hx
    | cons y ys =>
      rw [hl] at hx hview
      obtain rfl := Option.some.inj hx
      exact ⟨xp.1, ys, xp.2, rfl, rfl, hview⟩

/-- A tagged take gives the first value with the tag. -/
theorem takeTagged_cases (p : Pool α) (id : ObjectId) :
    p.entries.find? (·.objectId == id) = none ∧ p.takeTagged id = none ∨
      ∃ x p', p.entries.find? (·.objectId == id) = some x ∧ p.takeTagged id = some (x, p') ∧
        p'.view = { p.view with values := p.entries.eraseP (·.objectId == id) } := by
  unfold takeTagged
  cases hk : p.entries.findIdx? fun x => x.objectId == id with
  | none =>
    left
    have hnone := List.findIdx?_eq_none_iff.mp hk
    exact ⟨List.find?_eq_none.mpr fun x hx => by simp [hnone x hx], rfl⟩
  | some k =>
    right
    obtain ⟨hlt, htag, hfirst⟩ := List.findIdx?_eq_some_iff_getElem.mp hk
    obtain ⟨⟨x, p'⟩, hx⟩ := Option.isSome_iff_exists.mp (takeAt_isSome.mpr hlt)
    obtain ⟨hget, hview⟩ := view_takeAt hx
    obtain rfl : p.entries[k] = x := (List.getElem?_eq_some_iff.mp hget).2
    refine ⟨_, p', ?_, hx, ?_⟩
    · refine List.find?_eq_some_iff_getElem.mpr ⟨htag, k, hlt, rfl, fun j hj => ?_⟩
      simpa using hfirst j hj
    · rw [hview, List.eraseP_eq_eraseIdx]
      simp [hk]

end Pool

/-! ### One call -/

/-- **A call on a pool does what it means to the list.** -/
theorem PoolCall.view_answer (c : PoolCall α) (p : Pool α) :
    (c.answer p).map (fun a => (a.1, a.2.view)) = Fifo.answer c p.view := by
  cases c with
  | push x =>
    have hwaits := p.pushWaits_iff
    simp only [answer, Section.answer?, enter, Pool.push, Pool.tryPush_eq, Fifo.answer]
    cases hr : p.view.refusal? with
    | none =>
      have hgo : ¬ p.pushWaits = true := by simp [hwaits, hr]
      simp [hgo, afterPush, Pool.view_store x hr]
    | some r =>
      cases r with
      | full => simp [hwaits.mpr hr]
      | closed | zeroCapacity =>
        have hgo : ¬ p.pushWaits = true := by simp [hwaits, hr]
        simp [hgo, afterPush]
  | tryPush x =>
    simp only [answer, Section.answer?, enter, Pool.tryPush_eq, Fifo.answer]
    cases hr : p.view.refusal? with
    | none => simp [afterPush, Pool.view_store x hr]
    | some r => simp [afterPush]
  | pop =>
    rcases p.tryPop_cases with ⟨hnil, hnone⟩ | ⟨x, xs, p', hcons, hsome, hview⟩
    · have hv : p.view.values = [] := hnil
      simp only [answer, Section.answer?, enter, Pool.pop_of_nil hnil, Fifo.answer, hv]
      cases hc : p.isClosed with
      | true => simp [afterTake, show p.view.isClosed = true from hc]
      | false => simp [show p.view.isClosed = false from hc]
    · have hv : p.view.values = x :: xs := hcons
      have hgo := Pool.popWaits_of_ne_nil (p := p) (by simp [hcons])
      simp [answer, Section.answer?, enter, Pool.pop, hgo, hsome, Fifo.answer, hv, afterTake, hview]
  | tryPop =>
    rcases p.tryPop_cases with ⟨hnil, hnone⟩ | ⟨x, xs, p', hcons, hsome, hview⟩
    · have hv : p.view.values = [] := hnil
      simp [answer, Section.answer?, enter, hnone, Fifo.answer, hv, afterTake]
    · have hv : p.view.values = x :: xs := hcons
      simp [answer, Section.answer?, enter, hsome, Fifo.answer, hv, afterTake, hview]
  | take id =>
    have hv : p.view.values = p.entries := rfl
    rcases p.takeTagged_cases id with ⟨hfind, hnone⟩ | ⟨x, p', hfind, hsome, hview⟩
    · have hall : ∀ x ∈ p.entries, ¬ (x.objectId == id) = true := by
        simpa using hfind
      simp [answer, Section.answer?, enter, hnone, Fifo.answer, hv, afterTake, hfind,
        List.eraseP_of_forall_not hall]
      rfl
    · simp [answer, Section.answer?, enter, hsome, Fifo.answer, hv, afterTake, hfind, hview]
  | close => rfl

namespace Pool

/-- A refused value is given back. -/
theorem entry_of_tryPush {p : Pool α} {x : Tagged α} {r : Rejected α}
    (h : p.tryPush x = .error r) : r.entry = x := by
  rw [tryPush_eq] at h
  split at h
  · rw [← Except.error.inj h]
  · cases h

/-- **A call that is refused** leaves the pool alone, slots and all, and gives its value
back. -/
theorem answer_rejected {c : PoolCall α} {p p' : Pool α} {r : Rejected α}
    (h : c.answer p = some (.rejected r, p')) : p' = p ∧ c.value? = some r.entry := by
  have hpush : ∀ {x : Tagged α},
      (PoolCall.afterPush p (p.tryPush x)).answer? = some (.rejected r, p') →
      p' = p ∧ some x = some r.entry := by
    intro x hx
    cases ht : p.tryPush x with
    | ok q =>
      rw [ht] at hx
      cases hx
    | error e =>
      rw [ht] at hx
      obtain ⟨he, rfl⟩ := Prod.mk.inj (Option.some.inj hx)
      obtain rfl := PoolReply.rejected.inj he
      exact ⟨rfl, congrArg some (entry_of_tryPush ht).symm⟩
  have htake : ∀ t, (PoolCall.afterTake p t).answer? ≠ some (.rejected r, p') := by
    intro t
    cases t <;> exact nofun
  unfold PoolCall.answer at h
  cases c with
  | push x =>
    simp only [PoolCall.enter, Pool.push] at h
    by_cases hw : p.pushWaits = true
    · rw [if_pos hw] at h
      cases h
    · rw [if_neg hw] at h
      exact hpush h
  | tryPush x => exact hpush h
  | pop =>
    simp only [PoolCall.enter] at h
    split at h
    · cases h
    · exact absurd h (htake _)
    · exact absurd h (htake _)
  | tryPop => exact absurd h (htake _)
  | take id => exact absurd h (htake _)
  | close => cases h

/-! ### What becomes of the slots -/

/-- **Slots are in good order**: stack and queue share them out, those of the queue are the
ones with a value, and no check of a call can fail, be it to fill a slot for a value that is
accepted or to drain the one at any position of the queue. -/
structure Tidy (p : Pool α) : Prop where
  nodup : p.slots.free.Nodup ∧ p.slots.full.Nodup
  disjoint : ∀ i ∈ p.slots.free, i ∉ p.slots.full
  covers : ∀ i, i ∈ p.slots.free ∨ i ∈ p.slots.full ↔ i < p.capacity
  holds : ∀ i, i ∈ p.slots.full ↔ ∃ x, p.slots.cells[i]? = some (some x)
  fills : p.view.refusal? = none → ∀ x, ∃ s, p.slots.fill x = .ok s
  drains : ∀ k < p.numFull, ∃ x s, p.slots.drain k = .ok (x, s)
  /-- The first slot of the queue with a tag is where the first value with the tag is. -/
  tagged : ∀ id : ObjectId,
    p.slots.full.findIdx? (fun i => p.slots.cells[i]?.join.any (·.objectId == id)) =
      p.entries.findIdx? (·.objectId == id)
  bounded : p.numFull + p.numFree = p.capacity ∧ p.entries.length = p.numFull

/-- The position of the first value of a kind is that of the first slot with such a value. -/
theorem findIdx?_filterMap {β γ : Type} {f : β → Option γ} (test : γ → Bool) {l : List β}
    (h : ∀ b ∈ l, (f b).isSome) :
    l.findIdx? (fun b => (f b).any test) = (l.filterMap f).findIdx? test := by
  induction l with
  | nil => rfl
  | cons b l ih =>
    obtain ⟨c, hc⟩ := Option.isSome_iff_exists.mp (h b (List.mem_cons_self ..))
    rw [List.filterMap_cons, hc, List.findIdx?_cons, List.findIdx?_cons, hc, Option.any_some,
      ih fun b hb => h b (List.mem_cons_of_mem _ hb)]

theorem tidy (p : Pool α) : p.Tidy where
  nodup := ⟨(List.nodup_append.mp p.sound.nodup).1, (List.nodup_append.mp p.sound.nodup).2.1⟩
  disjoint := fun _ => p.sound.not_full_of_free
  covers := fun i => by
    rw [← List.mem_append, p.sound.partition.mem_iff, List.mem_range]
    rfl
  holds := fun i => by
    refine ⟨p.sound.cell_of_full, fun ⟨x, hx⟩ => ?_⟩
    exact (p.sound.queued i (Array.getElem?_eq_some_iff.mp hx).1).mpr (by simp [hx])
  fills := fun h x => by
    cases hf : p.slots.free with
    | nil =>
      have := p.free_isEmpty_iff.mp (by rw [hf]; rfl)
      exact absurd (lt_of_accepts h) (by omega)
    | cons i free => exact ⟨_, Slots.fill_of_sound p.sound hf x⟩
  drains := fun k hk => by
    obtain ⟨x, -, hx⟩ := Slots.drain_of_sound p.sound (List.getElem?_eq_getElem hk)
    exact ⟨x, _, hx⟩
  tagged := fun id => findIdx?_filterMap _ p.sound.isSome_of_full
  bounded := ⟨p.numFull_add_numFree, p.length_entries⟩

/-! ### Any sequence of calls -/

/-- What a call means, it means in every sequence of calls. -/
theorem view_serve (p : Pool α) (cs : List (PoolCall α)) :
    (PoolCall.serve PoolCall.answer p cs).1 = (PoolCall.serve Fifo.answer p.view cs).1 ∧
      (PoolCall.serve PoolCall.answer p cs).2.view =
        (PoolCall.serve Fifo.answer p.view cs).2 := by
  induction cs generalizing p with
  | nil => exact ⟨rfl, rfl⟩
  | cons c cs ih =>
    have hc := c.view_answer p
    simp only [PoolCall.serve, ← hc]
    cases c.answer p with
    | none => exact ⟨congrArg (none :: ·) (ih p).1, (ih p).2⟩
    | some a => exact ⟨congrArg (some a.1 :: ·) (ih a.2).1, (ih a.2).2⟩

/-- **A pool refines a bounded list**, whatever calls are made on it. -/
theorem refines_fifo (n : Nat) (cs : List (PoolCall α)) :
    let served := PoolCall.serve PoolCall.answer (new n) cs
    let listed := PoolCall.serve Fifo.answer ⟨n, [], false⟩ cs
    served.1 = listed.1 ∧ served.2.view = listed.2 ∧ served.2.Tidy ∧
      served.2.capacity = n ∧ served.2.entries.length ≤ n ∧
      (∀ (c : PoolCall α) (r : Rejected α) (p' : Pool α),
        c.answer served.2 = some (.rejected r, p') → p' = served.2 ∧ c.value? = some r.entry) ∧
      PoolCall.close.answer served.2 = some (.closed, { served.2 with isClosed := true }) := by
  intro served listed
  have hnew : (new n : Pool α).view = ⟨n, [], false⟩ := by
    rw [view, capacity_new, entries_new]
    rfl
  obtain ⟨hreplies, hview⟩ := view_serve (new n : Pool α) cs
  rw [hnew] at hreplies hview
  have hcapacity : served.2.capacity = n :=
    (congrArg Fifo.capacity hview).trans (Fifo.capacity_serve _ cs)
  refine ⟨hreplies, hview, served.2.tidy, hcapacity, ?_, fun _ _ _ => answer_rejected, rfl⟩
  exact hcapacity ▸ served.2.length_entries_le

end Pool

end Dataflow
