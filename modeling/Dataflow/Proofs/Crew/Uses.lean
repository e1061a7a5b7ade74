import Dataflow.Proofs.Crew.Shifts

/-!
# A crew is a use of its event count

What is known of signals is known of lots, and a crew has an event count of its own. Here the
two are put side by side: the workers, and those outside who notify them, are threads of a lot
(`Crew.Uses`). An operation of a crew, which may be stopped, is then made of steps of the lot,
most often of one or none (`Crew.Uses.operates`). For every notification from outside a thread
joins the lot; when the notification is over, that thread stays away.

So what holds of every lot holds of the event count of every crew (`Crew.Operated.uses`): it
counts the workers that are registered (`Crew.Operated.waiters`), and no worker falls asleep
with a ticket that is out of date (`Crew.Operated.asleep`).
-/

namespace Dataflow

/-! ### Lots that threads join -/

/-- **A thread takes some turns**, one after the other. -/
inductive LotThread.Turns (e : EventCount) (t : LotThread) : EventCount → LotThread → Prop where
  | refl : Turns e t e t
  | tail {e₁ e₂ : EventCount} {t₁ t₂ : LotThread} (h : Turns e t e₁ t₁) (ht : Turn e₁ t₁ e₂ t₂) :
      Turns e t e₂ t₂

namespace Lot

variable {l l' : Lot} {i j n : Nat} {t t' : LotThread} {e : EventCount}

theorem put_self (ht : l.threads[i]? = some t) : l.put l.events i t = l := by
  obtain ⟨hi, rfl⟩ := Array.getElem?_eq_some_iff.mp ht
  rw [put, Array.setIfInBounds_def, dif_pos hi, Array.set_getElem_self]

theorem put_put (l : Lot) (e e' : EventCount) (i : Nat) (t t' : LotThread) :
    (l.put e i t).put e' i t' = l.put e' i t' := by
  rw [put, put, Array.setIfInBounds_setIfInBounds, put]

theorem put_comm (l : Lot) (e e' : EventCount) (t t' : LotThread) (hij : i ≠ j) :
    (l.put e i t).put e' j t' = (l.put e j t').put e' i t := by
  rw [put, put, Array.setIfInBounds_comm _ _ hij, put, put]

/-- Whatever a step can be, it is. -/
theorem Move.step (h : l.Move i l') : l.Step l' := by
  cases h with
  | turn ht hturn =>
    cases hturn with
    | register => exact ⟨i, .register, by simp only [advance, ht]⟩
    | notify all => exact ⟨i, .notify all, by simp only [advance, ht]⟩
    | withdraw => exact ⟨i, .withdraw, by simp only [advance, ht]⟩
    | park => exact ⟨i, .park, by simp only [advance, ht]⟩
    | _ => exact ⟨i, .go, by simp only [advance, ht]⟩
  | signalAll ht => exact ⟨i, .wake none, by simp only [advance, ht, signal, put, if_true]⟩
  | signalNone ht hnone =>
    have hany : (l.put l.events i .away).threads.any (·.isAsleep) = false :=
      Array.any_eq_false'.mpr fun t hmem => Bool.not_eq_true _ ▸ hnone t hmem
    exact ⟨i, .wake none, by simp [advance, ht, signal, hany]⟩
  | @signalOne j ticket ht hij hj =>
    have hj' := (getElem?_put_ne l l.events .away hij).trans hj
    refine ⟨i, .wake (some j), ?_⟩
    simp only [advance, ht, signal, hj', Option.any_some]
    exact congrArg (fun ts => some (Lot.mk l.events ts))
      (Monitor.modify_eq_setIfInBounds LotThread.rouse hj')

theorem leads_of_turns (ht : l.threads[i]? = some t) (h : LotThread.Turns l.events t e t') :
    l.Leads (l.put e i t') := by
  induction h with
  | refl => rw [put_self ht]; exact .refl
  | @tail e₁ _ t₁ _ _ hturn ih =>
    have hput := getElem?_put_self l e₁ t₁ (Array.getElem?_eq_some_iff.mp ht).1
    have hstep := (Move.turn hput hturn).step
    rw [put_put] at hstep
    exact ih.tail hstep

/-- Threads join the lot, and are away. -/
def extend (l : Lot) (n : Nat) : Lot :=
  { l with threads := l.threads ++ Array.replicate n .away }

@[simp] theorem extend_zero (l : Lot) : l.extend 0 = l := by
  rw [extend, Array.replicate_zero, Array.append_empty]

@[simp] theorem extend_extend (l : Lot) (m n : Nat) : (l.extend m).extend n = l.extend (m + n) := by
  simp only [extend, Array.append_assoc, Array.replicate_append_replicate]

@[simp] theorem extend_new (m n : Nat) : (Lot.new m).extend n = Lot.new (m + n) := by
  simp only [extend, Lot.new, Array.replicate_append_replicate]

theorem getElem?_extend (ht : l.threads[i]? = some t) (n : Nat) :
    (l.extend n).threads[i]? = some t := by
  rw [extend, Array.getElem?_append_left (Array.getElem?_eq_some_iff.mp ht).1, ht]

/-- A thread has been there before, or is away. -/
theorem thread_of_extend (ht : (l.extend n).threads[i]? = some t) :
    l.threads[i]? = some t ∨ t = .away := by
  rw [extend, Array.getElem?_append] at ht
  split at ht
  · exact .inl ht
  · exact .inr (Array.mem_replicate.mp (Array.mem_of_getElem? ht)).2

theorem put_extend (ht : l.threads[i]? = some t) (e : EventCount) (t' : LotThread) (n : Nat) :
    (l.extend n).put e i t' = (l.put e i t').extend n := by
  rw [put, extend, Array.setIfInBounds_append_left (Array.getElem?_eq_some_iff.mp ht).1]
  rfl

/-- Those who join change nothing for the others. -/
theorem Move.extend (h : l.Move i l') (n : Nat) : (l.extend n).Move i (l'.extend n) := by
  cases h with
  | turn ht hturn => exact put_extend ht .. ▸ .turn (getElem?_extend ht n) hturn
  | signalAll ht =>
    have hmove := Move.signalAll (getElem?_extend ht n)
    have hthreads : ((l.extend n).threads.setIfInBounds i .away).map (·.rouse) =
        (l.threads.setIfInBounds i .away).map (·.rouse) ++ Array.replicate n .away := by
      rw [extend, Array.setIfInBounds_append_left (Array.getElem?_eq_some_iff.mp ht).1,
        Array.map_append, Array.map_replicate]
      rfl
    rw [hthreads] at hmove
    exact hmove
  | signalNone ht hnone =>
    rw [← put_extend ht]
    refine .signalNone (getElem?_extend ht n) fun t hmem => ?_
    obtain ⟨j, hj⟩ := Array.mem_iff_getElem?.mp hmem
    rw [show (l.extend n).events = l.events from rfl, put_extend ht] at hj
    rcases thread_of_extend hj with hj | rfl
    · exact hnone t (Array.mem_of_getElem? hj)
    · rfl
  | signalOne ht hij hj =>
    rw [← put_extend ((getElem?_put_ne l l.events .away hij).trans hj), ← put_extend ht]
    exact .signalOne (getElem?_extend ht n) hij (getElem?_extend hj n)

theorem Leads.extend (h : l.Leads l') (n : Nat) : (l.extend n).Leads (l'.extend n) := by
  induction h with
  | refl => exact .refl
  | tail _ hs ih =>
    obtain ⟨i, move, hs⟩ := hs
    exact ih.tail ((move_of_advance hs).extend n).step

end Lot

/-! ### Where a worker stands -/

namespace WorkerStage

variable {τ ξ : Type} {s s' : WorkerStage τ ξ} {t : LotThread}

/-- **Where a worker stands at the event count.** One that is about to withdraw has forgotten
its ticket. -/
def Stands : WorkerStage τ ξ → LotThread → Prop
  | ticketing, t => t = .ticketing
  | rechecking ticket, t | checkingStop ticket, t => t = .deciding ticket
  | leaving ticket, t | checkingActives ticket, t => t = .deciding ticket
  | withdrawing _, t => ∃ ticket, t = .deciding ticket
  | parking p, t => t = .parking p
  | notifying n _, t => t = .notifying n
  | _, t => t = .away

theorem Stands.rouse (h : s.Stands t) : s.rouse.Stands t.rouse := by
  cases s with
  | withdrawing why =>
    obtain ⟨ticket, rfl⟩ := h
    exact ⟨ticket, rfl⟩
  | _ =>
    obtain rfl := h
    rfl

theorem Stands.isRegistered (h : s.Stands t) : t.isRegistered = s.isRegistered := by
  cases s with
  | withdrawing why =>
    obtain ⟨ticket, rfl⟩ := h
    rfl
  | _ =>
    obtain rfl := h
    rfl

/-- A sleeper is known by where it stands. -/
theorem Stands.asleep_iff (h : s.Stands t) (ticket : Nat) :
    t = .parking (.asleep ticket) ↔ s = .parking (.asleep ticket) := by
  cases s with
  | withdrawing why =>
    obtain ⟨ticket, rfl⟩ := h
    simp
  | _ =>
    obtain rfl := h
    simp

/-- From one stage to another the worker takes turns at the event count, or does not use it. -/
def Attends (e : EventCount) (s : WorkerStage τ ξ) (e' : EventCount) (s' : WorkerStage τ ξ) :
    Prop :=
  ∀ {t : LotThread}, s.Stands t → ∃ t', s'.Stands t' ∧ LotThread.Turns e t e' t'

end WorkerStage

/-- Where somebody stands who notifies, or has done so. -/
def Notice.stand : Option Notice → LotThread
  | some n => .notifying n
  | none => .away

/-- **Turns of a worker are turns at the event count**, or have nothing to do with it. -/
theorem Crew.Turn.attends {τ ξ : Type} {start : τ → ξ} {c c₁ : Crew τ ξ} {w w' : Worker τ ξ}
    (h : Turn start c w c₁ w') : w.stage.Attends c.events c₁.events w'.stage := by
  cases h with
  | register =>
    rintro t rfl
    exact ⟨_, rfl, .tail .refl .register⟩
  | takeTicket =>
    rintro t rfl
    exact ⟨_, rfl, .tail .refl .takeTicket⟩
  | reconsider | heed | rejoin =>
    rintro t rfl
    exact ⟨_, ⟨_, rfl⟩, .refl⟩
  | withdraw d why hwhy =>
    rintro t ⟨ticket, rfl⟩
    refine ⟨.away, ?_, .tail .refl (.withdraw ticket)⟩
    cases why with
    | quit => exact absurd rfl hwhy
    | grab | rejoin => rfl
  | quit =>
    rintro t ⟨ticket, rfl⟩
    exact ⟨_, rfl, .tail (.tail .refl (.withdraw ticket)) (.notify true)⟩
  | leave d ticket | settle d ticket =>
    rintro t rfl
    exact ⟨_, rfl, .tail .refl (.park ticket)⟩
  | check d ticket =>
    rintro t rfl
    exact ⟨_, rfl, .tail .refl (.check ticket)⟩
  | recheck d ticket =>
    rintro t rfl
    exact ⟨_, rfl, .tail .refl (.recheck ticket)⟩
  | stir d ticket =>
    rintro t rfl
    exact ⟨_, rfl, .tail .refl (.wake ticket)⟩
  | depart =>
    rintro t rfl
    exact ⟨_, rfl, .tail .refl .leave⟩
  | handOver | call =>
    rintro t rfl
    exact ⟨_, rfl, .tail .refl (.notify false)⟩
  | _ => exact fun hs => ⟨_, hs, .refl⟩

namespace Crew

variable {τ ξ : Type} {start : τ → ξ} {c c' c₁ : Crew τ ξ} {seats : List Nat} {l l' : Lot}
  {i j k m : Nat} {w w' : Worker τ ξ} {n : Notice} {t : LotThread}
  {s : WorkerStage τ ξ}

/-! ### Workers and others as threads of a lot -/

/-- **The crew is a use of the lot.** The workers are its first threads, and each notification
from outside is made by a thread that has a seat behind them. -/
structure Uses (c : Crew τ ξ) (seats : List Nat) (l : Lot) : Prop where
  events : l.events = c.events
  worker : ∀ {i : Nat} {w : Worker τ ξ}, c.workers[i]? = some w →
    ∃ t, l.threads[i]? = some t ∧ w.stage.Stands t
  length : seats.length = c.notices.length
  nodup : seats.Nodup
  notice : ∀ {k i : Nat} {n : Notice}, c.notices[k]? = some n → seats[k]? = some i →
    c.workers.size ≤ i ∧ l.threads[i]? = some (.notifying n)
  /-- Nobody from outside waits. -/
  outside : ∀ {i : Nat} {t : LotThread}, c.workers.size ≤ i → l.threads[i]? = some t →
    t.isRegistered = false

theorem uses_new (n : Nat) : (Crew.new n : Crew τ ξ).Uses [] (Lot.new n) where
  events := rfl
  worker := by
    intro i w hw
    obtain ⟨hi, hw⟩ := Array.getElem?_eq_some_iff.mp hw
    simp only [Crew.new, Array.size_replicate] at hi
    simp only [Crew.new, Array.getElem_replicate] at hw
    subst hw
    exact ⟨.away, by simp [Lot.new, hi], rfl⟩
  length := rfl
  nodup := .nil
  notice := nofun
  outside := by
    intro i t hi ht
    obtain ⟨hi', -⟩ := Array.getElem?_eq_some_iff.mp ht
    simp only [Lot.new, Crew.new, Array.size_replicate] at hi hi'
    exact absurd hi (Nat.not_le.mpr hi')

/-- Whoever has a seat behind the workers is none of them. -/
theorem ne_of_worker (hw : c.workers[i]? = some w) (hm : c.workers.size ≤ m) : i ≠ m := by
  rintro rfl
  exact absurd (Array.getElem?_eq_some_iff.mp hw).1 (Nat.not_lt.mpr hm)

namespace Uses

/-- The workers are among the threads. -/
theorem size_le (h : c.Uses seats l) : c.workers.size ≤ l.threads.size := by
  refine Nat.not_lt.mp fun hlt => ?_
  obtain ⟨t, ht, -⟩ := h.worker (Array.getElem?_eq_getElem hlt)
  exact Nat.lt_irrefl _ (Array.getElem?_eq_some_iff.mp ht).1

/-- So is whoever has a seat. -/
theorem seat_lt (h : c.Uses seats l) (hm : m ∈ seats) : m < l.threads.size := by
  obtain ⟨k, hk⟩ := List.mem_iff_getElem?.mp hm
  have hlt : k < c.notices.length := h.length ▸ (List.getElem?_eq_some_iff.mp hk).1
  exact (Array.getElem?_eq_some_iff.mp (h.notice (List.getElem?_eq_getElem hlt) hk).2).1

/-- Threads may join the lot. -/
theorem extend (h : c.Uses seats l) (n : Nat) : c.Uses seats (l.extend n) where
  events := h.events
  worker hw := by
    obtain ⟨t, ht, hs⟩ := h.worker hw
    exact ⟨t, Lot.getElem?_extend ht n, hs⟩
  length := h.length
  nodup := h.nodup
  notice hk hi := (h.notice hk hi).imp_right (Lot.getElem?_extend · n)
  outside := by
    intro i t hi ht
    rcases Lot.thread_of_extend ht with ht | rfl
    · exact h.outside hi ht
    · rfl

/-- **A worker goes on**, and so does the thread that it is. -/
theorem put (h : c.Uses seats l) (hworkers : c₁.workers = c.workers)
    (hnotices : c₁.notices = c.notices) (hw : c.workers[i]? = some w) (hs : w'.stage.Stands t) :
    (c₁.put i w').Uses seats (l.put c₁.events i t) where
  events := rfl
  worker := by
    intro j u hj
    by_cases hij : i = j
    · subst hij
      obtain ⟨t₀, ht₀, -⟩ := h.worker hw
      rw [getElem?_put_self (hworkers ▸ hw)] at hj
      obtain rfl := Option.some.inj hj
      exact ⟨t, Lot.getElem?_put_self _ _ _ (Array.getElem?_eq_some_iff.mp ht₀).1, hs⟩
    · rw [getElem?_put_ne (Ne.symm hij), hworkers] at hj
      obtain ⟨t', ht', hs'⟩ := h.worker hj
      exact ⟨t', (Lot.getElem?_put_ne _ _ _ hij).trans ht', hs'⟩
  length := hnotices ▸ h.length
  nodup := h.nodup
  notice := by
    intro k m n hk hm
    rw [Crew.put, Array.size_setIfInBounds, hworkers]
    obtain ⟨hle, hn⟩ := h.notice (hnotices ▸ hk) hm
    exact ⟨hle, (Lot.getElem?_put_ne _ _ _ (ne_of_worker hw hle)).trans hn⟩
  outside := by
    intro j u hj hu
    rw [Crew.put, Array.size_setIfInBounds, hworkers] at hj
    rw [Lot.getElem?_put_ne _ _ _ (ne_of_worker hw hj)] at hu
    exact h.outside hj hu

/-- All sleepers are woken. -/
theorem rouse (h : c.Uses seats l) : Uses { c with workers := c.workers.map (·.rouse) } seats
    { l with threads := l.threads.map (·.rouse) } where
  events := h.events
  worker := by
    intro i u hu
    rw [Array.getElem?_map] at hu
    obtain ⟨w, hw, rfl⟩ := Option.map_eq_some_iff.mp hu
    obtain ⟨t, ht, hs⟩ := h.worker hw
    exact ⟨t.rouse, by rw [Array.getElem?_map, ht, Option.map_some], hs.rouse⟩
  length := h.length
  nodup := h.nodup
  notice := by
    intro k m n hk hm
    obtain ⟨hle, hn⟩ := h.notice hk hm
    exact ⟨by rwa [Array.size_map], by rw [Array.getElem?_map, hn]; rfl⟩
  outside := by
    intro j u hj hu
    rw [Array.size_map] at hj
    rw [Array.getElem?_map] at hu
    obtain ⟨t, ht, rfl⟩ := Option.map_eq_some_iff.mp hu
    exact t.isRegistered_rouse.trans (h.outside hj ht)

/-- **A thread behind the workers goes on**, and the notifications from outside with their
seats are what they are by that. -/
theorem pass (h : c.Uses seats l) (c' : Crew τ ξ) (hworkers : c'.workers = c.workers)
    (hevents : c'.events = c.events) {seats' : List Nat}
    (hlength : seats'.length = c'.notices.length)
    (hnodup : seats'.Nodup) (hm : c.workers.size ≤ m) (hlt : m < l.threads.size)
    (ht : t.isRegistered = false)
    (hnotice : ∀ {k i : Nat} {n : Notice}, c'.notices[k]? = some n → seats'[k]? = some i →
      i = m ∧ t = .notifying n ∨
        i ≠ m ∧ ∃ k' : Nat, c.notices[k']? = some n ∧ seats[k']? = some i) :
    c'.Uses seats' (l.put l.events m t) where
  events := h.events.trans hevents.symm
  worker := by
    intro i w hw
    rw [hworkers] at hw
    obtain ⟨u, hu, hs⟩ := h.worker hw
    exact ⟨u, (Lot.getElem?_put_ne _ _ _ (ne_of_worker hw hm).symm).trans hu, hs⟩
  length := hlength
  nodup := hnodup
  notice := by
    intro k i n hk hi
    rw [hworkers]
    rcases hnotice hk hi with ⟨rfl, rfl⟩ | ⟨hne, k', hk', hi'⟩
    · exact ⟨hm, Lot.getElem?_put_self _ _ _ hlt⟩
    · exact (h.notice hk' hi').imp_right (Lot.getElem?_put_ne _ _ _ hne.symm).trans
  outside := by
    intro j u hj hu
    rw [hworkers] at hj
    by_cases hjm : m = j
    · subst hjm
      rw [Lot.getElem?_put_self _ _ _ hlt] at hu
      exact Option.some.inj hu ▸ ht
    · exact h.outside hj ((Lot.getElem?_put_ne _ _ _ hjm).symm.trans hu)

/-- Nobody has two seats. -/
theorem seat_ne (h : c.Uses seats l) {k' i : Nat} (hm : seats[k]? = some m)
    (hi : seats[k']? = some i) (hk : k ≠ k') : i ≠ m := by
  rintro rfl
  exact hk ((List.getElem?_inj (List.getElem?_eq_some_iff.mp hm).1 h.nodup).mp (hm.trans hi.symm))

/-- A notification from outside goes on. -/
theorem next (h : c.Uses seats l) (hk : c.notices[k]? = some n) (hm : seats[k]? = some m)
    (n' : Notice) : Uses { c with notices := c.notices.set k n' } seats
      (l.put l.events m (.notifying n')) := by
  obtain ⟨hle, ht⟩ := h.notice hk hm
  refine h.pass (t := .notifying n') { c with notices := c.notices.set k n' } rfl rfl
    (by simpa using h.length) h.nodup hle (Array.getElem?_eq_some_iff.mp ht).1 rfl
    fun {k' i n₁} hk' hi => ?_
  by_cases hkk : k = k'
  · subst hkk
    obtain rfl := Option.some.inj (hm.symm.trans hi)
    rw [List.getElem?_set_self (List.getElem?_eq_some_iff.mp hk).1] at hk'
    exact .inl ⟨rfl, congrArg _ (Option.some.inj hk')⟩
  · rw [List.getElem?_set_ne hkk] at hk'
    exact .inr ⟨h.seat_ne hm hi hkk, k', hk', hi⟩

/-- A notification from outside is over. -/
theorem last (h : c.Uses seats l) (hk : c.notices[k]? = some n) (hm : seats[k]? = some m) :
    Uses { c with notices := c.notices.eraseIdx k } (seats.eraseIdx k)
      (l.put l.events m .away) := by
  obtain ⟨hle, ht⟩ := h.notice hk hm
  refine h.pass (t := .away) { c with notices := c.notices.eraseIdx k } rfl rfl ?_
    (h.nodup.sublist (List.eraseIdx_sublist ..)) hle (Array.getElem?_eq_some_iff.mp ht).1 rfl
    fun {k' i n₁} hk' hi => ?_
  · simp only [List.length_eraseIdx, h.length]
  rw [List.getElem?_eraseIdx] at hk' hi
  split at hi
  · next hlt =>
    rw [if_pos hlt] at hk'
    exact .inr ⟨h.seat_ne hm hi (Nat.ne_of_gt hlt), k', hk', hi⟩
  · next hge =>
    rw [if_neg hge] at hk'
    exact .inr ⟨h.seat_ne hm hi (by omega), k' + 1, hk', hi⟩

/-- **Somebody outside is about to notify**: a thread joins for this. -/
theorem announce {all : Bool} (h : c.Uses seats l) (c' : Crew τ ξ)
    (hworkers : c'.workers = c.workers) (hevents : c'.events = c.events)
    (hnotices : c'.notices = c.notices ++ [.bumping all]) :
    ∃ seats' l', (l.extend 1).Leads l' ∧ c'.Uses seats' l' := by
  have hlt : l.threads.size < (l.extend 1).threads.size := by simp [Lot.extend]
  have haway : (l.extend 1).threads[l.threads.size]? = some .away := by simp [Lot.extend]
  have hfresh : ∀ i ∈ seats, i ≠ l.threads.size := fun i hi => Nat.ne_of_lt (h.seat_lt hi)
  refine ⟨seats ++ [l.threads.size], _, .single (Lot.Move.turn haway (.notify all)).step,
    (h.extend 1).pass (t := .notifying (.bumping all)) c' hworkers hevents ?_ ?_ h.size_le hlt rfl
      fun {k i n} hk hi => ?_⟩
  · rw [hnotices, List.length_append, List.length_append, h.length]
    rfl
  · refine List.nodup_append.mpr ⟨h.nodup, List.nodup_singleton _, fun i hi j hj => ?_⟩
    exact List.mem_singleton.mp hj ▸ hfresh i hi
  rw [hnotices] at hk
  by_cases hlast : k < seats.length
  · rw [List.getElem?_append_left (h.length ▸ hlast)] at hk
    rw [List.getElem?_append_left hlast] at hi
    exact .inr ⟨hfresh i (List.mem_of_getElem? hi), k, hk, hi⟩
  · rw [List.getElem?_append_right (h.length ▸ Nat.not_lt.mp hlast), ← h.length,
      List.getElem?_singleton] at hk
    rw [List.getElem?_append_right (Nat.not_lt.mp hlast), List.getElem?_singleton] at hi
    split at hi
    · next hzero =>
      rw [if_pos hzero] at hk
      exact .inl ⟨(Option.some.inj hi).symm, congrArg _ (Option.some.inj hk)⟩
    · cases hi

/-! ### Workers that go on -/

theorem setStage (h : c.Uses seats l) (hi : i < c.workers.size) (hs : s.Stands t) :
    (c.setStage i s).Uses seats (l.put c.events i t) := by
  obtain ⟨w, hw⟩ : ∃ w, c.workers[i]? = some w := ⟨_, Array.getElem?_eq_getElem hi⟩
  rw [setStage_eq_put hw]
  exact h.put rfl rfl hw hs

/-- A worker goes on without the event count. -/
theorem keep (h : c.Uses seats l) (hw : c.workers[i]? = some w)
    (hs : ∀ {t : LotThread}, w.stage.Stands t → w'.stage.Stands t) : (c.put i w').Uses seats l := by
  obtain ⟨t, ht, hst⟩ := h.worker hw
  have hput := h.put rfl rfl hw (hs hst)
  rwa [← h.events, Lot.put_self ht] at hput

/-- **A worker takes a turn.** -/
theorem turn (h : c.Uses seats l) (hw : c.workers[i]? = some w) (ht : Turn start c w c₁ w') :
    ∃ l', l.Leads l' ∧ (c₁.put i w').Uses seats l' := by
  obtain ⟨t, hthread, hs⟩ := h.worker hw
  obtain ⟨t', hs', hturns⟩ := ht.attends hs
  exact ⟨_, Lot.leads_of_turns hthread (h.events ▸ hturns), h.put ht.workers ht.rest.2.1 hw hs'⟩

theorem acts (h : c.Uses seats l) (ha : Acts start c i c') :
    ∃ l', l.Leads l' ∧ c'.Uses seats l' := by
  cases ha with
  | turn hw ht => exact h.turn hw ht
  | @theft j d s _ _ _ hj hw ht =>
    have hlost : Uses (c.put j ⟨d.dropLast, s⟩) seats l := h.keep hj id
    exact hlost.turn hw ht

/-- If no worker sleeps, nobody does. -/
theorem awake (h : c.Uses seats l) (hnone : ∀ w ∈ c.workers, w.isAsleep = false)
    (ht : l.threads[i]? = some t) : t.isAsleep = false := by
  by_contra hsleep
  obtain ⟨ticket, rfl⟩ := LotThread.isAsleep_iff.mp (Bool.not_eq_false _ ▸ hsleep)
  by_cases hi : i < c.workers.size
  · have hw : c.workers[i]? = some c.workers[i] := Array.getElem?_eq_getElem hi
    obtain ⟨t, ht', hs⟩ := h.worker hw
    obtain rfl := Option.some.inj (ht.symm.trans ht')
    have hawake := hnone _ (Array.mem_of_getElem? hw)
    rw [Worker.isAsleep, (hs.asleep_iff ticket).mp rfl] at hawake
    cases hawake
  · cases h.outside (Nat.not_lt.mp hi) ht

/-- **Whoever signals leaves the others as the lot has them.** -/
theorem notify {choice : Choice} {next : Option Notice} (h : c.Uses seats l)
    (hm : l.threads[m]? = some (.notifying n)) (hn : c.notify n choice = some (c₁, next)) :
    ∃ l₁, c₁.Uses seats l₁ ∧ l.Step (l₁.put c₁.events m (Notice.stand next)) ∧
      c₁.notices = c.notices ∧ c₁.workers.size = c.workers.size := by
  cases n with
  | bumping all =>
    cases choice with
    | go =>
      obtain ⟨rfl, rfl⟩ := Prod.mk.inj (Option.some.inj hn)
      refine ⟨{ l with events := c.events.bump }, ⟨rfl, h.worker, h.length, h.nodup, h.notice,
        h.outside⟩, ?_, rfl, rfl⟩
      rw [← h.events]
      exact (Lot.Move.turn hm (.bump all)).step
    | _ => cases hn
  | looking all =>
    cases choice with
    | go =>
      obtain ⟨rfl, rfl⟩ := Prod.mk.inj (Option.some.inj hn)
      have hstep := (Lot.Move.turn hm (.look all)).step
      rw [h.events] at hstep
      refine ⟨l, h, ?_, rfl, rfl⟩
      split at hstep
      · next hzero => rwa [if_pos hzero]
      · next hzero => rwa [if_neg hzero]
    | _ => cases hn
  | signalling all =>
    cases choice with
    | wake target =>
      obtain ⟨c₂, hs, he⟩ := Option.map_eq_some_iff.mp hn
      obtain ⟨rfl, rfl⟩ := Prod.mk.inj he
      rcases signal_cases hs with ⟨rfl, rfl⟩ | ⟨rfl, ⟨rfl, hnone⟩ | ⟨j, d, ticket, hj, rfl⟩⟩
      · refine ⟨_, h.rouse, ?_, rfl, Array.size_map ..⟩
        have hstep := (Lot.Move.signalAll hm).step
        rw [Array.map_setIfInBounds] at hstep
        exact h.events ▸ hstep
      · refine ⟨l, h, h.events ▸ (Lot.Move.signalNone hm fun t ht => ?_).step, rfl, rfl⟩
        obtain ⟨j, hj⟩ := Array.mem_iff_getElem?.mp ht
        by_cases hmj : m = j
        · subst hmj
          rw [Lot.getElem?_put_self _ _ _ (Array.getElem?_eq_some_iff.mp hm).1] at hj
          exact Option.some.inj hj ▸ rfl
        · exact h.awake hnone ((Lot.getElem?_put_ne _ _ _ hmj).symm.trans hj)
      · obtain ⟨t, ht, rfl⟩ := h.worker hj
        have hmj : m ≠ j := by
          rintro rfl
          cases hm.symm.trans ht
        refine ⟨_, h.put (t := .parking (.woken ticket)) rfl rfl hj rfl, ?_, rfl,
          Array.size_setIfInBounds⟩
        have hstep := (Lot.Move.signalOne hm hmj ht).step
        rw [Lot.put_comm _ _ _ _ _ hmj] at hstep
        exact h.events ▸ hstep
    | _ => cases hn

/-- **An operation of a worker.** -/
theorem advance {choice : Choice} (h : c.Uses seats l) (ha : c.advance start i choice = some c') :
    ∃ l', l.Leads l' ∧ c'.Uses seats l' := by
  cases hw : c.workers[i]? with
  | none =>
    simp only [Crew.advance, hw] at ha
    cases ha
  | some w =>
    by_cases hn : ∃ n errand, w.stage = .notifying n errand
    · obtain ⟨n, errand, hs⟩ := hn
      obtain ⟨t, ht, hst⟩ := h.worker hw
      rw [hs] at hst
      obtain rfl := hst
      have hi : i < c.workers.size := (Array.getElem?_eq_some_iff.mp hw).1
      simp only [Crew.advance, hw, hs] at ha
      split at ha
      · cases ha
      · next c₁ n' hnotify =>
        obtain ⟨l₁, h₁, hstep, -, hsize⟩ := h.notify ht hnotify
        obtain rfl := Option.some.inj ha
        exact ⟨_, .single hstep, h₁.setStage (hsize ▸ hi) rfl⟩
      · next c₁ hnotify =>
        obtain ⟨l₁, h₁, hstep, -, hsize⟩ := h.notify ht hnotify
        obtain rfl := Option.some.inj ha
        refine ⟨_, .single hstep, h₁.setStage (hsize ▸ hi) ?_⟩
        cases errand <;> rfl
    · exact h.acts (acts_of_advance hw (fun n errand hs => hn ⟨n, errand, hs⟩) ha)

/-- **An operation of a notification from outside.** -/
theorem advanceNotice {choice : Choice} (h : c.Uses seats l)
    (ha : c.advanceNotice k choice = some c') :
    ∃ seats' l', l.Leads l' ∧ c'.Uses seats' l' := by
  rw [Crew.advanceNotice] at ha
  split at ha
  · cases ha
  next n hk =>
  obtain ⟨m, hm⟩ : ∃ m, seats[k]? = some m :=
    ⟨_, List.getElem?_eq_getElem (h.length ▸ (List.getElem?_eq_some_iff.mp hk).1)⟩
  split at ha
  · cases ha
  · next c₁ n' hnotify =>
    obtain ⟨l₁, h₁, hstep, hnotices, -⟩ := h.notify (h.notice hk hm).2 hnotify
    obtain rfl := Option.some.inj ha
    have hnext := h₁.next (hnotices ▸ hk) hm n'
    rw [h₁.events] at hnext
    exact ⟨_, _, .single hstep, hnext⟩
  · next c₁ hnotify =>
    obtain ⟨l₁, h₁, hstep, hnotices, -⟩ := h.notify (h.notice hk hm).2 hnotify
    obtain rfl := Option.some.inj ha
    have hlast := h₁.last (hnotices ▸ hk) hm
    rw [h₁.events] at hlast
    exact ⟨_, _, .single hstep, hlast⟩

end Uses

/-! ### Whatever a crew comes to, stopped or not -/

/-- **An operation of a crew that may be stopped.** -/
inductive Operates (start : τ → ξ) (c : Crew τ ξ) : Crew τ ξ → Prop where
  | step {c' : Crew τ ξ} (h : Step start c c') : Operates start c c'
  | stop : Operates start c c.stop

/-- **An operation of the crew is made of steps of the lot**, in which a thread may join. -/
theorem Uses.operates (h : c.Uses seats l) (ho : Operates start c c') :
    ∃ seats' n l', (l.extend n).Leads l' ∧ c'.Uses seats' l' := by
  cases ho with
  | stop =>
    obtain ⟨seats', l', hl, hu⟩ := h.announce c.stop rfl rfl rfl
    exact ⟨seats', 1, l', hl, hu⟩
  | step hs =>
    rcases hs.kinds with ⟨i, choice, ha⟩ | ⟨i, ha⟩ | ⟨task, rfl⟩ | ⟨k, choice, ha⟩
    · obtain ⟨l', hl, hu⟩ := h.advance ha
      exact ⟨seats, 0, l', l.extend_zero.symm ▸ hl, hu⟩
    · obtain ⟨l', hl, hu⟩ := h.acts ha
      exact ⟨seats, 0, l', l.extend_zero.symm ▸ hl, hu⟩
    · obtain ⟨seats', l', hl, hu⟩ := h.announce (c.inject [task]) rfl rfl rfl
      exact ⟨seats', 1, l', hl, hu⟩
    · obtain ⟨seats', l', hl, hu⟩ := h.advanceNotice ha
      exact ⟨seats', 0, l', l.extend_zero.symm ▸ hl, hu⟩

/-- So is whatever a crew does, one operation after the other. -/
theorem Uses.leads (h : c.Uses seats l) (ho : Relation.ReflTransGen (Operates start) c c') :
    ∃ seats' n l', (l.extend n).Leads l' ∧ c'.Uses seats' l' := by
  induction ho with
  | refl => exact ⟨seats, 0, l, l.extend_zero.symm ▸ .refl, h⟩
  | tail _ ho ih =>
    obtain ⟨seats₁, n₁, l₁, hl₁, hu₁⟩ := ih
    obtain ⟨seats₂, n₂, l₂, hl₂, hu₂⟩ := hu₁.operates ho
    have hl := hl₁.extend n₂
    rw [Lot.extend_extend] at hl
    exact ⟨seats₂, n₁ + n₂, l₂, hl.trans hl₂, hu₂⟩

/-- **What a crew of so many workers can come to**, stopped or not. -/
def Operated (start : τ → ξ) (n : Nat) (c : Crew τ ξ) : Prop :=
  Relation.ReflTransGen (Operates start) (Crew.new n) c

/-- **The event count of a crew is that of a lot**, of the workers and of as many others as
have notified them. -/
theorem Operated.uses {n : Nat} (h : Operated start n c) :
    ∃ seats m l, Lot.Reachable (n + m) l ∧ c.Uses seats l := by
  obtain ⟨seats, m, l, hl, hu⟩ := (uses_new n).leads h
  rw [Lot.extend_new] at hl
  exact ⟨seats, m, l, hl, hu⟩

/-- Those who are registered are the same here and there. -/
theorem Uses.countP_isRegistered (h : c.Uses seats l) :
    l.threads.countP (·.isRegistered) = c.workers.countP (·.stage.isRegistered) := by
  have hworkers : (l.threads.toList.take c.workers.size).map (·.isRegistered) =
      c.workers.toList.map (·.stage.isRegistered) := by
    refine List.ext_getElem? fun i => ?_
    rw [List.getElem?_map, List.getElem?_map, List.getElem?_take, Array.getElem?_toList,
      Array.getElem?_toList]
    split
    · next hi =>
      have hw : c.workers[i]? = some c.workers[i] := Array.getElem?_eq_getElem hi
      obtain ⟨t, ht, hs⟩ := h.worker hw
      rw [ht, hw, Option.map_some, Option.map_some, hs.isRegistered]
    · next hi => rw [Array.getElem?_eq_none (Nat.not_lt.mp hi)]; rfl
  have hothers : (l.threads.toList.drop c.workers.size).countP (·.isRegistered) = 0 := by
    refine List.countP_eq_zero.mpr fun t ht => ?_
    obtain ⟨i, hi⟩ := List.mem_iff_getElem?.mp ht
    rw [List.getElem?_drop, Array.getElem?_toList] at hi
    rw [h.outside (Nat.le_add_right ..) hi]
    exact Bool.false_ne_true
  calc l.threads.countP (·.isRegistered)
      = (l.threads.toList.take c.workers.size ++ l.threads.toList.drop c.workers.size).countP
          (·.isRegistered) := by rw [List.take_append_drop, Array.countP_toList]
    _ = ((l.threads.toList.take c.workers.size).map (·.isRegistered)).countP id := by
          rw [List.countP_append, hothers, Nat.add_zero, List.countP_map]; rfl
    _ = c.workers.countP (·.stage.isRegistered) := by
          rw [hworkers, List.countP_map, ← Array.countP_toList]; rfl

/-- **The waiters of a crew are counted**, also when it has been stopped. -/
theorem Operated.waiters {n : Nat} (h : Operated start n c) :
    c.events.waiters = c.workers.countP (·.stage.isRegistered) := by
  obtain ⟨seats, m, l, hl, hu⟩ := h.uses
  rw [← hu.events, hl.sound.waiters, hu.countP_isRegistered]

/-- **A ticket that is out of date puts no worker to sleep**: who sleeps on it slept on it
before. -/
theorem Operated.asleep {n ticket : Nat} (h : Operated start n c)
    (ho : Relation.ReflTransGen (Operates start) c c') (hlt : ticket < c.events.epoch)
    (hw : c'.workers[i]? = some w') (hs : w'.stage = .parking (.asleep ticket)) :
    ∃ w, c.workers[i]? = some w ∧ w.stage = .parking (.asleep ticket) := by
  obtain ⟨seats, m, l, -, hu⟩ := h.uses
  obtain ⟨seats', k, l', hl, hu'⟩ := hu.leads ho
  obtain ⟨t', ht', hst'⟩ := hu'.worker hw
  rw [(hst'.asleep_iff ticket).mpr hs] at ht'
  have hold := hl.asleep (hu.events.symm ▸ hlt) ht'
  have ht : l.threads[i]? = some (.parking (.asleep ticket)) := by
    rcases Lot.thread_of_extend hold with ht | haway
    · exact ht
    · cases haway
  have hi : i < c.workers.size := by
    by_contra hi
    cases hu.outside (Nat.not_lt.mp hi) ht
  have hw : c.workers[i]? = some c.workers[i] := Array.getElem?_eq_getElem hi
  obtain ⟨t, ht₁, hst⟩ := hu.worker hw
  obtain rfl := Option.some.inj (ht.symm.trans ht₁)
  exact ⟨_, hw, (hst.asleep_iff ticket).mp rfl⟩

end Crew

end Dataflow
