import Mathlib.Logic.Relation
import Dataflow.Crew.Lot
import Dataflow.Proofs.Pool.Passages

/-!
# Signals at an event count

A notification is meant for those who wait already. It advances the epoch, so that whoever
of them compares his ticket later does not sleep, and then it signals, so that one of them
wakes who did, or all. In between others come and go.

The first half never fails: a ticket that is older than the epoch puts nobody to sleep any
more, `Lot.Leads.asleep`. Neither does a signal to all. A signal to one, however, wakes any of
those who sleep, and a waiter who came after the epoch was advanced may be among them. It
wakes in the place of another, finds its own ticket up to date, and sleeps again:
`Lot.not_reachesWaiters` has three threads that come to this. Nothing else can go wrong,
`Lot.Reachable.notified`: a signal that leaves asleep everybody for whom it was meant has
woken one of the latecomers.
-/

namespace Dataflow

/-! ### Counting threads -/

/-- When one element of an array is replaced, the number of those that pass a test changes
by these two. -/
theorem countP_setIfInBounds {β : Type} (p : β → Bool) {a : Array β} {i : Nat} {x : β}
    (h : a[i]? = some x) (y : β) :
    (a.setIfInBounds i y).countP p + (p x).toNat = a.countP p + (p y).toNat := by
  obtain ⟨hlt, rfl⟩ := Array.getElem?_eq_some_iff.mp h
  have hpos : p a[i] = true → 0 < a.countP p := fun hp =>
    Array.countP_pos_iff.mpr ⟨_, Array.getElem_mem hlt, hp⟩
  rw [Array.setIfInBounds_def, dif_pos hlt, Array.countP_set]
  cases hx : p a[i] with
  | false => cases p y <;> rfl
  | true =>
    have := hpos hx
    cases p y <;> simp only [Bool.toNat_true, Bool.toNat_false, if_true, Bool.false_eq_true,
      if_false] <;> omega

theorem countP_setIfInBounds_of_eq {β : Type} (p : β → Bool) {a : Array β} {i : Nat} {x : β}
    (h : a[i]? = some x) (y : β) (hxy : p y = p x) :
    (a.setIfInBounds i y).countP p = a.countP p := by
  have := countP_setIfInBounds p h y
  rw [hxy] at this
  exact Nat.add_right_cancel this

/-! ### Where a thread stands -/

namespace LotThread

/-- The ticket that a waiter has got and may still compare with the epoch. -/
def ticket? : LotThread → Option Nat
  | deciding ticket => some ticket
  | parking (.checking ticket) => some ticket
  | parking (.asleep ticket) => some ticket
  | parking (.woken ticket) => some ticket
  | _ => none

/-- The thread is a waiter: it has got a ticket, and has neither withdrawn nor returned. -/
def Waits : LotThread → Prop
  | deciding _ => True
  | parking _ => True
  | _ => False

theorem waits_of_ticket {t : LotThread} {ticket : Nat} (h : t.ticket? = some ticket) :
    t.Waits := by
  cases t with
  | deciding | parking => trivial
  | _ => cases h

theorem isAsleep_iff {t : LotThread} :
    t.isAsleep = true ↔ ∃ ticket, t = .parking (.asleep ticket) := by
  constructor
  · intro h
    cases t with
    | parking p =>
      cases p with
      | asleep ticket => exact ⟨ticket, rfl⟩
      | _ => cases h
    | _ => cases h
  · rintro ⟨ticket, rfl⟩
    rfl

theorem isRegistered_rouse (t : LotThread) : t.rouse.isRegistered = t.isRegistered := by
  cases t <;> rfl

theorem ticket?_rouse (t : LotThread) : t.rouse.ticket? = t.ticket? := by
  cases t with
  | parking p => cases p <;> rfl
  | _ => rfl

theorem rouse_ne_asleep (t : LotThread) (ticket : Nat) : t.rouse ≠ .parking (.asleep ticket) := by
  cases t with
  | parking p => cases p <;> simp [rouse, Parking.rouse]
  | _ => simp [rouse]

/-- **What a thread does at an event count**, but for its signals. -/
inductive Turn (e : EventCount) : LotThread → EventCount → LotThread → Prop where
  | register : Turn e .away e.register .ticketing
  | notify (all : Bool) : Turn e .away e (.notifying (.bumping all))
  | takeTicket : Turn e .ticketing e (.deciding e.epoch)
  | withdraw (ticket : Nat) : Turn e (.deciding ticket) e.withdraw .away
  | park (ticket : Nat) : Turn e (.deciding ticket) e (.parking (.checking ticket))
  | check (ticket : Nat) :
      Turn e (.parking (.checking ticket)) e (.parking (.check e ticket))
  | recheck (ticket : Nat) :
      Turn e (.parking (.woken ticket)) e (.parking (.check e ticket))
  | wake (ticket : Nat) : Turn e (.parking (.asleep ticket)) e (.parking (.woken ticket))
  | leave : Turn e (.parking .departing) e.withdraw .away
  | bump (all : Bool) : Turn e (.notifying (.bumping all)) e.bump (.notifying (.looking all))
  | look (all : Bool) : Turn e (.notifying (.looking all)) e
      (if e.waiters = 0 then .away else .notifying (.signalling all))

/-- How a thread may be found that was at `t`, as far as sleep is concerned: it has no other
ticket than before unless it has just taken one, and it falls asleep only with the present
epoch on its ticket. -/
structure Follows (epoch : Nat) (t t' : LotThread) : Prop where
  ticket : ∀ {ticket : Nat}, t'.ticket? = some ticket → t.ticket? = some ticket ∨ ticket = epoch
  asleep : ∀ {ticket : Nat}, t' = .parking (.asleep ticket) →
    t = .parking (.asleep ticket) ∨ ticket = epoch

theorem Follows.refl (epoch : Nat) (t : LotThread) : t.Follows epoch t :=
  ⟨Or.inl, Or.inl⟩

/-- A thread without a ticket cannot be asleep. -/
theorem follows_of_none {epoch : Nat} {t t' : LotThread} (h : t'.ticket? = none) :
    t.Follows epoch t' where
  ticket := fun ht => by simp [h] at ht
  asleep := by
    rintro ticket rfl
    cases h

theorem follows_rouse (epoch : Nat) (t : LotThread) : t.Follows epoch t.rouse where
  ticket := fun ht => Or.inl (t.ticket?_rouse ▸ ht)
  asleep := fun ht => absurd ht (t.rouse_ne_asleep _)

theorem follows_check {e : EventCount} {t : LotThread} {ticket : Nat} :
    t.Follows e.epoch (.parking (.check e ticket)) := by
  rw [Parking.check]
  split
  · next he =>
    subst he
    refine ⟨fun ht => Or.inr (Option.some.inj ht).symm, fun ht => Or.inr ?_⟩
    injection ht with ht
    injection ht with ht
    exact ht.symm
  · exact follows_of_none rfl

namespace Turn

variable {e e' : EventCount} {t t' : LotThread}

theorem follows (h : Turn e t e' t') : t.Follows e.epoch t' := by
  cases h with
  | takeTicket => exact ⟨fun ht => Or.inr (Option.some.inj ht).symm, fun ht => by cases ht⟩
  | park ticket => exact ⟨Or.inl, fun ht => by cases ht⟩
  | check | recheck => exact follows_check
  | wake ticket => exact ⟨Or.inl, fun ht => by cases ht⟩
  | look all => split <;> exact follows_of_none rfl
  | _ => exact follows_of_none rfl

theorem epoch_le (h : Turn e t e' t') : e.epoch ≤ e'.epoch := by
  cases h with
  | bump => exact Nat.le_succ _
  | _ => exact Nat.le_refl _

/-- A thread that registers is counted, and one that leaves is not any more. -/
theorem waiters (h : Turn e t e' t') (hpos : t.isRegistered = true → 0 < e.waiters) :
    e'.waiters + t.isRegistered.toNat = e.waiters + t'.isRegistered.toNat := by
  cases h with
  | withdraw | leave =>
    have := hpos rfl
    simp only [EventCount.withdraw, isRegistered, Bool.toNat_true, Bool.toNat_false]
    omega
  | look all => split <;> rfl
  | _ => rfl

/-- Who looks and goes away has seen nobody wait. -/
theorem waiters_eq_zero {all : Bool} (h : Turn e (.notifying (.looking all)) e' t')
    (ht : t' = .away) : e.waiters = 0 := by
  cases h with
  | look all =>
    split at ht
    · assumption
    · cases ht

end Turn

end LotThread

/-! ### Steps -/

namespace Lot

variable {l l' l₁ l₂ l₃ l₄ : Lot} {i j k : Nat}

theorem getElem?_put_self (l : Lot) (e : EventCount) (t : LotThread) (h : i < l.threads.size) :
    (l.put e i t).threads[i]? = some t := by
  rw [put, Array.getElem?_setIfInBounds, if_pos rfl, if_pos h]

theorem getElem?_put_ne (l : Lot) (e : EventCount) (t : LotThread) (h : i ≠ j) :
    (l.put e i t).threads[j]? = l.threads[j]? := by
  rw [put, Array.getElem?_setIfInBounds_ne h]

/-- **All that a step of a thread can be.** -/
inductive Move (l : Lot) (i : Nat) : Lot → Prop where
  | turn {t t' : LotThread} {e : EventCount} (ht : l.threads[i]? = some t)
      (h : t.Turn l.events e t') : Move l i (l.put e i t')
  | signalAll (ht : l.threads[i]? = some (.notifying (.signalling true))) :
      Move l i { l with threads := (l.threads.setIfInBounds i .away).map (·.rouse) }
  | signalNone (ht : l.threads[i]? = some (.notifying (.signalling false)))
      (hnone : ∀ t ∈ (l.put l.events i .away).threads, t.isAsleep = false) :
      Move l i (l.put l.events i .away)
  | signalOne {j ticket : Nat} (ht : l.threads[i]? = some (.notifying (.signalling false)))
      (hij : i ≠ j) (hj : l.threads[j]? = some (.parking (.asleep ticket))) :
      Move l i ((l.put l.events i .away).put l.events j (.parking (.woken ticket)))

theorem move_of_signal {all : Bool} {target : Option Nat}
    (ht : l.threads[i]? = some (.notifying (.signalling all)))
    (h : (l.put l.events i .away).signal all target = some l') : l.Move i l' := by
  unfold signal at h
  cases all with
  | true =>
    obtain rfl := Option.some.inj h
    exact .signalAll ht
  | false =>
    cases target with
    | none =>
      simp only [Bool.false_eq_true, if_false, Option.ite_none_left_eq_some] at h
      obtain ⟨hnone, h⟩ := h
      obtain rfl := Option.some.inj h
      refine .signalNone ht fun t hmem => ?_
      rw [Bool.not_eq_true, Array.any_eq_false'] at hnone
      exact Bool.not_eq_true _ ▸ hnone t hmem
    | some j =>
      simp only [Bool.false_eq_true, if_false] at h
      split at h
      · next hj =>
        obtain ⟨t, hjt, hsleep⟩ := (Option.any_eq_true ..).mp hj
        obtain ⟨ticket, rfl⟩ := LotThread.isAsleep_iff.mp hsleep
        have hij : i ≠ j := by
          rintro rfl
          rw [getElem?_put_self _ _ _ (Array.getElem?_eq_some_iff.mp ht).1] at hjt
          cases hjt
        have hmod := Monitor.modify_eq_setIfInBounds LotThread.rouse hjt
        obtain rfl : (l.put l.events i .away).put l.events j (.parking (.woken ticket)) = l' :=
          (congrArg (Lot.mk l.events) hmod.symm).trans (Option.some.inj h)
        exact .signalOne ht hij ((getElem?_put_ne l _ _ hij).symm.trans hjt)
      · cases h

theorem move_of_advance {move : LotMove} (h : l.advance i move = some l') : l.Move i l' := by
  unfold advance at h
  split at h
  case h_10 ht => exact move_of_signal ht h
  case h_13 => cases h
  all_goals
    obtain rfl := Option.some.inj h
    refine .turn ‹_› ?_
    constructor

/-- One operation of some thread. -/
def Step (l l' : Lot) : Prop :=
  ∃ i move, l.advance i move = some l'

/-- What can come of a lot. -/
def Leads : Lot → Lot → Prop :=
  Relation.ReflTransGen Step

/-- The given threads perform an operation each, one after the other. -/
def run (l : Lot) : List (Nat × LotMove) → Option Lot
  | [] => some l
  | (i, move) :: moves => (l.advance i move).bind (·.run moves)

theorem leads_of_run (moves : List (Nat × LotMove)) (h : l.run moves = some l') :
    l.Leads l' := by
  induction moves generalizing l with
  | nil =>
    obtain rfl := Option.some.inj h
    exact .refl
  | cons move moves ih =>
    obtain ⟨m, hmove, hm⟩ := Option.bind_eq_some_iff.mp h
    exact .head ⟨_, _, hmove⟩ (ih hm)

/-- **What any number of threads can come to**, whatever they do in whatever order. -/
def Reachable (n : Nat) (l : Lot) : Prop :=
  (Lot.new n).Leads l

/-- A thread was somewhere before, and is now where it may be found. -/
theorem Move.follows (h : l.Move i l') {t' : LotThread} (hj : l'.threads[j]? = some t') :
    ∃ t, l.threads[j]? = some t ∧ t.Follows l.events.epoch t' := by
  have hput : ∀ {e : EventCount} {m : Nat} {u u' : LotThread} {lot : Lot},
      lot.threads[m]? = some u → u.Follows l.events.epoch u' →
      ∀ {t'}, (lot.put e m u').threads[j]? = some t' →
        ∃ t, lot.threads[j]? = some t ∧ t.Follows l.events.epoch t' := by
    intro e m u u' lot hu hf t' ht'
    by_cases hm : m = j
    · subst hm
      rw [getElem?_put_self _ _ _ (Array.getElem?_eq_some_iff.mp hu).1] at ht'
      exact ⟨u, hu, Option.some.inj ht' ▸ hf⟩
    · rw [getElem?_put_ne _ _ _ hm] at ht'
      exact ⟨t', ht', .refl _ _⟩
  cases h with
  | turn ht hturn => exact hput ht hturn.follows hj
  | signalAll ht =>
    rw [Array.getElem?_map] at hj
    obtain ⟨t, ht', rfl⟩ := Option.map_eq_some_iff.mp hj
    obtain ⟨u, hu, hf⟩ := hput (e := l.events) ht (LotThread.follows_of_none rfl) ht'
    refine ⟨u, hu, fun h => hf.ticket (t.ticket?_rouse ▸ h), fun h => ?_⟩
    exact absurd h (t.rouse_ne_asleep _)
  | signalNone ht => exact hput ht (LotThread.follows_of_none rfl) hj
  | @signalOne m ticket ht him hm =>
    have hwake : (LotThread.parking (.asleep ticket)).Follows l.events.epoch
        (.parking (.woken ticket)) := LotThread.follows_rouse _ (.parking (.asleep ticket))
    obtain ⟨t, ht', hf⟩ := hput ((getElem?_put_ne l _ _ him).trans hm) hwake hj
    by_cases hij : i = j
    · subst hij
      rw [getElem?_put_self _ _ _ (Array.getElem?_eq_some_iff.mp ht).1] at ht'
      obtain rfl := Option.some.inj ht'
      exact ⟨_, ht, fun h => (hf.ticket h).imp_left (by simp [LotThread.ticket?]),
        fun h => (hf.asleep h).imp_left (by simp)⟩
    · rw [getElem?_put_ne _ _ _ hij] at ht'
      exact ⟨t, ht', hf⟩

theorem Move.epoch_le (h : l.Move i l') : l.events.epoch ≤ l'.events.epoch := by
  cases h with
  | turn _ hturn => exact hturn.epoch_le
  | _ => exact Nat.le_refl _

namespace Leads

theorem epoch_le (h : l.Leads l') : l.events.epoch ≤ l'.events.epoch := by
  induction h with
  | refl => exact Nat.le_refl _
  | tail _ hs ih =>
    obtain ⟨i, move, hs⟩ := hs
    exact Nat.le_trans ih (move_of_advance hs).epoch_le

/-- Whoever has a ticket that is older than the epoch has had it all the time. -/
theorem ticket (h : l.Leads l') {t' : LotThread} {ticket : Nat}
    (hlt : ticket < l.events.epoch) (hj : l'.threads[j]? = some t')
    (ht : t'.ticket? = some ticket) :
    ∃ t, l.threads[j]? = some t ∧ t.ticket? = some ticket := by
  induction h generalizing t' with
  | refl => exact ⟨t', hj, ht⟩
  | tail hm hs ih =>
    obtain ⟨i, move, hs⟩ := hs
    obtain ⟨t, hmt, hf⟩ := (move_of_advance hs).follows hj
    rcases hf.ticket ht with ht | rfl
    · exact ih hmt ht
    · exact absurd (epoch_le hm) (Nat.not_le.mpr hlt)

/-- **A ticket that is older than the epoch puts nobody to sleep**: who sleeps with it slept
before. -/
theorem asleep (h : l.Leads l') {ticket : Nat} (hlt : ticket < l.events.epoch)
    (hj : l'.threads[j]? = some (.parking (.asleep ticket))) :
    l.threads[j]? = some (.parking (.asleep ticket)) := by
  induction h with
  | refl => exact hj
  | tail hm hs ih =>
    obtain ⟨i, move, hs⟩ := hs
    obtain ⟨t, hmt, hf⟩ := (move_of_advance hs).follows hj
    rcases hf.asleep rfl with rfl | rfl
    · exact ih hmt
    · exact absurd (epoch_le hm) (Nat.not_le.mpr hlt)

end Leads

/-! ### What holds between two steps -/

/-- Every registered thread is counted, and no ticket is ahead of the epoch. -/
structure Sound (l : Lot) : Prop where
  waiters : l.events.waiters = l.threads.countP (·.isRegistered)
  ticket_le : ∀ {j : Nat} {t : LotThread} {ticket : Nat}, l.threads[j]? = some t →
    t.ticket? = some ticket → ticket ≤ l.events.epoch

theorem Sound.move (h : l.Sound) (hm : l.Move i l') : l'.Sound where
  waiters := by
    cases hm with
    | @turn t t' e ht hturn =>
      have hpos : t.isRegistered = true → 0 < l.events.waiters := by
        intro hr
        rw [h.waiters]
        exact Array.countP_pos_iff.mpr ⟨t, Array.mem_of_getElem? ht, hr⟩
      have hwaiters := hturn.waiters hpos
      have hcount := countP_setIfInBounds (·.isRegistered) ht t'
      have := h.waiters
      show e.waiters = (l.threads.setIfInBounds i t').countP (·.isRegistered)
      omega
    | signalAll ht =>
      have haway := countP_setIfInBounds_of_eq (·.isRegistered) ht .away rfl
      show l.events.waiters = _
      rw [Array.countP_map, h.waiters, ← haway]
      exact congrArg (Array.countP · _) (funext fun t => t.isRegistered_rouse.symm)
    | signalNone ht =>
      exact h.waiters.trans (countP_setIfInBounds_of_eq (·.isRegistered) ht .away rfl).symm
    | @signalOne j ticket ht hij hj =>
      have haway := countP_setIfInBounds_of_eq (·.isRegistered) ht .away rfl
      have hwoken := countP_setIfInBounds_of_eq (·.isRegistered)
        ((getElem?_put_ne l l.events .away hij).trans hj) (.parking (.woken ticket)) rfl
      exact h.waiters.trans (hwoken.trans haway).symm
  ticket_le := by
    intro j t' ticket hj ht
    obtain ⟨t, hjt, hf⟩ := hm.follows hj
    rcases hf.ticket ht with ht | rfl
    · exact Nat.le_trans (h.ticket_le hjt ht) hm.epoch_le
    · exact hm.epoch_le

theorem sound_new (n : Nat) : (Lot.new n).Sound where
  waiters := by simp [Lot.new, LotThread.isRegistered, Array.countP_replicate]
  ticket_le := by
    intro j t ticket hj ht
    obtain rfl : t = .away := by
      have := Array.mem_of_getElem? hj
      simp only [Lot.new, Array.mem_replicate] at this
      exact this.2
    cases ht

theorem Sound.leads (h : l.Sound) (hl : l.Leads l') : l'.Sound := by
  induction hl with
  | refl => exact h
  | tail _ hs ih =>
    obtain ⟨i, move, hs⟩ := hs
    exact ih.move (move_of_advance hs)

theorem Reachable.sound {n : Nat} (h : Reachable n l) : l.Sound :=
  (sound_new n).leads h

/-! ### Notifications -/

/-- Thread `i` waits in `l`. -/
def WaitsAt (l : Lot) (i : Nat) : Prop :=
  ∃ t, l.threads[i]? = some t ∧ t.Waits

/-- Thread `i`, which waits in `l`, sleeps in `l'` on the ticket that it has in `l`. -/
def SleepsOn (l l' : Lot) (i : Nat) : Prop :=
  ∃ t ticket, l.threads[i]? = some t ∧ t.ticket? = some ticket ∧
    l'.threads[i]? = some (.parking (.asleep ticket))

/-- **The course of a notification** of thread `k`, from `l`, where it is about to advance
the epoch, up to its last step, which leads from `l₂` to `l₃`. If the thread makes another one
like it in between, the two together are a course as well. -/
structure Course (all : Bool) (k : Nat) (l l₂ l₃ : Lot) : Prop where
  begun : l.threads[k]? = some (.notifying (.bumping all))
  between : ∃ l₁, l.advance k .go = some l₁ ∧ l₁.Leads l₂
  late : l₂.threads[k]? = some (.notifying (.looking all)) ∨
    l₂.threads[k]? = some (.notifying (.signalling all))
  ended : ∃ move, l₂.advance k move = some l₃
  away : l₃.threads[k]? = some .away

/-- Advancing the epoch does nothing else. -/
theorem advance_bumping {all : Bool} (ht : l.threads[k]? = some (.notifying (.bumping all))) :
    l.advance k .go = some (l.put l.events.bump k (.notifying (.looking all))) := by
  simp only [advance, ht]

/-- **How a notification ends**: nobody sleeps any more, or one sleeper has been woken. -/
theorem Course.ends {all : Bool} (h : Course all k l l₂ l₃) (hs : l₂.Sound) :
    (∀ i ticket : Nat, l₃.threads[i]? ≠ some (.parking (.asleep ticket))) ∨
      all = false ∧ ∃ j ticket : Nat, l₂.threads[j]? = some (.parking (.asleep ticket)) ∧
        l₃.threads[j]? = some (.parking (.woken ticket)) := by
  obtain ⟨move, hmove⟩ := h.ended
  have haway := h.away
  have hm := move_of_advance hmove
  have hlt : k < l₂.threads.size := by
    rcases h.late with ht | ht <;> exact (Array.getElem?_eq_some_iff.mp ht).1
  cases hm with
  | @turn t t' e ht hturn =>
    refine Or.inl fun i ticket hi => ?_
    rw [getElem?_put_self _ _ _ hlt] at haway
    obtain rfl := Option.some.inj haway
    have hik : k ≠ i := by
      rintro rfl
      rw [getElem?_put_self _ _ _ hlt] at hi
      cases hi
    rw [getElem?_put_ne _ _ _ hik] at hi
    -- it has looked and has seen no waiter, and a sleeper would be one
    have hzero : l₂.events.waiters = 0 := by
      rcases h.late with hlate | hlate
      · obtain rfl := Option.some.inj (ht.symm.trans hlate)
        exact hturn.waiters_eq_zero rfl
      · obtain rfl := Option.some.inj (ht.symm.trans hlate)
        cases hturn
    rw [hs.waiters] at hzero
    exact Array.countP_eq_zero.mp hzero _ (Array.mem_of_getElem? hi) rfl
  | signalAll ht =>
    refine Or.inl fun i ticket hi => ?_
    rw [Array.getElem?_map] at hi
    obtain ⟨t, -, hrouse⟩ := Option.map_eq_some_iff.mp hi
    exact t.rouse_ne_asleep ticket hrouse
  | signalNone ht hnone =>
    refine Or.inl fun i ticket hi => ?_
    exact Bool.noConfusion (hnone _ (Array.mem_of_getElem? hi))
  | @signalOne j ticket ht hij hj =>
    refine Or.inr ⟨?_, j, ticket, hj, ?_⟩
    · rcases h.late with hlate | hlate
      · cases ht.symm.trans hlate
      · have := ht.symm.trans hlate
        simpa using this.symm
    · refine getElem?_put_self _ _ _ ?_
      simpa [put] using (Array.getElem?_eq_some_iff.mp hj).1

/-- The epoch has advanced in the course of a notification. -/
theorem Course.epoch_lt {all : Bool} (h : Course all k l l₂ l₃) :
    l.events.epoch < l₂.events.epoch := by
  obtain ⟨l₁, h₁, hl⟩ := h.between
  obtain rfl := Option.some.inj ((advance_bumping h.begun).symm.trans h₁)
  exact Nat.lt_of_succ_le (Leads.epoch_le hl)

theorem Course.leads {all : Bool} (h : Course all k l l₂ l₃) : l.Leads l₂ ∧ l₂.Leads l₃ := by
  obtain ⟨l₁, h₁, hl⟩ := h.between
  obtain ⟨move, hmove⟩ := h.ended
  exact ⟨.head ⟨k, .go, h₁⟩ hl, .single ⟨k, move, hmove⟩⟩

/-- A waiter who sleeps on an old ticket after the notification has slept when it ended. -/
theorem Course.asleep_of_sleepsOn {all : Bool} (h : Course all k l l₂ l₃) (hs : l.Sound)
    (hl : l₃.Leads l₄) (hi : l.SleepsOn l₄ i) :
    ∃ t ticket, l.threads[i]? = some t ∧ t.ticket? = some ticket ∧
      l₃.threads[i]? = some (.parking (.asleep ticket)) := by
  obtain ⟨t, ticket, ht, hticket, hasleep⟩ := hi
  refine ⟨t, ticket, ht, hticket, hl.asleep ?_ hasleep⟩
  have hle := hs.ticket_le ht hticket
  have hlt := h.epoch_lt
  have hle' := Leads.epoch_le h.leads.2
  omega

/-- A sleeper on a ticket from before the notification waited when it began. -/
theorem Course.waited {all : Bool} (h : Course all k l l₂ l₃) {ticket : Nat}
    (hle : ticket ≤ l.events.epoch) (hj : l₂.threads[j]? = some (.parking (.asleep ticket))) :
    ∃ t, l.threads[j]? = some t ∧ t.ticket? = some ticket := by
  obtain ⟨l₁, h₁, hl⟩ := h.between
  obtain rfl := Option.some.inj ((advance_bumping h.begun).symm.trans h₁)
  obtain ⟨t, ht, hticket⟩ := hl.ticket (Nat.lt_succ_of_le hle) hj rfl
  have hkj : k ≠ j := by
    rintro rfl
    rw [getElem?_put_self _ _ _ (Array.getElem?_eq_some_iff.mp h.begun).1] at ht
    obtain rfl := Option.some.inj ht
    cases hticket
  rw [getElem?_put_ne _ _ _ hkj] at ht
  exact ⟨t, ht, hticket⟩

/-- Of those who wait when a notification of one begins, one does not sleep once it has
ended. -/
def ReachesWaiters (n : Nat) : Prop :=
  ∀ {k : Nat} {l l₂ l₃ l₄ : Lot}, Reachable n l → Course false k l l₂ l₃ → l₃.Leads l₄ →
    (∃ i, l.WaitsAt i) → ∃ i, l.WaitsAt i ∧ ¬ l.SleepsOn l₄ i

/-- **A notification of one may reach none of those for whom it was meant.** The first thread
sleeps. The second advances the epoch; only then the third registers, and it falls asleep with
the new epoch on its ticket. The signal wakes the third, which goes back to sleep. -/
theorem not_reachesWaiters : ¬ ReachesWaiters 3 := by
  intro h
  -- the first sleeps, and the second is about to advance the epoch
  have hbegun : Reachable 3 ⟨⟨0, 1⟩, #[.parking (.asleep 0), .notifying (.bumping false), .away]⟩ :=
    leads_of_run [(0, .register), (0, .go), (0, .park), (0, .go), (1, .notify false)] rfl
  -- the third joins the first between that and the signal
  have hcourse : Course false 1
      ⟨⟨0, 1⟩, #[.parking (.asleep 0), .notifying (.bumping false), .away]⟩
      ⟨⟨1, 2⟩, #[.parking (.asleep 0), .notifying (.signalling false), .parking (.asleep 1)]⟩
      ⟨⟨1, 2⟩, #[.parking (.asleep 0), .away, .parking (.woken 1)]⟩ :=
    { begun := rfl
      between := ⟨_, rfl, leads_of_run
        [(2, .register), (2, .go), (2, .park), (2, .go), (1, .go)] rfl⟩
      late := Or.inr rfl
      ended := ⟨.wake (some 2), rfl⟩
      away := rfl }
  have hafter : Leads ⟨⟨1, 2⟩, #[.parking (.asleep 0), .away, .parking (.woken 1)]⟩
      ⟨⟨1, 2⟩, #[.parking (.asleep 0), .away, .parking (.asleep 1)]⟩ :=
    leads_of_run [(2, .go)] rfl
  obtain ⟨i, ⟨t, ht, hwaits⟩, hawake⟩ := h hbegun hcourse hafter ⟨0, _, rfl, trivial⟩
  match i, ht with
  | 0, _ => exact hawake ⟨_, _, rfl, rfl, rfl⟩
  | 1, ht | 2, ht =>
    obtain rfl := Option.some.inj ht
    exact hwaits

/-- **What a notification does for those who wait.** -/
structure Notifies (l : Lot) : Prop where
  /-- If it wakes one, then one of them, unless it wakes one who took his ticket later. -/
  one : ∀ {k : Nat} {l₂ l₃ l₄ : Lot}, Course false k l l₂ l₃ → l₃.Leads l₄ →
    (∃ i, l.WaitsAt i) → (∃ i, l.WaitsAt i ∧ ¬ l.SleepsOn l₄ i) ∨
      ∃ j ticket : Nat, l.events.epoch < ticket ∧
        l₂.threads[j]? = some (.parking (.asleep ticket)) ∧
        l₃.threads[j]? = some (.parking (.woken ticket))
  /-- If it wakes all, none of them sleeps any more. -/
  all : ∀ {k : Nat} {l₂ l₃ l₄ : Lot}, Course true k l l₂ l₃ → l₃.Leads l₄ →
    ∀ i, ¬ l.SleepsOn l₄ i
  /-- Who has got his ticket by then, and has not begun to park, will not sleep on it. -/
  early : ∀ {k i : Nat} {all : Bool} {ticket : Nat} {l₁ l' : Lot},
    l.threads[k]? = some (.notifying (.bumping all)) → l.advance k .go = some l₁ →
    l₁.Leads l' → l.threads[i]? = some (.deciding ticket) →
      l'.threads[i]? ≠ some (.parking (.asleep ticket))
  waiters : l.events.waiters = l.threads.countP (·.isRegistered)

/-- **A notification reaches those who wait**, or a latecomer. -/
theorem Reachable.notified {n : Nat} (h : Reachable n l) : l.Notifies where
  one := by
    intro k l₂ l₃ l₄ hc hl hwaits
    have hs := h.sound
    rcases hc.ends (hs.leads hc.leads.1) with hnone | ⟨-, j, ticket, hj, hwoken⟩
    · obtain ⟨i, hi⟩ := hwaits
      refine Or.inl ⟨i, hi, fun hsleep => ?_⟩
      obtain ⟨-, ticket, -, -, hasleep⟩ := hc.asleep_of_sleepsOn hs hl hsleep
      exact hnone i ticket hasleep
    · by_cases hlate : l.events.epoch < ticket
      · exact Or.inr ⟨j, ticket, hlate, hj, hwoken⟩
      · obtain ⟨t, ht, hticket⟩ := hc.waited (Nat.not_lt.mp hlate) hj
        refine Or.inl ⟨j, ⟨t, ht, LotThread.waits_of_ticket hticket⟩, fun hsleep => ?_⟩
        obtain ⟨_, _, _, _, hasleep⟩ := hc.asleep_of_sleepsOn hs hl hsleep
        cases hwoken.symm.trans hasleep
  all := by
    intro k l₂ l₃ l₄ hc hl i hsleep
    have hs := h.sound
    obtain ⟨-, ticket, -, -, hasleep⟩ := hc.asleep_of_sleepsOn hs hl hsleep
    rcases hc.ends (hs.leads hc.leads.1) with hnone | ⟨hall, -⟩
    · exact hnone i ticket hasleep
    · cases hall
  early := by
    intro k i all ticket l₁ l' hk h₁ hl hi hasleep
    have hle := h.sound.ticket_le hi rfl
    obtain rfl := Option.some.inj ((advance_bumping hk).symm.trans h₁)
    have hki : k ≠ i := by
      rintro rfl
      cases hk.symm.trans hi
    have := hl.asleep (Nat.lt_succ_of_le hle) hasleep
    rw [getElem?_put_ne _ _ _ hki, hi] at this
    cases this
  waiters := h.sound.waiters

/-- A waiter holds a ticket, another sleeps, and a third thread is about to notify both. -/
theorem notified_of_two : ∃ l, Reachable 3 l ∧
    l.threads = #[.parking (.asleep 0), .deciding 0, .notifying (.bumping true)] ∧
    l.Notifies :=
  have hl : Reachable 3
      ⟨⟨0, 2⟩, #[.parking (.asleep 0), .deciding 0, .notifying (.bumping true)]⟩ :=
    leads_of_run [(0, .register), (0, .go), (0, .park), (0, .go), (1, .register),
      (1, .go), (2, .notify true)] rfl
  ⟨_, hl, rfl, hl.notified⟩

end Lot

end Dataflow
