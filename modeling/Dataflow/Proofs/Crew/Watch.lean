import Dataflow.Proofs.Crew.Shifts

/-!
# Somebody keeps watch

As long as there is work for which somebody might be needed, a task in the injector or a
worker that is active, and somebody has begun to park, somebody else keeps watch,
`Crew.Alert`: a worker looks for tasks or will do so before it sleeps, or a notification is
under way that will reach those who park. `Crew.Watched` is what small changes preserve,
together with what makes it work: the counters are right (`Crew.Counted`), and a worker that
will not look into the injector any more has either seen the last of it or is about to be
notified.

So it cannot happen that work is left lying while all workers sleep or are busy with an
execution, `Crew.Reachable.not_stranded`.
-/

namespace Dataflow

variable {τ ξ : Type}

namespace WorkerStage

/-- The worker looks for tasks, or will find out before it sleeps whether it has to. -/
def Stirs (epoch : Nat) : WorkerStage τ ξ → Prop
  | joining | withdrawing _ | checkingActives _ | checkingThieves _ => True
  | parking .departing => True
  | parking (.checking ticket) | parking (.woken ticket) => ticket ≠ epoch
  | s => s.isThief = true

variable {s : WorkerStage τ ξ} {ticket epoch : Nat}

theorem stirs_of_isThief (h : s.isThief = true) : s.Stirs epoch := by
  cases s with
  | parking => cases h
  | joining | withdrawing | checkingActives | checkingThieves => trivial
  | _ => exact h

theorem ticket?_of_resolute (h : s.resolute? = some ticket) : s.ticket? = some ticket := by
  cases s with
  | rechecking => cases h
  | _ => exact h

theorem resolute?_of_parked (h : s.parked? = some ticket) : s.resolute? = some ticket := by
  cases s with
  | parking => exact h
  | _ => cases h

/-- Who parks with a ticket that is out of date stirs, unless he sleeps. -/
theorem stirs_of_parked (h : s.parked? = some ticket) (hlate : ticket ≠ epoch)
    (ha : s.isAsleep = false) : s.Stirs epoch := by
  cases s with
  | parking p =>
    cases p with
    | checking | woken => exact Option.some.inj h ▸ hlate
    | asleep => cases ha
    | departing => cases h
  | _ => cases h

theorem isRegistered_of_parked (h : s.parked? = some ticket) : s.isRegistered = true := by
  cases s with
  | parking => rfl
  | _ => cases h

end WorkerStage

namespace Crew

variable {start : τ → ξ} {c c' c₁ : Crew τ ξ} {i j : Nat} {w w' u : Worker τ ξ}
  {n : Notice} {next : Option Notice}

/-! ### Counters -/

/-- The counters count what they are meant to. -/
structure Counted (c : Crew τ ξ) : Prop where
  thieves : c.thieves = c.workers.countP (·.stage.isThief)
  actives : c.actives = c.workers.countP (·.stage.isActive)
  waiters : c.events.waiters = c.workers.countP (·.stage.isRegistered)

namespace Turn

theorem thieves (h : Turn start c w c' w') (hpos : w.stage.isThief = true → 0 < c.thieves) :
    c'.thieves + w.stage.isThief.toNat = c.thieves + w'.stage.isThief.toNat := by
  cases h with
  | leaveLast | leave | handOver | keep | leaveOff =>
    have := hpos rfl
    simp only [WorkerStage.isThief, Bool.toNat_true, Bool.toNat_false]
    omega
  | withdraw d why => cases why <;> rfl
  | _ => rfl

theorem actives (h : Turn start c w c' w') (hpos : w.stage.isActive = true → 0 < c.actives) :
    c'.actives + w.stage.isActive.toNat = c.actives + w'.stage.isActive.toNat := by
  cases h with
  | retire =>
    have := hpos rfl
    simp only [WorkerStage.isActive, Bool.toNat_true, Bool.toNat_false]
    omega
  | withdraw d why => cases why <;> rfl
  | _ => rfl

theorem waiters (h : Turn start c w c' w')
    (hpos : w.stage.isRegistered = true → 0 < c.events.waiters) :
    c'.events.waiters + w.stage.isRegistered.toNat =
      c.events.waiters + w'.stage.isRegistered.toNat := by
  cases h with
  | depart | quit =>
    have := hpos rfl
    simp only [WorkerStage.isRegistered, EventCount.withdraw, Bool.toNat_true, Bool.toNat_false]
    omega
  | withdraw d why =>
    have := hpos rfl
    cases why <;> simp only [afterWithdrawal, WorkerStage.isRegistered, EventCount.withdraw,
      Bool.toNat_true, Bool.toNat_false] <;> omega
  | _ => rfl

end Turn

/-- Whoever is counted is among those that were counted. -/
theorem countP_pos {p : Worker τ ξ → Bool} (hw : c.workers[i]? = some w) (hp : p w = true) :
    0 < c.workers.countP p :=
  Array.countP_pos_iff.mpr ⟨w, Array.mem_of_getElem? hw, hp⟩

theorem Counted.turn (hc : c.Counted) (hw : c.workers[i]? = some w) (h : Turn start c w c₁ w') :
    (c₁.put i w').Counted := by
  have hset : ∀ p : Worker τ ξ → Bool,
      (c₁.put i w').workers.countP p + (p w).toNat = c.workers.countP p + (p w').toNat := by
    intro p
    rw [put, h.workers]
    exact countP_setIfInBounds p hw w'
  constructor
  · have := hset (·.stage.isThief)
    have := h.thieves fun hp => hc.thieves ▸ countP_pos hw hp
    have := hc.thieves
    show c₁.thieves = _
    omega
  · have := hset (·.stage.isActive)
    have := h.actives fun hp => hc.actives ▸ countP_pos hw hp
    have := hc.actives
    show c₁.actives = _
    omega
  · have := hset (·.stage.isRegistered)
    have := h.waiters fun hp => hc.waiters ▸ countP_pos hw hp
    have := hc.waiters
    show c₁.events.waiters = _
    omega

theorem Passes.countP (h : Passes start c n next c') {p : Worker τ ξ → Bool}
    (hp : ∀ (d : List τ) (n' : Notice) (errand : Errand τ),
      p ⟨d, .notifying n' errand⟩ = p ⟨d, .notifying n errand⟩)
    (hp' : ∀ (d : List τ) (errand : Errand τ),
      p ⟨d, afterNotice start errand⟩ = p ⟨d, .notifying n errand⟩) :
    c'.workers.countP p = c.workers.countP p := by
  cases h with
  | next | last => rfl
  | nextOf hw n' => exact countP_setIfInBounds_of_eq p hw _ (hp ..)
  | lastOf hw => exact countP_setIfInBounds_of_eq p hw _ (hp' ..)

/-- Nothing but the notification changes, and the worker that makes it. -/
theorem Passes.rest (h : Passes start c n next c') : c'.injector = c.injector ∧
    c'.actives = c.actives ∧ c'.thieves = c.thieves ∧ c'.events = c.events ∧
      c'.isStopped = c.isStopped := by
  cases h <;> exact ⟨rfl, rfl, rfl, rfl, rfl⟩

theorem Counted.passes (hc : c.Counted) (h : Passes start c n next c') : c'.Counted := by
  obtain ⟨-, hactives, hthieves, hevents, -⟩ := h.rest
  constructor
  · rw [hthieves, hc.thieves]
    refine (h.countP (fun _ _ errand => ?_) fun _ errand => ?_).symm <;> cases errand <;> rfl
  · rw [hactives, hc.actives]
    refine (h.countP (fun _ _ errand => ?_) fun _ errand => ?_).symm <;> cases errand <;> rfl
  · rw [hevents, hc.waiters]
    refine (h.countP (fun _ _ errand => rfl) fun _ errand => ?_).symm
    cases errand <;> rfl

/-! ### Workers -/

/-- The worker that makes a notification is at its next step, or goes on; the others are the
same. -/
theorem Passes.worker (h : Passes start c n next c') (hj : c'.workers[j]? = some u) :
    c.workers[j]? = some u ∨ ∃ errand, c.workers[j]? = some ⟨u.deque, .notifying n errand⟩ ∧
      (u.stage = afterNotice start errand ∨
        ∃ n', next = some n' ∧ u.stage = .notifying n' errand) := by
  cases h with
  | next | last => exact Or.inl hj
  | nextOf hw n' =>
    rcases worker_of_put hj with ⟨rfl, rfl⟩ | hj
    · exact Or.inr ⟨_, hw, Or.inr ⟨n', rfl, rfl⟩⟩
    · exact Or.inl hj
  | lastOf hw =>
    rcases worker_of_put hj with ⟨rfl, rfl⟩ | hj
    · exact Or.inr ⟨_, hw, Or.inl rfl⟩
    · exact Or.inl hj

/-- A worker that holds a ticket was the same before. -/
theorem Passes.ticketed (h : Passes start c n next c') (hj : c'.workers[j]? = some u)
    {ticket : Nat} (ht : u.stage.ticket? = some ticket) : c.workers[j]? = some u := by
  rcases h.worker hj with hj | ⟨errand, -, hs | ⟨n', -, hs⟩⟩
  · exact hj
  · rw [hs] at ht
    cases errand <;> cases ht
  · rw [hs] at ht
    cases ht

/-- A worker that does not make the notification stays the same. -/
theorem Passes.keeps (h : Passes start c n next c') (hj : c.workers[j]? = some u)
    (hu : ∀ errand, u.stage ≠ .notifying n errand) : c'.workers[j]? = some u := by
  have hput : ∀ {i : Nat} {d : List τ} {errand : Errand τ} {v : Worker τ ξ},
      c.workers[i]? = some ⟨d, .notifying n errand⟩ → (c.put i v).workers[j]? = some u := by
    intro i d errand v hw
    refine (getElem?_put_ne ?_).trans hj
    rintro rfl
    obtain rfl := Option.some.inj (hj.symm.trans hw)
    exact hu errand rfl
  cases h with
  | next | last => exact hj
  | nextOf hw | lastOf hw => exact hput hw

theorem Passes.pending_next {n' : Notice} (h : Passes start c n (some n') c') : c'.Pending n' := by
  cases h with
  | next hk n' => exact Or.inl (List.mem_set (List.getElem?_eq_some_iff.mp hk).1 n')
  | nextOf hw n' => exact Or.inr ⟨_, _, _, getElem?_put_self hw, rfl⟩

theorem Passes.pending {m : Notice} (h : Passes start c n next c') (hm : c.Pending m)
    (hne : m ≠ n) : c'.Pending m := by
  rcases hm with hm | ⟨j, u, errand, hj, hu⟩
  · refine Or.inl ?_
    obtain ⟨l, hl⟩ := List.mem_iff_getElem?.mp hm
    cases h with
    | @next k hk n' =>
      refine List.mem_iff_getElem?.mpr ⟨l, ?_⟩
      rw [List.getElem?_set_ne, hl]
      rintro rfl
      exact hne (Option.some.inj (hl.symm.trans hk))
    | @last k hk =>
      refine List.mem_eraseIdx_iff_getElem?.mpr ⟨l, ?_, hl⟩
      rintro rfl
      exact hne (Option.some.inj (hl.symm.trans hk))
    | nextOf | lastOf => exact hm
  · have hu' : ∀ errand, u.stage ≠ .notifying n errand := by
      intro e he
      rw [he] at hu
      injection hu with hu
      exact hne hu.symm
    exact Or.inr ⟨j, u, errand, h.keeps hj hu', hu⟩

theorem check_cases (e : EventCount) (ticket : Nat) :
    (ticket = e.epoch ∧ Parking.check e ticket = .asleep ticket) ∨
      ticket ≠ e.epoch ∧ Parking.check e ticket = .departing := by
  rw [Parking.check]
  split
  · next h => exact Or.inl ⟨h.symm, rfl⟩
  · next h => exact Or.inr ⟨Ne.symm h, rfl⟩

namespace Turn

theorem stays (h : Turn start c w c₁ w') (hc : c.isStopped = false) (hs : w.stage.Stays) :
    w'.stage.Stays := by
  cases h with
  | quit | leaveOff => exact hs.elim
  | heed d ticket hstop => cases hstop.symm.trans hc
  | withdraw d why hwhy =>
    cases why with
    | quit => exact hs
    | grab | rejoin => trivial
  | handOver | call => exact rfl
  | _ => trivial

/-- Who may have tasks in its deque goes on with them. -/
theorem idle (h : Turn start c w c₁ w') (hd : w.stage.isLaden = false → w.deque = [])
    (hs : w'.stage.isLaden = false) : w'.deque = [] := by
  cases h with
  | take | steal | grab | handOver | keep | activateFirst | activate | call | begin => cases hs
  | busy | finish | pop => cases hs
  | drain => rfl
  | _ => exact hd rfl

theorem ticket (h : Turn start c w c₁ w') {ticket : Nat}
    (ht : w'.stage.ticket? = some ticket) :
    w.stage.ticket? = some ticket ∨ ticket = c.events.epoch := by
  cases h with
  | takeTicket => exact Or.inr (Option.some.inj ht).symm
  | withdraw d why => cases why <;> cases ht
  | check d t | recheck d t =>
    rcases check_cases c.events t with ⟨-, hp⟩ | ⟨-, hp⟩ <;> rw [hp] at ht
    · exact Or.inl ht
    · cases ht
  | resolve | carryOn | leaveLast | leave | settle | stir => exact Or.inl ht
  | _ => cases ht

/-- Who becomes resolute has seen that the injector is empty. -/
theorem resolute (h : Turn start c w c₁ w') {ticket : Nat}
    (ht : w'.stage.resolute? = some ticket) :
    w.stage.resolute? = some ticket ∨ c.injector = [] := by
  cases h with
  | resolve d t hinj => exact Or.inr hinj
  | withdraw d why => cases why <;> cases ht
  | check d t | recheck d t =>
    rcases check_cases c.events t with ⟨-, hp⟩ | ⟨-, hp⟩ <;> rw [hp] at ht
    · exact Or.inl ht
    · cases ht
  | carryOn | leaveLast | leave | settle | stir => exact Or.inl ht
  | _ => cases ht

theorem quiet (h : Turn start c w c₁ w') (n : Notice) (errand : Errand τ) :
    w.stage ≠ .notifying n errand := by
  cases h <;> exact nofun

theorem injector (h : Turn start c w c₁ w') (hinj : c.injector = []) : c₁.injector = [] := by
  cases h with
  | take d more hc | grab d hc => rw [hinj] at hc; cases hc
  | _ => exact hinj

end Turn

/-! ### The watch -/

/-- **Somebody keeps watch.** -/
inductive Alert (c : Crew τ ξ) : Prop where
  | stirs {i : Nat} {w : Worker τ ξ} (hw : c.workers[i]? = some w)
      (h : w.stage.Stirs c.events.epoch)
  | bumps {all : Bool} (h : c.Pending (.bumping all))
  /-- A notification is under way that is for everybody who parks. -/
  | reaches {n : Notice} (hn : c.Pending n)
      (h : ∀ {i : Nat} {w : Worker τ ξ} {ticket : Nat}, c.workers[i]? = some w →
        w.stage.parked? = some ticket → ticket ≠ c.events.epoch)

/-- Somebody keeps watch if there is work for which somebody might be needed that parks. -/
def Watched (c : Crew τ ξ) : Prop :=
  c.injector ≠ [] ∨ 0 < c.actives → ∀ {i : Nat} {w : Worker τ ξ} {ticket : Nat},
    c.workers[i]? = some w → w.stage.parked? = some ticket → c.Alert

/-- **What holds of a crew between two small changes.** -/
structure Sound (c : Crew τ ξ) : Prop where
  steady : c.Steady
  counted : c.Counted
  idle : ∀ {i : Nat} {w : Worker τ ξ}, c.workers[i]? = some w → w.stage.isLaden = false →
    w.deque = []
  ticket_le : ∀ {i : Nat} {w : Worker τ ξ} {ticket : Nat}, c.workers[i]? = some w →
    w.stage.ticket? = some ticket → ticket ≤ c.events.epoch
  /-- Who is about to sleep has seen the last of the injector, unless he will be told. -/
  told : ∀ {i : Nat} {w : Worker τ ξ}, c.workers[i]? = some w →
    w.stage.resolute? = some c.events.epoch → c.injector = [] ∨ ∃ all, c.Pending (.bumping all)
  watched : c.Watched

theorem sound_new (n : Nat) : (Crew.new n : Crew τ ξ).Sound := by
  have hnew : ∀ {i : Nat} {w : Worker τ ξ}, (Crew.new n : Crew τ ξ).workers[i]? = some w →
      w = {} := by
    intro i w hw
    have := Array.mem_of_getElem? hw
    rw [Crew.new, Array.mem_replicate] at this
    exact this.2
  constructor
  · refine ⟨rfl, fun hw => ?_, nofun⟩
    rw [hnew hw]
    trivial
  · constructor <;> simp [Crew.new, Array.countP_replicate, WorkerStage.isThief,
      WorkerStage.isActive, WorkerStage.isRegistered]
  · intro i w hw _
    rw [hnew hw]
  · intro i w ticket hw ht
    rw [hnew hw] at ht
    cases ht
  · exact fun _ _ => Or.inl rfl
  · intro _ i w ticket hw ht
    rw [hnew hw] at ht
    cases ht

/-! ### A worker takes a turn -/

/-- A worker that is not at a notification, or stays at it, leaves the notifications alone. -/
theorem Pending.put (hn : c.Pending n) (hws : c₁.workers = c.workers)
    (hno : c₁.notices = c.notices) (hw : c.workers[i]? = some w)
    (hq : ∀ errand, w.stage = .notifying n errand → w'.stage = w.stage) :
    (c₁.put i w').Pending n := by
  rcases hn with hn | ⟨j, u, errand, hj, hu⟩
  · exact Or.inl (hno.symm ▸ hn)
  · have hw₁ : c₁.workers[i]? = some w := hws.symm ▸ hw
    have hj₁ : c₁.workers[j]? = some u := hws.symm ▸ hj
    by_cases hji : j = i
    · subst hji
      obtain rfl := Option.some.inj (hw.symm.trans hj)
      exact Or.inr ⟨j, w', errand, getElem?_put_self hw₁, (hq errand hu).trans hu⟩
    · exact Or.inr ⟨j, u, errand, (getElem?_put_ne hji).trans hj₁, hu⟩

/-- **How a turn leaves the watch**: the worker keeps it, or calls somebody, or leaves it to a
thief; it is the last thief, and parks as nobody is active; or nothing changes about it. -/
inductive Upshot (c : Crew τ ξ) (w : Worker τ ξ) (c₁ : Crew τ ξ) (w' : Worker τ ξ) : Prop where
  | stirs (h : w'.stage.Stirs c₁.events.epoch)
  | calls {errand : Errand τ} (h : w'.stage = .notifying (.bumping false) errand)
  | leaves (h : c₁.thieves ≠ 0)
  | parks {ticket : Nat} (hw : w.stage.resolute? = some ticket)
      (hw' : w'.stage = .parking (.checking ticket)) (ha : c₁.actives = 0)
      (hi : c₁.injector = c.injector)
  | same (hs : w.stage.Stirs c.events.epoch → w'.stage.Stirs c.events.epoch)
      (hp : w'.stage.parked? = w.stage.parked?) (ha : 0 < c₁.actives → 0 < c.actives)
      (hi : c₁.injector = c.injector)

theorem Turn.upshot (h : Turn start c w c₁ w') (hs : w.stage.Stays)
    (hpos : w.stage.isThief = true → 0 < c.thieves) : Upshot c w c₁ w' := by
  cases h with
  | quit | leaveOff => exact hs.elim
  | leave d ticket hne | keep d task hne =>
    have := hpos rfl
    exact .leaves (by show c.thieves - 1 ≠ 0; omega)
  | handOver | call => exact .calls rfl
  | begin d task hne => exact .leaves hne
  | settle d ticket ha => exact .parks rfl rfl ha rfl
  | check d ticket | recheck d ticket =>
    rcases check_cases c.events ticket with ⟨ht, hp⟩ | ⟨-, hp⟩ <;> rw [hp]
    · exact .same (fun hs => absurd ht hs) rfl id rfl
    · exact .stirs trivial
  | stir d ticket => exact .same nofun rfl id rfl
  | activate d task ha => exact .same nofun rfl (fun _ => Nat.pos_of_ne_zero ha) rfl
  | busy | finish | pop | drain => exact .same nofun rfl id rfl
  | withdraw d why hwhy =>
    cases why with
    | quit => exact absurd rfl hwhy
    | grab => exact .stirs rfl
    | rejoin => exact .stirs trivial
  | join | take | steal | giveUp | register | takeTicket | resolve | grab | miss | carryOn =>
    exact .stirs rfl
  | reconsider | heed | leaveLast | rejoin | depart | activateFirst | retire =>
    exact .stirs trivial

/-- The watch goes on over a change of one worker that leaves it alone. -/
theorem Watched.put (h : c.Watched) (hw : c.workers[i]? = some w)
    (hws : c₁.workers = c.workers) (he : c₁.events.epoch = c.events.epoch)
    (hpending : ∀ {n : Notice}, c.Pending n → (c₁.put i w').Pending n)
    (hs : w.stage.Stirs c.events.epoch → w'.stage.Stirs c.events.epoch)
    (hp : w'.stage.parked? = w.stage.parked?) (ha : 0 < c₁.actives → 0 < c.actives)
    (hi : c₁.injector = c.injector) : (c₁.put i w').Watched := by
  have hw₁ : c₁.workers[i]? = some w := hws.symm ▸ hw
  -- whoever parks has parked before
  have hback : ∀ {j : Nat} {u : Worker τ ξ} {ticket : Nat},
      (c₁.put i w').workers[j]? = some u → u.stage.parked? = some ticket →
        ∃ v, c.workers[j]? = some v ∧ v.stage.parked? = some ticket := by
    intro j u ticket hj hu
    rcases worker_of_put hj with ⟨rfl, rfl⟩ | hj
    · exact ⟨w, hw, hp ▸ hu⟩
    · exact ⟨u, hws ▸ hj, hu⟩
  intro hwork j u ticket hj hu
  obtain ⟨v, hv, hvt⟩ := hback hj hu
  cases h (hwork.imp (fun hne => hi ▸ hne) ha) hv hvt with
  | @stirs k x hk hx =>
    by_cases hki : k = i
    · subst hki
      obtain rfl := Option.some.inj (hw.symm.trans hk)
      exact .stirs (getElem?_put_self hw₁) (he.symm ▸ hs hx)
    · exact .stirs ((getElem?_put_ne hki).trans (hws.symm ▸ hk)) (he.symm ▸ hx)
  | bumps hb => exact .bumps (hpending hb)
  | reaches hn hlate =>
    refine .reaches (hpending hn) fun hj hu => ?_
    obtain ⟨v, hv, hvt⟩ := hback hj hu
    exact he.symm ▸ hlate hv hvt

/-- A turn leaves the notifications alone. -/
theorem Turn.pending (ht : Turn start c w c₁ w') (hw : c.workers[i]? = some w)
    (hn : c.Pending n) : (c₁.put i w').Pending n :=
  hn.put ht.workers ht.rest.2.1 hw fun errand he => absurd he (ht.quiet _ errand)

/-- The watch goes on in a turn, in which the worker itself may take it over. -/
theorem Sound.watched_turn (h : c.Sound) (hw : c.workers[i]? = some w)
    (ht : Turn start c w c₁ w') : (c₁.put i w').Watched := by
  have hepoch := ht.rest.1
  have hw₁ : c₁.workers[i]? = some w := ht.workers.symm ▸ hw
  cases ht.upshot (h.steady.stays hw) fun hp => h.counted.thieves ▸ countP_pos hw hp with
  | stirs hs => exact fun _ _ _ _ _ _ => .stirs (getElem?_put_self hw₁) hs
  | calls hs => exact fun _ _ _ _ _ _ => .bumps (Or.inr ⟨i, w', _, getElem?_put_self hw₁, hs⟩)
  | leaves hne =>
    intro _ _ _ _ _ _
    have hpos : 0 < (c₁.put i w').workers.countP (·.stage.isThief) :=
      (h.counted.turn hw ht).thieves ▸ Nat.pos_of_ne_zero hne
    obtain ⟨v, hv, hthief⟩ := Array.countP_pos_iff.mp hpos
    obtain ⟨k, hk⟩ := Array.mem_iff_getElem?.mp hv
    exact .stirs hk (WorkerStage.stirs_of_isThief hthief)
  | @parks ticket hres hs ha hi =>
    intro hwork _ _ _ _ _
    by_cases hlate : ticket = c.events.epoch
    · have hinj : c.injector ≠ [] := by
        rcases hwork with hinj | hact
        · exact hi ▸ hinj
        · exact absurd ha (Nat.ne_of_gt hact)
      obtain ⟨all, hb⟩ := (h.told hw (hlate ▸ hres)).resolve_left hinj
      exact .bumps (ht.pending hw hb)
    · refine .stirs (getElem?_put_self hw₁) ?_
      rw [hs]
      show ticket ≠ c₁.events.epoch
      rw [hepoch]
      exact hlate
  | same hs hp ha hi => exact h.watched.put hw ht.workers hepoch (ht.pending hw) hs hp ha hi

theorem Sound.turn (h : c.Sound) (hw : c.workers[i]? = some w) (ht : Turn start c w c₁ w') :
    (c₁.put i w').Sound := by
  obtain ⟨hepoch, hnotices, hstopped⟩ := ht.rest
  have hback : ∀ {j : Nat} {u : Worker τ ξ}, (c₁.put i w').workers[j]? = some u →
      j = i ∧ u = w' ∨ c.workers[j]? = some u :=
    fun hj => ht.workers ▸ worker_of_put hj
  refine {
    steady := ⟨hstopped.trans h.steady.going, fun hj => ?_, fun n hn => ?_⟩
    counted := h.counted.turn hw ht
    idle := fun hj hs => ?_
    ticket_le := fun {j u ticket} hj hu => ?_
    told := fun {j u} hj hu => ?_
    watched := h.watched_turn hw ht }
  · rcases hback hj with ⟨rfl, rfl⟩ | hj
    · exact ht.stays h.steady.going (h.steady.stays hw)
    · exact h.steady.stays hj
  · exact h.steady.toOne n (hnotices ▸ hn)
  · rcases hback hj with ⟨rfl, rfl⟩ | hj
    · exact ht.idle (h.idle hw) hs
    · exact h.idle hj hs
  · show ticket ≤ c₁.events.epoch
    rw [hepoch]
    rcases hback hj with ⟨rfl, rfl⟩ | hj
    · rcases ht.ticket hu with hu | rfl
      · exact h.ticket_le hw hu
      · exact Nat.le_refl _
    · exact h.ticket_le hj hu
  · have hres : u.stage.resolute? = some c.events.epoch := hepoch ▸ hu
    have hold : c.injector = [] ∨ ∃ all, c.Pending (.bumping all) := by
      rcases hback hj with ⟨rfl, rfl⟩ | hj
      · rcases ht.resolute hres with hres | hinj
        · exact h.told hw hres
        · exact Or.inl hinj
      · exact h.told hj hres
    exact hold.imp ht.injector fun ⟨all, hb⟩ => ⟨all, ht.pending hw hb⟩

/-! ### The queues change -/

theorem Sound.lose {d : List τ} {s : WorkerStage τ ξ} (h : c.Sound)
    (hw : c.workers[i]? = some ⟨d, s⟩) : (c.put i ⟨d.dropLast, s⟩).Sound := by
  have hback : ∀ {j : Nat} {u : Worker τ ξ}, (c.put i ⟨d.dropLast, s⟩).workers[j]? = some u →
      ∃ v, c.workers[j]? = some v ∧ v.stage = u.stage ∧ (v.deque = [] → u.deque = []) := by
    intro j u hj
    rcases worker_of_put hj with ⟨rfl, rfl⟩ | hj
    · refine ⟨⟨d, s⟩, hw, rfl, fun hd => ?_⟩
      obtain rfl : d = [] := hd
      rfl
    · exact ⟨u, hj, rfl, id⟩
  have hpending : ∀ {n : Notice}, c.Pending n → (c.put i ⟨d.dropLast, s⟩).Pending n :=
    fun hn => hn.put rfl rfl hw fun _ _ => rfl
  have hcount : ∀ p : WorkerStage τ ξ → Bool,
      c.workers.countP (p ·.stage) = (c.put i ⟨d.dropLast, s⟩).workers.countP (p ·.stage) :=
    fun p => (countP_setIfInBounds_of_eq (p ·.stage) hw ⟨d.dropLast, s⟩ rfl).symm
  refine {
    steady := ⟨h.steady.going, fun hj => ?_, h.steady.toOne⟩
    counted := ⟨h.counted.thieves.trans (hcount _), h.counted.actives.trans (hcount _),
      h.counted.waiters.trans (hcount _)⟩
    idle := fun hj hs => ?_
    ticket_le := fun hj ht => ?_
    told := fun hj ht => ?_
    watched := h.watched.put hw rfl rfl hpending id rfl id rfl }
  · obtain ⟨v, hv, hvs, -⟩ := hback hj
    exact hvs ▸ h.steady.stays hv
  · obtain ⟨v, hv, hvs, hvd⟩ := hback hj
    exact hvd (h.idle hv (hvs ▸ hs))
  · obtain ⟨v, hv, hvs, -⟩ := hback hj
    exact h.ticket_le hv (hvs ▸ ht)
  · obtain ⟨v, hv, hvs, -⟩ := hback hj
    exact (h.told hv (hvs ▸ ht)).imp_right fun ⟨all, hb⟩ => ⟨all, hpending hb⟩

theorem Sound.submit (h : c.Sound) (task : τ) : (c.inject [task]).Sound := by
  have hbump : (c.inject [task]).Pending (.bumping false) :=
    Or.inl (List.mem_append_right _ (List.mem_singleton_self _))
  refine {
    steady := ⟨h.steady.going, h.steady.stays, fun n hn => ?_⟩
    counted := ⟨h.counted.thieves, h.counted.actives, h.counted.waiters⟩
    idle := h.idle
    ticket_le := h.ticket_le
    told := fun _ _ => Or.inr ⟨false, hbump⟩
    watched := fun _ _ _ _ _ _ => .bumps hbump }
  rcases List.mem_append.mp hn with hn | hn
  · exact h.steady.toOne n hn
  · obtain rfl := List.mem_singleton.mp hn
    rfl

/-! ### A notification passes -/

theorem Steady.passes (hc : c.Steady) (h : Passes start c n next c')
    (hnext : ∀ n' ∈ next, n'.toAll = n.toAll) : c'.Steady where
  going := h.rest.2.2.2.2.trans hc.going
  stays := by
    intro j u hj
    rcases h.worker hj with hj | ⟨errand, hj, hs⟩
    · exact hc.stays hj
    · have hstays := hc.stays hj
      cases errand with
      | quit => exact hstays.elim
      | work | activate =>
        rcases hs with hs | ⟨n', hn', hs⟩ <;> rw [hs]
        · trivial
        · exact (hnext n' hn').trans hstays
  toOne := by
    intro m hm
    cases h with
    | @next k hk n' =>
      rcases List.mem_or_eq_of_mem_set hm with hm | rfl
      · exact hc.toOne m hm
      · exact (hnext m rfl).trans (hc.toOne n (List.mem_of_getElem? hk))
    | last hk => exact hc.toOne m (List.mem_of_mem_eraseIdx hm)
    | nextOf | lastOf => exact hc.toOne m hm

theorem Passes.idle (h : Passes start c n next c') (hc : c.Steady)
    (hidle : ∀ {i : Nat} {w : Worker τ ξ}, c.workers[i]? = some w → w.stage.isLaden = false →
      w.deque = []) (hj : c'.workers[j]? = some u) (hs : u.stage.isLaden = false) :
    u.deque = [] := by
  rcases h.worker hj with hj | ⟨errand, hj, hs'⟩
  · exact hidle hj hs
  · cases errand with
    | quit => exact (hc.stays hj).elim
    | work | activate => rcases hs' with hs' | ⟨n', -, hs'⟩ <;> rw [hs'] at hs <;> cases hs

/-- The watch goes on while a notification passes that does not advance the epoch, if it does
when the notification is for everybody who parks. -/
theorem Sound.passes (h : c.Sound) (hp : Passes start c n next c') (hn : ∀ all, n ≠ .bumping all)
    (hnext : ∀ n' ∈ next, n'.toAll = n.toAll)
    (hreach : ∀ {i : Nat} {w : Worker τ ξ} {ticket : Nat}, c.workers[i]? = some w →
      w.stage.parked? = some ticket →
      (∀ {i : Nat} {w : Worker τ ξ} {ticket : Nat}, c.workers[i]? = some w →
        w.stage.parked? = some ticket → ticket ≠ c.events.epoch) → c'.Alert) : c'.Sound := by
  obtain ⟨hinjector, hactives, -, hevents, -⟩ := hp.rest
  refine {
    steady := h.steady.passes hp hnext
    counted := h.counted.passes hp
    idle := hp.idle h.steady h.idle
    ticket_le := fun hj ht => hevents.symm ▸ h.ticket_le (hp.ticketed hj ht) ht
    told := fun hj ht => ?_
    watched := fun hwork j u ticket hj hu => ?_ }
  · rw [hevents] at ht
    have hj := hp.ticketed hj (WorkerStage.ticket?_of_resolute ht)
    exact (h.told hj ht).imp (hinjector ▸ id)
      fun ⟨all, hb⟩ => ⟨all, hp.pending hb (hn all).symm⟩
  · have hj := hp.ticketed hj (WorkerStage.ticket?_of_resolute (WorkerStage.resolute?_of_parked hu))
    cases h.watched (hwork.imp (fun hne => hinjector ▸ hne) fun ha => hactives ▸ ha) hj hu with
    | @stirs k x hk hx =>
      refine .stirs (hp.keeps hk fun errand he => ?_) (hevents.symm ▸ hx)
      have hstays := h.steady.stays hk
      rw [he] at hx hstays
      cases errand with
      | quit => exact hstays
      | work | activate => cases hx
    | bumps hb => exact .bumps (hp.pending hb (hn _).symm)
    | reaches _ hlate => exact hreach hj hu hlate

theorem Sound.look {all : Bool} (h : c.Sound)
    (hp : Passes start c (.looking all) (some (.signalling all)) c') : c'.Sound := by
  refine h.passes hp nofun ?_ fun _ _ hlate => .reaches hp.pending_next fun hj hu => ?_
  · rintro n' ⟨⟩
    rfl
  · rw [hp.rest.2.2.2.1]
    exact hlate (hp.ticketed hj (WorkerStage.ticket?_of_resolute
      (WorkerStage.resolute?_of_parked hu))) hu

/-- When a notification is over, nobody parks any more, or one of those who do stirs. -/
theorem Sound.answered (h : c.Sound) (hn : ∀ all, n ≠ .bumping all) (ha : c.Answered)
    (hp : Passes start c n none c') : c'.Sound := by
  refine h.passes hp hn nofun fun {i w ticket} hw ht hlate => ?_
  have hstirs : ∀ {j : Nat} {u : Worker τ ξ} {ticket : Nat}, c.workers[j]? = some u →
      u.stage.parked? = some ticket → u.stage.isAsleep = false → c'.Alert := by
    intro j u ticket hj hu hawake
    refine .stirs (hp.keeps hj fun errand he => ?_) ?_
    · rw [he] at hu
      cases hu
    · rw [hp.rest.2.2.2.1]
      exact WorkerStage.stirs_of_parked hu (hlate hj hu) hawake
  rcases ha with hzero | hnone | ⟨j, u, t, hj, hu⟩
  · have := countP_pos (p := (·.stage.isRegistered)) hw (WorkerStage.isRegistered_of_parked ht)
    rw [← h.counted.waiters, hzero] at this
    exact absurd this (Nat.lt_irrefl 0)
  · exact hstirs hw ht (hnone hw)
  · have hparked : u.stage.parked? = some t := hu ▸ rfl
    exact hstirs hj hparked (hu ▸ rfl)

/-- Once the epoch has advanced, everybody who parks has a ticket from before. -/
theorem Sound.bump {all : Bool} (h : c.Sound)
    (hp : Passes start { c with events := c.events.bump } (.bumping all) (some (.looking all)) c') :
    c'.Sound := by
  have hevents : c'.events = c.events.bump := hp.rest.2.2.2.1
  have hsteady : Steady { c with events := c.events.bump } :=
    ⟨h.steady.going, h.steady.stays, h.steady.toOne⟩
  have hcounted : Counted { c with events := c.events.bump } :=
    ⟨h.counted.thieves, h.counted.actives, h.counted.waiters⟩
  have hle : ∀ {j : Nat} {u : Worker τ ξ} {ticket : Nat}, c'.workers[j]? = some u →
      u.stage.ticket? = some ticket → ticket ≤ c.events.epoch :=
    fun hj hu => h.ticket_le (hp.ticketed hj hu) hu
  have hlate : ∀ {j : Nat} {u : Worker τ ξ} {ticket : Nat}, c'.workers[j]? = some u →
      u.stage.resolute? = some ticket → ticket ≠ c'.events.epoch := by
    intro j u ticket hj hu
    have := hle hj (WorkerStage.ticket?_of_resolute hu)
    rw [hevents]
    exact Nat.ne_of_lt (Nat.lt_succ_of_le this)
  refine {
    steady := hsteady.passes hp ?_
    counted := hcounted.passes hp
    idle := hp.idle hsteady h.idle
    ticket_le := fun hj hu => hevents ▸ Nat.le_succ_of_le (hle hj hu)
    told := fun hj hu => absurd rfl (hlate hj hu)
    watched := fun _ _ _ _ _ _ => .reaches hp.pending_next fun hj hu =>
      hlate hj (WorkerStage.resolute?_of_parked hu) }
  rintro n' ⟨⟩
  rfl

/-! ### Whatever a crew comes to -/

theorem Sound.shift (h : c.Sound) (hs : Shift start c c') : c'.Sound := by
  cases hs with
  | turn hw ht => exact h.turn hw ht
  | lose hw => exact h.lose hw
  | submit task => exact h.submit task
  | bump hp => exact h.bump hp
  | look hp => exact h.look hp
  | answered hn ha hp => exact h.answered hn ha hp

theorem Sound.step (h : c.Sound) (hs : Step start c c') : c'.Sound := by
  have hshifts := hs.shifts h.steady
  clear hs
  induction hshifts with
  | refl => exact h
  | tail _ hs ih => exact ih.shift hs

theorem Reachable.sound {n : Nat} (h : Reachable start n c) : c.Sound := by
  induction h with
  | refl => exact sound_new n
  | tail _ hs ih => exact ih.step hs

/-- **Work is left lying**: a task waits in a queue and a worker sleeps, while every other
worker sleeps as well or executes a task, and no notification is under way. -/
structure Stranded (c : Crew τ ξ) : Prop where
  task : c.injector ≠ [] ∨ ∃ w ∈ c.workers, w.deque ≠ []
  sleeper : ∃ w ∈ c.workers, w.isAsleep = true
  rest : ∀ w ∈ c.workers, w.isAsleep = true ∨ ∃ x, w.execution? = some x
  quiet : c.notices = []

/-- Nobody keeps watch who sleeps or executes a task. -/
theorem not_alert (hrest : ∀ w ∈ c.workers, w.isAsleep = true ∨ ∃ x, w.execution? = some x)
    (hquiet : c.notices = []) : ¬ c.Alert := by
  have hstage : ∀ {i : Nat} {w : Worker τ ξ}, c.workers[i]? = some w →
      (∃ ticket, w.stage = .parking (.asleep ticket)) ∨ ∃ x, w.stage = .running x := by
    intro i w hw
    refine (hrest w (Array.mem_of_getElem? hw)).imp WorkerStage.isAsleep_iff.mp ?_
    rintro ⟨x, hx⟩
    obtain ⟨d, s⟩ := w
    cases s with
    | running y => exact ⟨y, rfl⟩
    | _ => cases hx
  have hpending : ∀ n, ¬ c.Pending n := by
    rintro n (hn | ⟨i, w, errand, hw, hs⟩)
    · rw [hquiet] at hn
      cases hn
    · rcases hstage hw with ⟨_, hs'⟩ | ⟨_, hs'⟩ <;> rw [hs] at hs' <;> cases hs'
  rintro (⟨hw, hs⟩ | hb | ⟨hn, -⟩)
  · rcases hstage hw with ⟨_, hs'⟩ | ⟨_, hs'⟩ <;> rw [hs'] at hs <;> cases hs
  · exact hpending _ hb
  · exact hpending _ hn

/-- **No work is left lying**, and no worker sleeps on tasks of its own. -/
theorem Reachable.not_stranded {n : Nat} (h : Reachable start n c) :
    ¬ c.Stranded ∧ ∀ w ∈ c.workers, w.isAsleep = true → w.deque = [] := by
  have hsound := h.sound
  have hidle : ∀ w ∈ c.workers, w.isAsleep = true → w.deque = [] := by
    intro w hw hasleep
    obtain ⟨i, hi⟩ := Array.mem_iff_getElem?.mp hw
    obtain ⟨ticket, hs⟩ := WorkerStage.isAsleep_iff.mp hasleep
    exact hsound.idle hi (hs ▸ rfl)
  refine ⟨fun hc => not_alert hc.rest hc.quiet ?_, hidle⟩
  obtain ⟨w, hw, hasleep⟩ := hc.sleeper
  obtain ⟨i, hi⟩ := Array.mem_iff_getElem?.mp hw
  obtain ⟨ticket, hs⟩ := WorkerStage.isAsleep_iff.mp hasleep
  have hparked : w.stage.parked? = some ticket := hs ▸ rfl
  refine hsound.watched ?_ hi hparked
  -- whoever has tasks in its deque executes one
  refine hc.task.imp_right fun ⟨v, hv, hd⟩ => ?_
  obtain ⟨x, hx⟩ := (hc.rest v hv).resolve_left fun hv' => hd (hidle v hv hv')
  obtain ⟨k, hk⟩ := Array.mem_iff_getElem?.mp hv
  rw [hsound.counted.actives]
  refine countP_pos hk ?_
  obtain ⟨d, s⟩ := v
  cases s with
  | running => rfl
  | _ => cases hx

/-- One of two workers sleeps when a task is submitted. -/
theorem not_stranded_of_two : ∃ c : Crew Nat Nat, Reachable id 2 c ∧ c.injector = [7] ∧
    c.workers = #[⟨[], .joining⟩, ⟨[], .parking (.asleep 0)⟩] ∧
    ¬ c.Stranded ∧ ∀ w ∈ c.workers, w.isAsleep = true → w.deque = [] := by
  have hslept : Reachable id 2 (⟨[], #[⟨[], .joining⟩, ⟨[], .parking (.asleep 0)⟩], 0, 0, ⟨0, 1⟩,
      [], false⟩ : Crew Nat Nat) :=
    Reachable.run .refl [(1, .go), (1, .giveUp), (1, .go), (1, .go), (1, .go), (1, .go), (1, .go),
      (1, .go), (1, .go)] rfl
  have hc : Reachable id 2 _ := hslept.tail (.submit 7)
  exact ⟨_, hc, rfl, rfl, hc.not_stranded⟩

end Crew

end Dataflow
