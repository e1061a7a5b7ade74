import Mathlib.Logic.Relation
import Dataflow.Proofs.Pool.Traffic
import Dataflow.Proofs.Pool.Wakeups

/-!
# Blocking calls

Calls that wait are where a pool could go wrong: a value could be handed out twice or get lost
between two threads, a thread could sleep although there is something for it, or nobody could
tell it that the pool was closed. `Monitor.Recorded.lossless` says that none of this
happens, whatever calls any number of threads make under any schedule.

What is new here is what becomes of those who wait when the pool is closed, and who is counted
as having waited. At a closed pool nobody falls asleep any more, so a producer who sleeps
there is woken and then told, `Monitor.Dismisses`: each step brings the end nearer, and there
is a step as long as anything is under way. A call is counted when it first enters and never
again, `Monitor.Recorded.starved`.
-/

namespace Dataflow

variable {α : Type}

namespace Monitor

variable {m m' : Monitor α} {d : Condition} {i : Nat}
variable {n : Nat} {calls : List (PoolCall α)} {H : List (Passage α)}

/-! ### Closing -/

/-- A call is made, or a thread goes on. -/
def Step (m m' : Monitor α) : Prop :=
  (∃ c, m' = m.call c) ∨ ∃ i target, m.advance i target = some m'

/-- What can come of a monitor. -/
def Leads : Monitor α → Monitor α → Prop :=
  Relation.ReflTransGen Step

theorem Recorded.leads (h : Recorded n m calls H) (hm : m.Leads m') :
    ∃ calls' H', Recorded n m' calls' H' := by
  induction hm with
  | refl => exact ⟨calls, H, h⟩
  | tail _ hs ih =>
    obtain ⟨calls', H', h'⟩ := ih
    rcases hs with ⟨c, rfl⟩ | ⟨i, target, hs⟩
    · exact ⟨_, _, h'.call c⟩
    · exact ⟨_, _, h'.step hs⟩

/-- The thread waits to store the value, or has been told that the pool is closed. -/
def Barred (x : Tagged α) (t : PoolThread α) : Prop :=
  t = .asleep .notFull (.push x) ∨ t = .woken (.push x) ∨
    t.outcome? = some (.rejected ⟨.closed, x⟩)

theorem Barred.turn {x : Tagged α} {t t' : PoolThread α} (h : Barred x t)
    (ht : PoolThread.Turn t t') : Barred x t' := by
  rcases h with rfl | rfl | h
  · cases ht with
    | still => exact Or.inl rfl
    | wake => exact Or.inr (Or.inl rfl)
  · cases ht
    exact Or.inr (Or.inl rfl)
  · exact Or.inr (Or.inr (ht.outcome?.trans h))

/-- A closed pool refuses values because it is closed. -/
theorem barred_of_pass {x : Tagged α} {first : Bool} {p : Pool α} (hp : 0 < p.capacity)
    (hc : p.isClosed = true) :
    Barred x (.ofSection (.push x) ((PoolCall.push x).enter first p)) := by
  have hrefusal : p.view.refusal? = some .closed := by
    rw [Fifo.refusal?, if_neg (show p.view.capacity ≠ 0 from hp.ne'),
      if_pos (show p.view.isClosed = true from hc)]
  have hcomes := (PoolCall.push x).enter_comes first p
  generalize (PoolCall.push x).enter first p = s at hcomes
  cases hcomes with
  | stored _ hr => rw [hrefusal] at hr; cases hr
  | refused hx hr =>
    obtain rfl := Option.some.inj hx
    obtain rfl := Option.some.inj (hrefusal.symm.trans hr)
    exact Or.inr (Or.inr rfl)
  | crowded _ hr => rw [hrefusal] at hr; cases hr
  | taken hv | missed hv => cases hv
  | barren hc' | closes hc' => cases hc'

/-- **A producer who waits at a closed pool** goes on waiting, or is told so. -/
theorem barred_of_leads {x : Tagged α} (hm : m.Leads m') (hc : m.pool.isClosed = true)
    (hp : 0 < m.pool.capacity) (hi : ∃ t, m.threads[i]? = some t ∧ Barred x t) :
    m'.pool.isClosed = true ∧ ∃ t, m'.threads[i]? = some t ∧ Barred x t := by
  suffices h : m'.pool.isClosed = true ∧ 0 < m'.pool.capacity ∧
      ∃ t, m'.threads[i]? = some t ∧ Barred x t from ⟨h.1, h.2.2⟩
  induction hm with
  | refl => exact ⟨hc, hp, hi⟩
  | @tail m₁ m₂ _ hs ih =>
    obtain ⟨hc, hp, t, ht, hbar⟩ := ih
    rcases hs with ⟨c, rfl⟩ | ⟨j, target, hs⟩
    · refine ⟨hc, hp, t, ?_, hbar⟩
      rw [Monitor.call, Array.getElem?_push,
        if_neg (Nat.ne_of_lt (Array.getElem?_eq_some_iff.mp ht).1), ht]
    have hmove := move_of_advance hs
    have hlt := (Array.getElem?_eq_some_iff.mp ht).1
    have hpass : ∀ (c : PoolCall α) (first : Bool), (i = j → c = .push x) →
        (m₁.pass j c first).pool.isClosed = true ∧ 0 < (m₁.pass j c first).pool.capacity ∧
          ∃ t, (m₁.pass j c first).threads[i]? = some t ∧ Barred x t := by
      intro c first hcall
      have hcomes := c.enter_comes first m₁.pool
      refine ⟨hcomes.isClosed hc, hcomes.capacity ▸ hp, ?_⟩
      by_cases hij : i = j
      · obtain rfl := hcall hij
        subst hij
        exact ⟨_, m₁.getElem?_pass_self _ first hlt, barred_of_pass hp hc⟩
      · exact ⟨t, (m₁.getElem?_pass_ne c first hij).trans ht, hbar⟩
    generalize m₁.passage? j = P at hmove
    cases P with
    | some p =>
      cases hmove with
      | enter ht' =>
        refine hpass _ _ ?_
        rintro rfl
        obtain rfl := Option.some.inj (ht.symm.trans ht')
        rcases hbar with hbar | hbar | hbar <;> cases hbar
      | resume ht' =>
        refine hpass _ _ ?_
        rintro rfl
        obtain rfl := Option.some.inj (ht.symm.trans ht')
        rcases hbar with hbar | hbar | hbar
        · cases hbar
        · exact PoolThread.woken.inj hbar
        · cases hbar
    | none =>
      obtain ⟨u, hu, hturn⟩ := hmove.turn (Array.getElem?_eq_getElem (hmove.size_threads ▸ hlt))
      obtain rfl := Option.some.inj (ht.symm.trans hu)
      rw [hmove.pool_eq]
      exact ⟨hc, hp, _, Array.getElem?_eq_getElem _, hbar.turn hturn⟩

/-- The most steps that a thread still has before it at a closed pool. -/
def cost : PoolThread α → Nat
  | .asleep _ _ => 5
  | .entering _ => 4
  | .woken _ => 4
  | .signalling l _ => l.length + 1
  | .done _ => 0

/-- Nobody falls asleep at a closed pool. -/
theorem cost_le_of_closed {c : PoolCall α} {first : Bool} {p : Pool α} {s : Section α}
    (h : c.Comes first p s) (hc : p.isClosed = true) : cost (.ofSection c s) ≤ 3 := by
  cases h with
  | crowded _ hr => cases hc.symm.trans (open_of_full hr)
  | barren _ _ ho => cases hc.symm.trans ho
  | stored => exact Nat.le_succ 2
  | refused => exact Nat.le_add_left 1 2
  | taken => exact Nat.le_succ 2
  | missed => exact Nat.le_add_left 1 2
  | closes => exact Nat.le_refl 3

/-- **Each step of a thread at a closed pool brings the end nearer.** -/
theorem advance_lt_of_closed {target : Option Nat} (hc : m.pool.isClosed = true)
    (hs : m.advance i target = some m') : m'.total cost < m.total cost := by
  have hmove := move_of_advance hs
  generalize m.passage? i = P at hmove
  cases hmove with
  | @enter c ht =>
    have hle := cost_le_of_closed (c.enter_comes true m.pool) hc
    have hcost : cost (.entering c) = 4 := rfl
    have := m.total_pass cost ht c true
    omega
  | @resume c ht =>
    have hle := cost_le_of_closed (c.enter_comes false m.pool) hc
    have hcost : cost (.woken c) = 4 := rfl
    have := m.total_pass cost ht c false
    omega
  | @wake d c ht =>
    have := m.total_set cost ht (.woken c)
    simp only [cost] at this
    omega
  | @finish r ht =>
    have := m.total_set cost ht (.done r)
    simp only [cost, List.length_nil] at this
    omega
  | @signalAll s l r ht hall =>
    have := m.total_set cost ht (.signalling l r)
    simp only [cost, List.length_cons] at this
    have hrouse : total ⟨m.pool, m.threads.setIfInBounds i (.signalling l r)⟩
        (fun t => cost (if t.sleepsOn s.condition then t.rouse else t)) ≤
        total ⟨m.pool, m.threads.setIfInBounds i (.signalling l r)⟩ cost := by
      refine total_le _ fun t => ?_
      split
      · next hsleeps =>
        obtain ⟨c, rfl⟩ := asleep_of_sleepsOn hsleeps
        exact Nat.le_succ 4
      · exact Nat.le_refl _
    rw [total_map]
    omega
  | @signalNone s l r ht hone hnone =>
    have := m.total_set cost ht (.signalling l r)
    simp only [cost, List.length_cons] at this
    omega
  | @signalOne s l r j c ht hone hj =>
    have hij : i ≠ j := by
      rintro rfl
      rw [ht] at hj
      cases hj
    have hset := m.total_set cost ht (.signalling l r)
    have hwake := total_set { m with threads := m.threads.setIfInBounds i (.signalling l r) }
      cost ((Array.getElem?_setIfInBounds_ne hij).trans hj) (.woken c)
    simp only [cost, List.length_cons] at hset hwake
    omega

/-- While something is under way, some thread that does not sleep can go on. -/
theorem exists_advance (h : ¬ m.Settled) : ∃ (j : Nat) (t : PoolThread α) (target : Option Nat)
    (m' : Monitor α), m.threads[j]? = some t ∧ t.isAsleep = false ∧
      m.advance j target = some m' := by
  simp only [Settled, not_forall, not_not] at h
  obtain ⟨j, t, ht, hway⟩ := h
  cases t with
  | woken c => exact ⟨j, _, none, m.pass j c false, ht, rfl, by simp only [advance, ht]⟩
  | signalling l r =>
    cases l with
    | nil => cases hway
    | cons s l =>
      have hgo : ∃ target m', m.advance j target = some m' := by
        simp only [advance, ht]
        by_cases hall : s.toAll = true
        · exact ⟨none, _, if_pos hall⟩
        cases hsleeper : m.sleeper? s.condition with
        | none => exact ⟨none, _, by rw [if_neg hall]; rfl⟩
        | some k =>
          obtain ⟨hk, hsleeps, -⟩ := Array.findIdx?_eq_some_iff_getElem.mp hsleeper
          have hany : m.threads[k]?.any (·.sleepsOn s.condition) = true := by
            rw [Array.getElem?_eq_getElem hk]
            exact hsleeps
          exact ⟨some k, _, by rw [if_neg hall]; exact if_pos hany⟩
      obtain ⟨target, m', hm'⟩ := hgo
      exact ⟨j, _, target, m', ht, rfl, hm'⟩
  | entering | asleep | done => cases hway

end Monitor

/-! ### Starvation -/

/-- Whether the call waits for a slot. -/
def PoolCall.isPush : PoolCall α → Bool
  | push _ => true
  | _ => false

/-- Whether a push found the pool open and full as it entered. -/
def Passage.starves (p : Passage α) : Bool :=
  p.first && p.call.isPush && !p.pool.isClosed && p.pool.numFree == 0

/-- A pool with slots refuses a value for want of one if it is open and full. -/
theorem Pool.refusal_full_iff {p : Pool α} (hp : 0 < p.capacity) :
    p.view.refusal? = some .full ↔ p.isClosed = false ∧ p.numFree = 0 := by
  have hadd := p.numFull_add_numFree
  rw [← p.length_entries] at hadd
  have hlen : p.view.values.length = p.view.capacity ↔ p.numFree = 0 := by
    show p.entries.length = p.capacity ↔ _
    omega
  rw [Fifo.refusal?, if_neg (show p.view.capacity ≠ 0 from hp.ne'), ← hlen]
  show (if p.isClosed = true then _ else _) = _ ↔ _
  cases p.isClosed <;> simp

theorem Passage.starves_iff {p : Passage α} (hp : 0 < p.pool.capacity) : p.starves = true ↔
    p.first = true ∧ p.call.isPush = true ∧ p.pool.view.refusal? = some .full := by
  rw [Pool.refusal_full_iff hp]
  simp [starves, and_assoc]

/-- Only a push that finds the pool open and full as it enters is counted. -/
theorem Passage.starved_came (p : Passage α) (hp : 0 < p.pool.capacity) :
    p.came.pool.starved = p.pool.starved + if p.starves then 1 else 0 := by
  have hiff := starves_iff hp
  have hcomes := p.call.enter_comes p.first p.pool
  have hpush : p.call.value? = none → p.call.isPush = false := by
    cases p.call <;> simp [PoolCall.value?, PoolCall.isPush]
  rw [came]
  generalize p.call.enter p.first p.pool = s at hcomes
  cases hcomes with
  | stored _ hroom _ hs => simpa [hroom, Section.pool, hs] using hiff
  | refused hx hr hc =>
    have hno : ¬ p.starves = true := by
      rintro hst
      obtain ⟨-, hp, hf⟩ := hiff.mp hst
      rcases hc with hc | hc
      · cases hcall : p.call <;> simp_all [PoolCall.isPush, PoolCall.awaits?]
      · exact hc (Option.some.inj (hr.symm.trans hf))
    rw [if_neg hno]
    rfl
  | crowded hc hr =>
    have hst : p.starves = p.first := by
      rw [Bool.eq_iff_iff, hiff, hc]
      simp [PoolCall.isPush, hr]
    rw [hst, Section.pool]
    cases p.first <;> rfl
  | taken hv _ _ hs => simpa [hpush hv, Section.pool, hs] using hiff
  | missed hv => simpa [hpush hv, Section.pool] using hiff
  | barren hc => simpa [hc, PoolCall.isPush, Section.pool] using hiff
  | closes hc => simpa [hc, PoolCall.isPush, Section.pool, Pool.close] using hiff

namespace Monitor

variable {n : Nat} {m : Monitor α} {calls : List (PoolCall α)} {H : List (Passage α)}

/-- **Every push that has to wait is counted once**, however often it wakes. -/
theorem Recorded.starved (h : Recorded n m calls H) (hn : 0 < n) :
    m.pool.starved = (H.filter (·.starves)).length := by
  induction h with
  | start => rfl
  | call _ c ih => exact ih
  | @step m m' calls H h i target hs ih =>
    have hmove := move_of_advance hs
    have hp : 0 < m.pool.capacity := h.kept.capacity ▸ hn
    generalize m.passage? i = P at hmove ⊢
    cases P with
    | none => simpa only [Option.toList_none, List.append_nil, hmove.pool_eq] using ih
    | some p =>
      have hstarved : m'.pool.starved = m.pool.starved + if p.starves then 1 else 0 := by
        cases hmove with
        | @enter c ht => exact Passage.starved_came ⟨i, c, true, m.pool⟩ hp
        | @resume c ht => exact Passage.starved_came ⟨i, c, false, m.pool⟩ hp
      rw [hstarved, ih, Option.toList_some, List.filter_append, List.length_append]
      cases hstarves : p.starves <;> simp [hstarves]

/-! ### All of it -/

/-- **A closed pool dismisses its producers.** -/
structure Dismisses (m : Monitor α) : Prop where
  /-- A producer who sleeps can only wake and be told that the pool is closed. -/
  barred : ∀ {i : Nat} {d : Condition} {x : Tagged α} {m' : Monitor α},
    m.threads[i]? = some (.asleep d (.push x)) → m.Leads m' →
      ∃ t, m'.threads[i]? = some t ∧ Barred x t
  /-- He has been told once nothing is under way. -/
  told : ∀ {i : Nat} {d : Condition} {x : Tagged α} {m' : Monitor α},
    m.threads[i]? = some (.asleep d (.push x)) → m.Leads m' → m'.Settled →
      m'.threads[i]?.bind PoolThread.outcome? = some (.rejected ⟨.closed, x⟩)
  /-- Every step brings the end nearer. -/
  nearer : ∀ {i : Nat} {target : Option Nat} {m' : Monitor α},
    m.advance i target = some m' → m'.total cost < m.total cost
  /-- As long as anything is under way, a thread that does not sleep can make a step. -/
  goes_on : ¬ m.Settled → ∃ (j : Nat) (t : PoolThread α) (target : Option Nat) (m' : Monitor α),
    m.threads[j]? = some t ∧ t.isAsleep = false ∧ m.advance j target = some m'

theorem Recorded.dismisses (h : Recorded n m calls H) (hn : 0 < n)
    (hc : m.pool.isClosed = true) : m.Dismisses := by
  have hp : 0 < m.pool.capacity := h.kept.capacity ▸ hn
  have hbarred : ∀ {i : Nat} {d : Condition} {x : Tagged α} {m' : Monitor α},
      m.threads[i]? = some (.asleep d (.push x)) → m.Leads m' →
      m'.pool.isClosed = true ∧ ∃ t, m'.threads[i]? = some t ∧ Barred x t := by
    intro i d x m' ht hm
    obtain rfl : .notFull = d := Option.some.inj (h.kept.proper ht)
    exact barred_of_leads hm hc hp ⟨_, ht, Or.inl rfl⟩
  constructor
  · exact fun ht hm => (hbarred ht hm).2
  · intro i d x m' ht hm hs
    obtain ⟨hc', t, ht', hbar⟩ := hbarred ht hm
    obtain ⟨calls', H', h'⟩ := h.leads hm
    rcases hbar with rfl | rfl | hbar
    · have hopen := (h'.sleeps_for_cause hs ht').1
      cases hc'.symm.trans hopen
    · exact absurd trivial (hs i _ ht')
    · rw [ht']
      exact hbar
  · exact advance_lt_of_closed hc
  · exact exists_advance

/-- **No value and no wake-up is lost**, seen from the calls that were made and the critical
sections that were passed. -/
structure Lossless (m : Monitor α) (calls : List (PoolCall α)) (H : List (Passage α)) :
    Prop where
  /-- Values are handed out once, in order, and none disappears. -/
  sound : (Traffic.of H).Sound m.pool.entries
  /-- Those who called know. -/
  replied : (Traffic.of H).Replied m calls
  /-- Who sleeps while nothing is under way has to wait. -/
  rightly : m.Settled → ∀ {i : Nat} {d : Condition} {c : PoolCall α},
    m.threads[i]? = some (.asleep d c) → m.pool.isClosed = false ∧
      ((∃ x, c = .push x) ∧ m.pool.numFree = 0 ∨ c = .pop ∧ m.pool.entries = [])
  dismisses : m.pool.isClosed = true → m.Dismisses
  /-- A push is counted if it found the pool open and full as it entered, which it did once. -/
  starved : m.pool.starved = (H.filter (·.starves)).length
  starved_once : ((H.filter (·.starves)).map (·.thread)).Nodup
  calls_eq : ∀ p ∈ H, calls[p.thread]? = some p.call

/-- **Blocking calls lose neither values nor wake-ups**, whoever makes them and whenever. -/
theorem Recorded.lossless (h : Recorded n m calls H) (hn : 1 ≤ n) : m.Lossless calls H where
  sound := h.sound
  replied := h.replied
  rightly := fun hm _ _ _ ht => h.sleeps_for_cause hm ht
  dismisses := h.dismisses hn
  starved := h.starved hn
  starved_once := by
    have hfirst : ∀ p : Passage α, p.starves = true → p.first = true := by
      intro p hp
      simp only [Passage.starves, Bool.and_eq_true] at hp
      exact hp.1.1.1
    exact h.kept.once.sublist ((List.monotone_filter_right H hfirst).map _)
  calls_eq := fun p hp => (h.kept.passed p hp).1

end Monitor

/-! ### Two producers and one slot -/

namespace Crowd

open Monitor

/-- Two producers, and somebody who closes the pool. -/
def calls : List (PoolCall Nat) := [.push ⟨0, 5⟩, .push ⟨1, 6⟩, .close]

/-- All of them are about to enter. -/
def gathered : Monitor Nat := calls.foldl Monitor.call ⟨.new 1, #[]⟩

/-- The first has stored its value. -/
def filled : Monitor Nat := gathered.pass 0 (.push ⟨0, 5⟩) true

/-- The second sleeps. -/
def crowded : Monitor Nat := filled.pass 1 (.push ⟨1, 6⟩) true

/-- The pool is closed, and the second is still to be woken. -/
def closed : Monitor Nat := crowded.pass 2 .close true

def history : List (Passage Nat) :=
  [⟨0, .push ⟨0, 5⟩, true, gathered.pool⟩, ⟨1, .push ⟨1, 6⟩, true, filled.pool⟩,
    ⟨2, .close, true, crowded.pool⟩]

theorem recorded_closed : Recorded 1 closed calls history := by
  have h0 : Recorded 1 gathered calls [] :=
    ((Recorded.start.call (.push ⟨0, 5⟩)).call (.push ⟨1, 6⟩)).call .close
  have hfill : gathered.advance 0 none = some filled := rfl
  have hcrowd : filled.advance 1 none = some crowded := rfl
  have hclose : crowded.advance 2 none = some closed := rfl
  exact ((h0.step hfill).step hcrowd).step hclose

theorem lossless_closed : Recorded 1 closed calls history ∧ 1 ≤ 1 ∧ closed.pool.starved = 1 ∧
    closed.threads[1]? = some (.asleep .notFull (.push ⟨1, 6⟩)) ∧
    closed.Lossless calls history :=
  ⟨recorded_closed, Nat.le_refl 1, by cbv, by cbv,
    Recorded.lossless recorded_closed (Nat.le_refl 1)⟩

end Crowd

end Dataflow
